import MacroRelay.Session.Basic
import MacroRelay.Supervisor
import MacroRelay.Settings.File

/-!
# Hosts

A host starts servers and carries calls to them. Everything else about the outside world stays
in it.
-/

namespace MacroRelay

structure ServerCommand where
  program : Text
  arguments : List Text := []
  /-- Where it runs; empty for the working directory. -/
  dir : Text := []
  env : List Text := []
deriving DecidableEq

def ServerSettings.startCommand? (s : ServerSettings) : Option ServerCommand :=
  match s.command with
  | [] => none
  | program :: arguments => some ⟨program, arguments, s.dir, s.env⟩

inductive StartFault where
  | noProgram
  | notOnPath (program : Text)
  | rootDirectory
  | badEnvironment (program : Text)
  | file (program : Text) (fault : FileFault)
deriving DecidableEq

def StartFault.message : StartFault → Text
  | .noProgram => "server command is empty"
  | .notOnPath program =>
    "start " ++ program ++ ": exec: " ++ program.quoted ++ ": executable file not found in $PATH"
  | .rootDirectory => "start /: exec: \"/\": is a directory"
  | .badEnvironment program => "start " ++ program ++ ": exec: environment variable contains NUL"
  | .file program fault => "start " ++ program ++ ": " ++ fault.message

namespace ServerCommand

def place (c : ServerCommand) (tree : FileTree) : FileTree :=
  { tree with workingDirectory := tree.resolve c.dir }

/-- The system takes no longer argument or variable. -/
def longestArgument : Nat := 131071

/-- Why a program cannot be executed at its place, if `isProgram` says which paths can be. -/
def executionFault? (c : ServerCommand) (tree : FileTree) (isProgram : Text → Bool) : Option FileFault :=
  match (c.place tree).walk "fork/exec" c.program with
  | .error fault => some fault
  | .ok target =>
    if isProgram target then
      if (c.program :: c.arguments ++ c.env).any (longestArgument < ·.length) then
        some (.argumentsTooLong "fork/exec" c.program)
      else none
    else match (c.place tree).look "fork/exec" c.program with
      | .error fault => some fault
      | .ok _ => some (.denied "fork/exec" c.program)

/-- Why a program cannot be started. A name without a slash is looked for elsewhere, and so is
the root directory. -/
def startFault? (c : ServerCommand) (tree : FileTree) (isProgram : Text → Bool) : Option StartFault :=
  if c.program = [] then some .noProgram
  else if !List.contains c.program Path.slash then some (.notOnPath c.program)
  else if c.program = [Path.slash] then some .rootDirectory
  else if c.env.any (List.contains · 0) then some (.badEnvironment c.program)
  else match if c.dir = [] then .ok .directory else tree.look "chdir" c.dir with
    | .error fault => some (.file c.program fault)
    | .ok entry =>
      if (c.program :: c.arguments).any (List.contains · 0) then
        some (.file c.program (.invalid "fork/exec" c.program))
      else if entry ≠ .directory then some (.file c.program (.notDirectory "fork/exec" c.program))
      else (c.executionFault? tree isProgram).map (.file c.program)

end ServerCommand

/-- What can be done with servers in a world `σ`, where `κ` names connections. -/
structure Host (σ κ : Type) where
  dial : σ → FileTree → ServerCommand → σ × Except StartFault κ
  call : Caller σ κ
  close : σ → κ → σ

namespace Host

variable {σ κ : Type}

/-- One attempt of a supervisor, up to a published connection or a loss. -/
def attempt (h : Host σ κ) (tree : FileTree) (c : ServerCommand) (world : σ) (s : Supervisor κ) :
    σ × Supervisor κ :=
  match h.dial world tree c with
  | (world, .error fault) => (world, s.perform [.dialFailed fault.message])
  | (world, .ok client) =>
    let s := s.perform [.dialed client]
    let (world, outcome) := h.call world client Method.handshake.name
      (Gen2.HandshakeRequest.codec.write (greeting Version.current))
    match Gen2.HandshakeResult.ofOutcome outcome with
    | .error fault => (h.close world client, s.perform [.unanswered fault])
    | .ok answer => (world, s.perform [.answered answer, .publish])

/-- Attempts follow each other until one succeeds or the restarts are used up. -/
def attempts (h : Host σ κ) (tree : FileTree) (c : ServerCommand) : Nat → σ → Supervisor κ → σ × Supervisor κ
  | 0, world, s => (world, s)
  | n + 1, world, s =>
    let (world, s) := h.attempt tree c world s
    match s.phase with
    | .resting _ => attempts h tree c n world (s.perform [.rested])
    | _ => (world, s)

/-- Starts a server and keeps trying until the supervisor is ready. -/
def bringUp (h : Host σ κ) (tree : FileTree) (c : ServerCommand) (policy : RestartPolicy)
    (trace : Trace.Recorder) (world : σ) : σ × Supervisor κ :=
  h.attempts tree c (policy.maxRestarts.toInt.toNat + 1) world (.start policy true trace)

end Host

end MacroRelay
