import MacroRelay.Client.Basic
import MacroRelay.Duration
import MacroRelay.Status
import MacroRelay.Trace.Tracer
import MacroRelay.Version
import MacroRelay.Wire.Gen2
import MacroRelay.Wire.Method

/-!
# Keeping a server alive

A supervisor starts a server, greets it and publishes the connection. A server that cannot be
reached or is lost is started again, later every time, until the restarts are used up and the
server counts as crashed. Everything that happens is a move; a run of the supervisor is any
sequence of possible moves.
-/

namespace MacroRelay

structure RestartPolicy where
  /-- For the whole life of the supervisor. -/
  maxRestarts : Int64 := 0
  /-- The wait before the first restart. It doubles every time up to `maxBackoff`. -/
  backoff : Duration := 0
  maxBackoff : Duration := 0
deriving DecidableEq

namespace RestartPolicy

def defaultBackoff : Duration := 100000000

def defaultMaxBackoff : Duration := 5000000000

/-- Waits that make no sense are replaced. -/
def withDefaults (p : RestartPolicy) : RestartPolicy :=
  let backoff := if p.backoff ≤ 0 then defaultBackoff else p.backoff
  { p with backoff, maxBackoff := if p.maxBackoff < backoff then defaultMaxBackoff else p.maxBackoff }

def doubled (limit : Duration) : Nat → Duration → Duration
  | 0, d => d
  | n + 1, d => if limit ≤ d * 2 then limit else doubled limit n (d * 2)

/-- The wait after an attempt; the first one has number zero. -/
def delay (p : RestartPolicy) (attempt : Nat) : Duration :=
  doubled p.maxBackoff attempt p.backoff

def isSpent (p : RestartPolicy) (restarts : Nat) : Bool :=
  p.maxRestarts.toInt ≤ restarts

end RestartPolicy

inductive Loss where
  | dial (message : Text)
  | handshake (fault : CallError)
  | connection (cause : Cause)
deriving DecidableEq

def Loss.message : Loss → Text
  | .dial message => "dial: " ++ message
  | .handshake fault => "handshake: " ++ fault.message
  | .connection cause => cause.message

/-- The restarts are used up; the last loss is the reason. -/
structure Crash where
  loss : Loss
deriving DecidableEq

def Crash.message (c : Crash) : Text :=
  "macro server crashed: " ++ c.loss.message

inductive SupervisorPhase (κ : Type) where
  | dialing
  | greeting (client : κ)
  /-- The answer to the greeting is known, the client not published yet. -/
  | greeted (client : κ)
  | serving (client : κ)
  | resting (wait : Duration)
  | ended
deriving DecidableEq

structure Supervisor (κ : Type) where
  policy : RestartPolicy
  dumps : Bool := true
  phase : SupervisorPhase κ := .dialing
  cell : StatusCell κ := none
  handshake : Gen2.HandshakeResult := {}
  attempt : Nat := 0
  restarts : Nat := 0
  crash : Option Crash := none
  cancelled : Bool := false
  ready : Bool := false
  closed : List κ := []
  trace : Trace.Recorder := {}
  server : Trace.Activity := .inert
  spawn : Trace.Activity := .inert
  /-- The history shown at the crash. -/
  dump : Text := []
  /-- How many lines the tracer had written before the history was shown. -/
  dumpedAfter : Nat := 0

inductive SupervisorMove (κ : Type) where
  | dialed (client : κ)
  | dialFailed (message : Text)
  | answered (answer : Gen2.HandshakeResult)
  | unanswered (fault : CallError)
  | publish
  | lost (cause : Cause)
  | rested
  | cancel
  | noticeCancel

def greeting (clientVersion : Text) : Gen2.HandshakeRequest where
  clientVersion
  protocols := some Version.protocols

def Gen2.HandshakeResult.isKnown (h : Gen2.HandshakeResult) : Bool :=
  h.fingerprint ≠ [] || h.serverVersion ≠ []

def Gen2.HandshakeResult.ofOutcome (o : Outcome) : Except CallError Gen2.HandshakeResult :=
  match o with
  | .error e => .error e
  | .ok none => .ok {}
  | .ok (some raw) =>
    match Gen2.HandshakeResult.codec.decode? raw with
    | some answer => .ok answer
    | none => .error (.undecodable Method.handshake.name)

namespace Supervisor

variable {κ : Type}

def launch (s : Supervisor κ) : Supervisor κ :=
  let (trace, spawn) := s.trace.start Trace.Scope.process "spawn" s.server.id
  let (trace, spawn) := trace.attach spawn "attempt" (Text.decimal s.attempt)
  { s with trace, spawn, phase := .dialing }

def start (policy : RestartPolicy) (dumps : Bool) (trace : Trace.Recorder) : Supervisor κ :=
  let (trace, server) := trace.start Trace.Scope.process "server" 0
  launch { policy := policy.withDefaults, dumps, trace, server }

def finish (s : Supervisor κ) : Supervisor κ :=
  { s with trace := s.trace.finish s.server [], phase := .ended, ready := true }

def endSpawn (s : Supervisor κ) (detail : Text) : Supervisor κ :=
  { s with trace := s.trace.finish s.spawn detail, spawn := .inert }

def recordFailure (s : Supervisor κ) (name message : Text) : Supervisor κ :=
  { s with trace := s.trace.fail Trace.Scope.process name message }

def giveUp (s : Supervisor κ) (loss : Loss) : Supervisor κ :=
  let s := { s with crash := some ⟨loss⟩, cell := (StatusCell.set s.cell .crashed).1 }
  let s := s.recordFailure "server:crashed" (Crash.mk loss).message
  let history := (s.trace.tracer.ring?.map fun ring => (ring.dump Trace.Format.text).flatten).getD []
  { s with dump := if s.dumps then history else [], dumpedAfter := s.trace.tracer.received.size }.finish

/-- Decides what follows a loss. After a cancellation nothing is spent and nothing published. -/
def examine (s : Supervisor κ) (loss : Loss) : Supervisor κ :=
  if s.cancelled then s.finish
  else
    let s := s.recordFailure "server:lost" loss.message
    if s.policy.isSpent s.restarts then s.giveUp loss
    else
      let wait := s.policy.delay s.attempt
      { s with
        restarts := s.restarts + 1
        trace := s.trace.point Trace.Scope.process "server:restart" ("in " ++ wait.text)
        phase := .resting wait }

/-- What the supervisor is after a move, if the move is possible. -/
def step (s : Supervisor κ) (m : SupervisorMove κ) : Option (Supervisor κ) :=
  match s.phase, m with
  | .ended, .cancel => none
  | _, .cancel => some { s with cancelled := true }
  | .dialing, .dialed client => some { s with phase := .greeting client }
  | .dialing, .dialFailed message => some ((s.endSpawn "dial failed").examine (.dial message))
  | .greeting client, .answered answer =>
    let (trace, spawn) := s.trace.attach s.spawn "server" answer.serverVersion
    some ({ s with trace, spawn, handshake := answer, phase := .greeted client }.endSpawn "connected")
  | .greeting client, .unanswered fault =>
    some (({ s with closed := client :: s.closed }.endSpawn "handshake failed").examine (.handshake fault))
  | .greeted client, .publish =>
    some { s with cell := (StatusCell.set s.cell (.connected client)).1, ready := true, phase := .serving client }
  | .serving _, .lost cause => some (s.examine (.connection cause))
  | .resting _, .rested => some { s with attempt := s.attempt + 1 }.launch
  | .serving client, .noticeCancel =>
    if s.cancelled then some { s with closed := client :: s.closed }.finish else none
  | .resting _, .noticeCancel => if s.cancelled then some s.finish else none
  | _, _ => none

/-- Makes the moves in turn; those that are not possible are passed over. -/
def perform (s : Supervisor κ) (moves : List (SupervisorMove κ)) : Supervisor κ :=
  moves.foldl (fun s m => (s.step m).getD s) s

def stop (s : Supervisor κ) : Supervisor κ :=
  s.perform [.cancel, .noticeCancel]

end Supervisor

end MacroRelay
