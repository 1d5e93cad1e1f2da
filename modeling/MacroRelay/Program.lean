import MacroRelay.CommandLine.Invocation
import MacroRelay.Relay.Report

/-!
# The program

The program takes arguments and files and leaves text on two outputs, an exit code and the
files as they are afterwards.
-/

namespace MacroRelay

open CommandLine

inductive ProgramError where
  | settings (e : SettingsError)
  | traceSetting (e : Trace.SettingError)
  | traceOutput (fault : FileFault)
  | unknownFormat (given : Text) (first second : Text)
  | unknownColour (given : Text)
  | relay (e : RelayError)
  | batch (e : BatchError)
  | disk (e : DiskError)
  | clearing (dir : Text) (e : DiskError)
  | reported
deriving DecidableEq

def ProgramError.message : ProgramError → Text
  | .settings e => e.message
  | .traceSetting e => e.message
  | .traceOutput fault => "trace: open trace output: " ++ fault.message
  | .unknownFormat given first second =>
    "unsupported format " ++ given.quoted ++ " (must be " ++ first ++ " or " ++ second ++ ")"
  | .unknownColour given => "invalid --color " ++ given.quoted ++ " (expected auto|on|off)"
  | .relay e => e.message
  | .batch e => e.message
  | .disk e => e.message
  | .clearing dir e => "clear " ++ dir ++ ": " ++ e.message
  | .reported => "macro expansion reported errors"

inductive TraceTarget where
  | nowhere
  | errors
  | file (path : Text)
deriving DecidableEq

structure Job (σ κ : Type) where
  workspace : Workspace σ κ
  target : TraceTarget := .nowhere
  passed : Nat := 0
  output : Text := []
  errors : Text := []

namespace Job

variable {σ κ : Type}

def printError (j : Job σ κ) (t : Text) : Job σ κ :=
  { j with errors := j.errors ++ t }

def print (j : Job σ κ) (t : Text) : Job σ κ :=
  { j with output := j.output ++ t }

def passTrace (j : Job σ κ) (upTo : Nat) : Job σ κ :=
  let lines := ((j.workspace.trace.tracer.received.toList.take upTo).drop j.passed).flatten
  let j := { j with passed := max j.passed upTo }
  match j.target with
  | .nowhere => j
  | .errors => j.printError lines
  | .file path =>
    let files := j.workspace.files
    let target := files.resolve path
    let before := (files.read path).toOption.getD []
    { j with workspace := { j.workspace with files := files.set target (.file (before ++ lines)) } }

def passAll (j : Job σ κ) : Job σ κ :=
  j.passTrace j.workspace.trace.tracer.received.size

/-- Takes over what a relay has done. The history of a crash comes between the lines of the
trace where it was shown. -/
def after (j : Job σ κ) (r : Relay σ κ) : Job σ κ :=
  let j := { j with workspace := r.workspace }
  match r.supervisor with
  | some s => if s.crash.isSome then ((j.passTrace s.dumpedAfter).printError s.dump).passAll else j.passAll
  | none => j.passAll

end Job

namespace Program

variable {σ κ : Type}

def loadSettings (tree : FileTree) (a : Arguments) : Except ProgramError Settings :=
  let path := a.text "config" []
  (if path = [] then Settings.discover tree "." else Settings.load tree path).mapError .settings

/-- Flags go before the settings file. -/
def traceSettings (s : TraceSettings) (a : Arguments) : TraceSettings where
  level := a.text "trace-level" s.level
  mode := a.text "trace-mode" s.mode
  output := a.text "trace" s.output
  ringSize := (a.integer? "trace-ring-size").getD s.ringSize

/-- A trace with an output but no level shows what happens to the server. -/
def traceLevel (s : TraceSettings) : Except Trace.SettingError Trace.Level := do
  let level ← Trace.Level.parse s.level
  return if level = Trace.Level.off ∧ s.output ≠ [] then Trace.Level.process else level

/-- The tracer, where its lines go, and the files with the output made. -/
def openTrace (tree : FileTree) (s : TraceSettings) :
    Except ProgramError (FileTree × Trace.Tracer × TraceTarget) := do
  let level ← (traceLevel s).mapError .traceSetting
  if level = Trace.Level.off then return (tree, .silent, .nowhere)
  let mode ← (Trace.Mode.parse s.mode).mapError .traceSetting
  let tracer ← (Trace.Tracer.ofSettings
    { level, mode, format := Trace.Format.auto, path := s.output, ringSize := s.ringSize }).mapError .traceSetting
  if tracer.device?.isNone then return (tree, tracer, .nowhere)
  else if s.output = [] ∨ s.output = Text.ofString "-" then return (tree, tracer, .errors)
  else
    let tree ← (tree.create s.output).mapError .traceOutput
    return (tree, tracer, .file s.output)

/-- No output is a terminal here, so colours are on only if asked for. -/
def isColoured (a : Arguments) : Except ProgramError Bool :=
  let given := a.text "color" "auto"
  if given = Text.ofString "on" then .ok true
  else if given = Text.ofString "off" ∨ given = Text.ofString "auto" then .ok false
  else .error (.unknownColour given)

abbrev Done (σ κ : Type) := Job σ κ × Option ProgramError

def failed (j : Job σ κ) (e : ProgramError) : Done σ κ := (j, some e)

def withRelay (h : Host σ κ) (home : CacheHome) (s : Settings) (j : Job σ κ)
    (run : Relay σ κ → Job σ κ → Relay σ κ × Done σ κ) : Done σ κ :=
  match Relay.start h home s j.workspace with
  | (r, some e) => failed (j.after r) (.relay e)
  | (r, none) =>
    let j := j.after r
    let (r, j, e) := run { r with workspace := j.workspace } j
    let r := r.close h
    ({ j with workspace := r.workspace }.passAll, e)

def listCatalogue (h : Host σ κ) (home : CacheHome) (a : Arguments) (j : Job σ κ) : Done σ κ :=
  let format := a.text "format" "text"
  let isJson := format = Text.ofString "json"
  if !isJson ∧ format ≠ Text.ofString "text" then failed j (.unknownFormat format "text" "json")
  else match loadSettings j.workspace.files a, isColoured a with
    | .error e, _ => failed j e
    | _, .error e => failed j e
    | .ok s, .ok coloured => withRelay h home s j fun r j =>
      (r, j.print (if isJson then r.catalogue.json.document else r.catalogue.table coloured), none)

def report (a : Arguments) (coloured : Bool) (r : Relay σ κ) (reports : List FileReport) (j : Job σ κ) :
    Done σ κ :=
  let j := reports.foldl (fun j f =>
    (j.print (f.listing r.sources (a.isOn "mappings"))).printError
      (Diagnostic.lines f.diagnostics r.sources coloured)) j
  let j := if a.isOn "timings" then j.printError (r.timer.summary ++ r.workspace.session.stats.line) else j
  (j, if reports.any fun f => Diagnostic.hasErrors f.diagnostics then some .reported else none)

def expandFiles (h : Host σ κ) (home : CacheHome) (mode : ExpandMode) (a : Arguments) (j : Job σ κ) :
    Done σ κ :=
  match loadSettings j.workspace.files a, isColoured a with
  | .error e, _ => failed j e
  | _, .error e => failed j e
  | .ok s, .ok coloured => withRelay h home s j fun r j =>
    let o : ExpandOptions := ⟨mode, a.text "package" [], a.text "edition" "2024_07"⟩
    match Relay.expandFiles h.call o a.rest r with
    | (r, .error e) => (r, { j with workspace := r.workspace }.passAll, some (.batch e))
    | (r, .ok reports) =>
      let (j, e) := report a coloured r reports { j with workspace := r.workspace }.passAll
      ({ r with workspace := j.workspace }, j, e)

def clearCache (home : CacheHome) (a : Arguments) (j : Job σ κ) : Done σ κ :=
  let files := j.workspace.files
  match loadSettings files a with
  | .error e => failed j e
  | .ok s =>
    match DiskCache.ofSettings files home s.cache with
    | .error e => failed j (.disk e)
    | .ok (files, disk) =>
      match disk.clear files with
      | .error e => failed { j with workspace := { j.workspace with files } } (.clearing disk.dir e)
      | .ok files =>
        ({ j with workspace := { j.workspace with files } }.print ("cleared " ++ disk.dir ++ "\n"), none)

def versionLine : Text :=
  Command.root.name ++ " " ++ Version.current ++ " (protocols " ++
    Text.joined ", " (Version.protocols.map fun p => Text.ofString "v" ++ Text.decimal p.toNat) ++ ")\n"

def versionJson (full : Bool) : JsonValue :=
  let build : List (Text × JsonValue) :=
    [("git_commit", .text Version.unknown), ("build_date", .text Version.unknown)]
  let fields : List (Text × JsonValue) :=
    [("tool", .text Command.root.name), ("version", .text Version.current),
      ("protocols", .list (Version.protocols.map fun p => .number p.toNat))]
  .record (if full then fields ++ build else fields)

def showVersion (a : Arguments) (j : Job σ κ) : Done σ κ :=
  let format := (a.text "format" "pretty").lowercase
  let full := a.isOn "full"
  if format = Text.ofString "json" then (j.print (versionJson full).document, none)
  else if format ≠ Text.ofString "pretty" then
    failed j (.unknownFormat (a.text "format" "pretty") "pretty" "json")
  else match isColoured a with
    | .error e => failed j e
    | .ok _ =>
      let build : Text := if full
        then "commit: " ++ Version.unknown ++ "\nbuilt:  " ++ Version.unknown ++ "\n" else []
      (j.print (versionLine ++ build), none)

def perform (h : Host σ κ) (home : CacheHome) (c : Command) (a : Arguments) (j : Job σ κ) : Done σ κ :=
  match c with
  | .catalogue => listCatalogue h home a j
  | .expandFiles mode => expandFiles h home mode a j
  | .cacheClear => clearCache home a j
  | .version => showVersion a j
  | _ => (j, none)

def execute (h : Host σ κ) (home : CacheHome) (c : Command) (a : Arguments) (j : Job σ κ) : Done σ κ :=
  match loadSettings j.workspace.files a with
  | .error e => failed j e
  | .ok s =>
    match openTrace j.workspace.files (traceSettings s.trace a) with
    | .error e => failed j e
    | .ok (files, tracer, target) =>
      perform h home c a { j with target, workspace := { j.workspace with files, trace := { tracer } } }

structure Finished where
  exit : UInt32
  output : Text
  errors : Text
  files : FileTree

def errorLine (message : Text) : Text :=
  "Error: " ++ message ++ "\n"

def run (h : Host σ κ) (home : CacheHome) (files : FileTree) (world : σ) (arguments : List Text) : Finished :=
  match Invocation.ofArguments arguments with
  | .error e => ⟨1, [], errorLine e.message ++ e.advice, files⟩
  | .ok (.help c) => ⟨0, c.helpText, [], files⟩
  | .ok .version => ⟨0, Command.root.name ++ " version " ++ Version.current ++ "\n", [], files⟩
  | .ok (.run c a) =>
    match execute h home c a { workspace := { files, remote := world } } with
    | (j, none) => ⟨0, j.output, j.errors, j.workspace.files⟩
    | (j, some e) => ⟨1, j.output, j.errors ++ errorLine e.message, j.workspace.files⟩

end Program

end MacroRelay
