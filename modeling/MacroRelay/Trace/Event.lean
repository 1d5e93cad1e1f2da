import MacroRelay.Text.LowerCase
import MacroRelay.Text.Quoted
import MacroRelay.Text.Sorted
import MacroRelay.Trace.Instant

/-!
# Trace events

Kinds, scopes, levels and modes are small numbers: settings and recorded events may hold one
that has no name. A level decides which scopes are recorded; failures pass every level but
`off`.
-/

namespace MacroRelay.Trace

/-- The name of the number, or `unknown`. Numbers are counted from `first`. -/
def nameOf (first : UInt8) (names : List Text) (n : UInt8) : Text :=
  if n < first then "unknown" else names.getD (n - first).toNat "unknown"

abbrev Kind := UInt8

namespace Kind

def spanBegin : Kind := 1
def spanEnd : Kind := 2
def point : Kind := 3
def failure : Kind := 4

def name (k : Kind) : Text :=
  nameOf 1 ["begin", "end", "point", "failure"] k

end Kind

/-- Smaller is coarser. -/
abbrev Scope := UInt8

namespace Scope

def session : Scope := 1
def process : Scope := 2
def request : Scope := 3

def name (s : Scope) : Text :=
  nameOf 1 ["session", "process", "request"] s

end Scope

abbrev Level := UInt8

namespace Level

def off : Level := 0
def error : Level := 1
def process : Level := 3
def debug : Level := 4

def names : List Text := ["off", "error", "session", "process", "debug"]

def name (l : Level) : Text :=
  nameOf 0 names l

def enabled (l : Level) : Bool := off < l

/-- Whether ordinary events of a scope are recorded. -/
def admits (l : Level) (scope : Scope) : Bool :=
  if l ≤ error then false
  else if l = debug then true
  else scope ≤ l - error

/-- Whether an event of this kind and scope is recorded. -/
def accepts (l : Level) (kind : Kind) (scope : Scope) : Bool :=
  if kind = Kind.failure then l.enabled else l.admits scope

end Level

/-- Where events go. -/
abbrev Mode := UInt8

namespace Mode

def stream : Mode := 1
def ring : Mode := 2
def both : Mode := 3

def names : List Text := ["stream", "ring", "both"]

def name (m : Mode) : Text :=
  nameOf 1 names m

end Mode

abbrev Format := UInt8

namespace Format

def auto : Format := 0
def text : Format := 1
def json : Format := 2

/-- An automatic format follows the ending of the output's name. -/
def resolve (f : Format) (path : Text) : Format :=
  if f ≠ auto then f
  else if (Text.ofString ".ndjson").isSuffixOf path ∨ (Text.ofString ".json").isSuffixOf path then json
  else text

end Format

inductive SettingError where
  | level : Text → SettingError
  | mode : Text → SettingError
  | format : Text → SettingError
  | unknownMode : Mode → SettingError
  | ringTooLarge
deriving DecidableEq

def SettingError.message : SettingError → Text
  | .level given =>
    "invalid trace level " ++ given.quoted ++ " (expected " ++ Text.joined "|" Level.names ++ ")"
  | .mode given =>
    "invalid trace mode " ++ given.quoted ++ " (expected " ++ Text.joined "|" Mode.names ++ ")"
  | .format given => "invalid trace format " ++ given.quoted ++ " (expected auto|text|ndjson)"
  | .unknownMode m => "unknown trace mode " ++ m.name
  | .ringTooLarge => "runtime error: makeslice: len out of range"

/-- An empty setting means `off`. -/
def Level.parse (t : Text) : Except SettingError Level :=
  if t = [] then .ok off
  else match Level.names.idxOf? t.lowercase with
    | some i => .ok i.toUInt8
    | none => .error (.level t)

/-- An empty setting means `both`. -/
def Mode.parse (t : Text) : Except SettingError Mode :=
  if t = [] then .ok both
  else match Mode.names.idxOf? t.lowercase with
    | some i => .ok (i + 1).toUInt8
    | none => .error (.mode t)

/-- An empty setting means `auto`. -/
def Format.parse (t : Text) : Except SettingError Format :=
  let names : List (Text × Format) :=
    [("", auto), ("auto", auto), ("text", text), ("ndjson", json), ("json", json)]
  match names.lookup t.lowercase with
  | some f => .ok f
  | none => .error (.format t)

/-- Notes on an event, in the byte order of their keys. -/
abbrev Extras := List (Text × Text)

/-- The later value of a key replaces the earlier one. -/
def Extras.set (key value : Text) : Extras → Extras
  | [] => [(key, value)]
  | (k, v) :: rest =>
    if key = k then (key, value) :: rest
    else if Text.before key k then (key, value) :: (k, v) :: rest
    else (k, v) :: set key value rest

structure Event where
  time : Instant := default
  seq : UInt64
  kind : Kind
  scope : Scope
  spanId : UInt64 := 0
  parentId : UInt64 := 0
  name : Text
  detail : Text := []
  extras : Extras := []
deriving DecidableEq

end MacroRelay.Trace
