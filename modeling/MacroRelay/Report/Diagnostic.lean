import MacroRelay.Source.Position

/-!
# Diagnostics

A diagnostic keeps the severity its macro chose. The code only says where it came from: the
macro itself or the relay between compiler and macro.
-/

namespace MacroRelay

/-- Higher is worse. Levels above `error` have no name of their own. -/
abbrev Severity := UInt8

namespace Severity

def info : Severity := 0

def warning : Severity := 1

def error : Severity := 2

def name (s : Severity) : Text :=
  if s = info then "info"
  else if s = warning then "warning"
  else if s = error then "error"
  else "severity(" ++ Text.decimal s.toNat ++ ")"

end Severity

abbrev DiagnosticCode := UInt16

namespace DiagnosticCode

def macroInfo : DiagnosticCode := 1000

def macroWarning : DiagnosticCode := 1001

def macroError : DiagnosticCode := 1002

def unknownDerive : DiagnosticCode := 2001

def emptyExpansion : DiagnosticCode := 2002

def malformedResult : DiagnosticCode := 2003

def ofMacro (s : Severity) : DiagnosticCode :=
  if s = .info then macroInfo
  else if s = .warning then macroWarning
  else macroError

def id (c : DiagnosticCode) : Text :=
  if 1000 ≤ c ∧ c < 2000 then "PMC" ++ Text.decimal c.toNat
  else if 2000 ≤ c ∧ c < 3000 then "BRG" ++ Text.decimal c.toNat
  else "E0000"

def title (c : DiagnosticCode) : Text :=
  if c = macroInfo then "Procedural macro note"
  else if c = macroWarning then "Procedural macro warning"
  else if c = macroError then "Procedural macro error"
  else if c = unknownDerive then "Derive is not provided by any procedural macro package"
  else if c = emptyExpansion then "Procedural macro produced no code"
  else if c = malformedResult then "Procedural macro returned a malformed result"
  else "Unknown error"

def text (c : DiagnosticCode) : Text :=
  "[" ++ c.id ++ "]: " ++ c.title

end DiagnosticCode

structure Diagnostic where
  severity : Severity
  code : DiagnosticCode
  message : Text
  primary : FileSpan
deriving DecidableEq, Inhabited

namespace Diagnostic

def isError (d : Diagnostic) : Bool :=
  Severity.error ≤ d.severity

def hasErrors (ds : List Diagnostic) : Bool :=
  ds.any isError

def text (d : Diagnostic) : Text :=
  d.primary.text ++ " " ++ d.severity.name ++ " " ++ d.code.id ++ ": " ++ d.message

/-- By file and position, worse findings first at one place, then by code. Messages do not
count. -/
def order (a b : Diagnostic) : Ordering :=
  (compare a.primary.file b.primary.file).then <|
  (compare a.primary.span.start b.primary.span.start).then <|
  (compare a.primary.span.stop b.primary.span.stop).then <|
  (compare b.severity a.severity).then
  (compare a.code b.code)

end Diagnostic

end MacroRelay
