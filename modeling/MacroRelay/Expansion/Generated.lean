import MacroRelay.Expansion.Stream

/-!
# Generated code

An answer becomes a file in the space of the host: its text, mappings back to the source, and
the diagnostics of the macro. An answer without text makes no file.
-/

namespace MacroRelay

structure GeneratedFile where
  name : Text
  content : Text
  mappings : List Mapping
  executable : Option Text := none
deriving DecidableEq

structure Generated where
  code : Option GeneratedFile := none
  diagnostics : List Diagnostic := []
  removesItem : Bool := false
deriving DecidableEq

namespace Generated

def droppedWarning (name : Text) (site : CallSite) (dropped : Nat) : Diagnostic :=
  { severity := Severity.warning
    code := DiagnosticCode.malformedResult
    message := "macro " ++ name ++ " returned " ++ Text.decimal dropped ++
      " malformed code mappings; they were ignored"
    primary := site }

def nothingError (name : Text) (site : CallSite) : Diagnostic :=
  { severity := Severity.error
    code := DiagnosticCode.emptyExpansion
    message := "inline macro " ++ name ++ "! expanded to nothing"
    primary := site }

/-- Malformed mappings are counted in one warning; without a usable mapping all of the text is
mapped to the call site. The number of dropped mappings comes with it. -/
def ofAnswer (name : Text) (r : Gen2.Result) (site : CallSite) : Generated × Nat :=
  let diagnostics := r.diagnostics.items.map (Gen2.Diagnostic.toHost site)
  let content := r.stream.text
  if content = [] then ({ diagnostics }, 0)
  else
    let (usable, dropped) := Gen2.WireMapping.toMappings r.mappings.items
    let mappings := if usable = [] then Mapping.wholeOutput content site.span else usable
    let warnings := if dropped = 0 then [] else [droppedWarning name site dropped]
    ({ code := some { name, content, mappings }, diagnostics := diagnostics ++ warnings }, dropped)

end Generated

end MacroRelay
