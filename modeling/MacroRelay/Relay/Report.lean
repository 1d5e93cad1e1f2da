import MacroRelay.Relay.Batch
import MacroRelay.Report.Bag
import MacroRelay.Text.JsonValue
import MacroRelay.Text.Paint

/-!
# What is printed

Generated code goes out with the name of its file in front, diagnostics one to a line, and
catalogues as a table or as a document.
-/

namespace MacroRelay

def Severity.paint (s : Severity) : Paint :=
  if s = Severity.error then .bold 31 else if s = Severity.warning then .bold 33 else .plain 36

def Severity.label (s : Severity) (coloured : Bool) : Text :=
  if coloured then s.paint.apply s.name else s.name

def LineColumn.text (p : LineColumn) : Text :=
  Text.decimal p.line.toNat ++ ":" ++ Text.decimal p.column.toNat

/-- `path:line:column: severity code: message`. -/
def Diagnostic.line (d : Diagnostic) (sources : FileSet) (coloured : Bool) : Text :=
  sources.filePath d.primary.file ++ ":" ++ (sources.resolve d.primary).1.text ++ ": " ++
    Severity.label d.severity coloured ++ " " ++ d.code.id ++ ": " ++ d.message ++ [Text.newline]

/-- In order of position, each once. -/
def Diagnostic.lines (ds : List Diagnostic) (sources : FileSet) (coloured : Bool) : Text :=
  (Bag.collect ds).sort.dedup.items.flatMap (Diagnostic.line · sources coloured)

namespace GeneratedFile

/-- A missing end of line is added. -/
def listing (g : GeneratedFile) (path : Text) : Text :=
  "// " ++ path ++ ": " ++ g.name ++ [Text.newline] ++ g.content ++
    if g.content = [] ∨ g.content.getLast? = some Text.newline then [] else [Text.newline]

def lineOrigin (g : GeneratedFile) (sources : FileSet) (file : FileId) (number : Nat) (s : Span) : Text :=
  let place : Text := match Mapping.bestSource g.mappings s with
    | .ok (some origin) => sources.filePath file ++ ":" ++ (sources.resolve ⟨file, origin⟩).1.text
    | _ => "?"
  "//   gen:" ++ Text.decimal number ++ " -> " ++ place ++ [Text.newline]

/-- Empty lines are passed over. -/
def originLines (g : GeneratedFile) (sources : FileSet) (file : FileId) :
    Nat → Offset → List Text → Text
  | _, _, [] => []
  | number, start, line :: rest =>
    (if line = [] then [] else g.lineOrigin sources file number (Span.of start line)) ++
      originLines g sources file (number + 1) (Offset.advance start (Width.of line + 1)) rest

def origins (g : GeneratedFile) (sources : FileSet) (file : FileId) : Text :=
  g.originLines sources file 1 0 (g.content.splitAt Text.newline)

end GeneratedFile

def FileReport.listing (r : FileReport) (sources : FileSet) (withOrigins : Bool) : Text :=
  r.code.flatMap fun g => g.listing r.path ++ if withOrigins then g.origins sources r.file else []

def SessionStats.line (s : SessionStats) : Text :=
  "requests: " ++ Text.decimal s.calls ++ " sent, " ++ Text.decimal s.memoHits ++ " memo, " ++
    Text.decimal s.diskHits ++ " disk, " ++ Text.decimal s.degraded ++ " degraded\n"

namespace Package

def namesRow (label : Text) (names : List Text) : Text :=
  let head : Text := label ++ ":"
  let blanks : Text := List.replicate (14 - head.length) 0x20
  if names = [] then [] else "  " ++ head ++ blanks ++ " " ++ Text.joined ", " names ++ "\n"

def table (p : Package) (coloured : Bool) : Text :=
  (if coloured then Paint.strong.apply p.name else p.name) ++ " (" ++ p.generation.name ++ ")\n" ++
    namesRow "attributes" p.attributes.items ++ namesRow "executables" p.executables.items ++
    namesRow "derives" p.derives.items ++ namesRow "inline macros" p.inlineMacros.items

end Package

def Gen2.PackageEntry.json (e : Gen2.PackageEntry) : JsonValue :=
  .record [("Package", .text e.package), ("Attributes", .texts e.attributes), ("Derives", .texts e.derives),
    ("InlineMacros", .texts e.inlineMacros), ("Executables", .texts e.executables),
    ("Protocol", .number e.protocol.toNat)]

namespace Catalogue

def table (c : Catalogue) (coloured : Bool) : Text :=
  c.packages.flatMap (·.table coloured)

def json (c : Catalogue) : JsonValue :=
  .record [("Macros", match c.toWire.packages with
    | none => .null
    | some entries => .list (entries.map Gen2.PackageEntry.json))]

end Catalogue

end MacroRelay
