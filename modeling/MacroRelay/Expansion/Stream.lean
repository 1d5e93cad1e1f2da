import MacroRelay.Source.FileSet
import MacroRelay.Source.Origin
import MacroRelay.Report.Diagnostic
import MacroRelay.Tree.Node
import MacroRelay.Wire.Gen1
import MacroRelay.Wire.Gen2

/-!
# Between source and wire

Nodes become token streams in which trivia are tokens of their own, so that a stream renders
to exactly the text of its node. A request steps down to the first generation and an answer
steps up from it. Malformed mappings of an answer are dropped and counted.
-/

namespace MacroRelay

namespace Gen2

def Stream.tokensOf (t : Token) : List StreamToken :=
  t.leading.map (fun trivia => ⟨trivia.text, trivia.span.span⟩) ++
    if t.text = [] then [] else [⟨t.text, t.span.span⟩]

/-- The stream of a node. Without a file set the path stays empty. -/
def Stream.ofNode (files : Option FileSet) (n : Node) (edition : Text) : Stream where
  tokens := some (n.tokens.flatMap tokensOf)
  metadata :=
    { path := files.elim [] (·.filePath n.file), fileId := Text.decimal n.file.toNat, edition }

def Stream.downgrade (s : Stream) : Gen1.Stream :=
  ⟨s.text, s.metadata.path, s.metadata.fileId⟩

/-- The first generation knows no call sites. -/
def AttributeRequest.downgrade (r : AttributeRequest) : Gen1.AttributeRequest :=
  ⟨r.context, r.attr, r.args.downgrade, r.item.downgrade⟩

def DeriveRequest.downgrade (r : DeriveRequest) : Gen1.DeriveRequest :=
  ⟨r.context, if r.derives.items = [] then none else r.derives, r.item.downgrade⟩

def InlineRequest.downgrade (r : InlineRequest) : Gen1.InlineRequest :=
  ⟨r.context, r.name, r.args.downgrade⟩

def Diagnostic.errorLevel : UInt8 := 1

def Diagnostic.warningLevel : UInt8 := 2

def Diagnostic.infoLevel : UInt8 := 3

/-- Unknown levels count as errors. -/
def Diagnostic.hostSeverity (level : UInt8) : Severity :=
  if level = warningLevel then .warning
  else if level = infoLevel then .info
  else .error

def WireOrigin.start (offset : Offset) : WireOrigin := { kind := 1, offset }

def WireOrigin.ofSpan (span : Span) : WireOrigin := { kind := 2, span }

def WireOrigin.callSite (span : Span) : WireOrigin := { kind := 3, span }

/-- Unknown tags have no origin. -/
def WireOrigin.toOrigin? (o : WireOrigin) : Option Origin :=
  if o.kind = 1 then some (.start o.offset)
  else if o.kind = 2 then some (.span o.span)
  else if o.kind = 3 then some (.callSite o.span)
  else none

def WireMapping.toMapping? (m : WireMapping) : Option Mapping :=
  if m.span.isInverted then none
  else m.origin.toOrigin?.map fun origin => ⟨m.span, origin⟩

/-- The well-formed mappings in order, and how many there were besides. -/
def WireMapping.toMappings (ms : List WireMapping) : List Mapping × Nat :=
  let kept := ms.filterMap toMapping?
  (kept, ms.length - kept.length)

end Gen2

namespace Gen1

def Diagnostic.upgrade (d : Diagnostic) : Gen2.Diagnostic where
  message := d.message
  severity := if d.severity = Gen2.Diagnostic.warningLevel then Gen2.Diagnostic.warningLevel
    else Gen2.Diagnostic.errorLevel

/-- The whole text becomes one token; an empty text becomes no token at all. -/
def Stream.upgrade (s : Stream) : Gen2.Stream where
  tokens := if s.value = [] then none else some [⟨s.value, Span.of 0 s.value⟩]
  metadata := { path := s.metadata.path, fileId := s.metadata.fileId }

def Result.upgrade (r : Result) : Gen2.Result where
  stream := r.stream.upgrade
  diagnostics := match r.diagnostics.items with
    | [] => none
    | ds => some (ds.map Diagnostic.upgrade)

end Gen1

/-- Everything generated is mapped to the call site, for answers that report no mapping. -/
def Mapping.wholeOutput (generated : Text) (callSite : Span) : List Mapping :=
  [⟨Span.of 0 generated, .callSite callSite⟩]

abbrev CallSite := FileSpan

def CallSite.of (n : Node) : CallSite := n.pointer.span

/-- A diagnostic with a span that is not inverted points there, all others at the call site. -/
def Gen2.Diagnostic.toHost (callSite : CallSite) (d : Gen2.Diagnostic) : MacroRelay.Diagnostic :=
  let severity := Gen2.Diagnostic.hostSeverity d.severity
  { severity
    code := DiagnosticCode.ofMacro severity
    message := d.message
    primary := match d.span with
      | some span => if span.isInverted then callSite else ⟨callSite.file, span⟩
      | none => callSite }

end MacroRelay
