import MacroRelay.Wire.Place

/-!
# Second generation

Token streams are lists of tokens with their spans, answers carry code mappings, and a
diagnostic may point at a span of its own.
-/

namespace MacroRelay.Gen2

structure Metadata where
  path : Text := []
  fileId : Text := []
  edition : Text := []
deriving DecidableEq, Inhabited

structure StreamToken where
  content : Text := []
  span : Span := ⟨0, 0⟩
deriving DecidableEq, Inhabited

structure Stream where
  tokens : Sequence StreamToken := none
  metadata : Metadata := {}
deriving DecidableEq, Inhabited

namespace Stream

def text (s : Stream) : Text :=
  s.tokens.items.flatMap (·.content)

def isEmpty (s : Stream) : Bool :=
  s.tokens.items.all (·.content.isEmpty)

end Stream

structure Diagnostic where
  message : Text := []
  severity : UInt8 := 0
  span : Option Span := none
deriving DecidableEq, Inhabited

/-- A tag with the fields of all its cases: the offset belongs to a start origin, the span to
the others. -/
structure WireOrigin where
  kind : UInt8 := 0
  offset : UInt32 := 0
  span : Span := ⟨0, 0⟩
deriving DecidableEq, Inhabited

structure WireMapping where
  span : Span := ⟨0, 0⟩
  origin : WireOrigin := {}
deriving DecidableEq, Inhabited

structure AttributeRequest where
  context : Scope := {}
  attr : Text := []
  args : Stream := {}
  item : Stream := {}
  callSite : Span := ⟨0, 0⟩
deriving DecidableEq, Inhabited

structure DeriveRequest where
  context : Scope := {}
  derives : Sequence Text := none
  item : Stream := {}
  callSite : Span := ⟨0, 0⟩
deriving DecidableEq, Inhabited

structure InlineRequest where
  context : Scope := {}
  name : Text := []
  args : Stream := {}
  callSite : Span := ⟨0, 0⟩
deriving DecidableEq, Inhabited

/-- Without code mappings the server did not report any. -/
structure Result where
  stream : Stream := {}
  diagnostics : Sequence Diagnostic := none
  mappings : Sequence WireMapping := none
deriving DecidableEq, Inhabited

structure HandshakeRequest where
  clientVersion : Text := []
  protocols : Sequence UInt8 := none
deriving DecidableEq, Inhabited

structure HandshakeResult where
  serverVersion : Text := []
  /-- Changes whenever the set of loaded macro binaries changes. -/
  fingerprint : Text := []
deriving DecidableEq, Inhabited

structure CatalogueRequest where
deriving DecidableEq, Inhabited

structure PackageEntry where
  package : Text := []
  attributes : Sequence Text := none
  derives : Sequence Text := none
  inlineMacros : Sequence Text := none
  executables : Sequence Text := none
  protocol : UInt8 := 0
deriving DecidableEq, Inhabited

structure CatalogueResult where
  packages : Sequence PackageEntry := none
deriving DecidableEq, Inhabited

def Metadata.codec : Codec Metadata :=
  .record {} [
    .unlessZero "original_file_path" .text (·.path) (fun s t => { s with path := t }),
    .unlessZero "file_id" .text (·.fileId) (fun s t => { s with fileId := t }),
    .unlessZero "edition" .text (·.edition) (fun s t => { s with edition := t })]

def StreamToken.contentCodec : Codec StreamToken :=
  .record {} [
    .of "content" .text (·.content) (fun s t => { s with content := t }),
    .of "span" Span.codec (·.span) (fun s p => { s with span := p })]

/-- Each token stands alone in a record of its own. -/
def StreamToken.codec : Codec StreamToken :=
  .record {} [.of "ident" contentCodec id (fun _ t => t)]

def Stream.codec : Codec Stream :=
  .record {} [
    .of "tokens" (.list StreamToken.codec) (·.tokens) (fun s ts => { s with tokens := ts }),
    .of "metadata" Metadata.codec (·.metadata) (fun s m => { s with metadata := m })]

def Diagnostic.codec : Codec Diagnostic :=
  .record {} [
    .of "message" .text (·.message) (fun s t => { s with message := t }),
    .of "severity" .word8 (·.severity) (fun s n => { s with severity := n }),
    .unlessZero "span" (.optional Span.codec) (·.span) (fun s p => { s with span := p })]

def WireOrigin.codec : Codec WireOrigin :=
  .record {} [
    .of "kind" .word8 (·.kind) (fun s n => { s with kind := n }),
    .unlessZero "offset" .word32 (·.offset) (fun s n => { s with offset := n }),
    .of "span" Span.codec (·.span) (fun s p => { s with span := p })]

def WireMapping.codec : Codec WireMapping :=
  .record {} [
    .of "span" Span.codec (·.span) (fun s p => { s with span := p }),
    .of "origin" WireOrigin.codec (·.origin) (fun s o => { s with origin := o })]

def AttributeRequest.codec : Codec AttributeRequest :=
  .record {} [
    .of "context" Scope.codec (·.context) (fun s c => { s with context := c }),
    .of "attr" .text (·.attr) (fun s t => { s with attr := t }),
    .of "args" Stream.codec (·.args) (fun s a => { s with args := a }),
    .of "item" Stream.codec (·.item) (fun s i => { s with item := i }),
    .of "call_site" Span.codec (·.callSite) (fun s p => { s with callSite := p })]

def DeriveRequest.codec : Codec DeriveRequest :=
  .record {} [
    .of "context" Scope.codec (·.context) (fun s c => { s with context := c }),
    .of "derives" .texts (·.derives) (fun s ds => { s with derives := ds }),
    .of "item" Stream.codec (·.item) (fun s i => { s with item := i }),
    .of "call_site" Span.codec (·.callSite) (fun s p => { s with callSite := p })]

def InlineRequest.codec : Codec InlineRequest :=
  .record {} [
    .of "context" Scope.codec (·.context) (fun s c => { s with context := c }),
    .of "name" .text (·.name) (fun s t => { s with name := t }),
    .of "args" Stream.codec (·.args) (fun s a => { s with args := a }),
    .of "call_site" Span.codec (·.callSite) (fun s p => { s with callSite := p })]

def Result.codec : Codec Result :=
  .record {} [
    .of "token_stream" Stream.codec (·.stream) (fun s t => { s with stream := t }),
    .of "diagnostics" (.list Diagnostic.codec) (·.diagnostics)
      (fun s ds => { s with diagnostics := ds }),
    .unlessZero "code_mappings" (.list WireMapping.codec) (·.mappings)
      (fun s ms => { s with mappings := ms })]

def HandshakeRequest.codec : Codec HandshakeRequest :=
  .record {} [
    .of "client_version" .text (·.clientVersion) (fun s t => { s with clientVersion := t }),
    .of "protocols" .bytes (·.protocols) (fun s ps => { s with protocols := ps })]

def HandshakeResult.codec : Codec HandshakeResult :=
  .record {} [
    .of "server_version" .text (·.serverVersion) (fun s t => { s with serverVersion := t }),
    .of "fingerprint" .text (·.fingerprint) (fun s t => { s with fingerprint := t })]

def CatalogueRequest.codec : Codec CatalogueRequest :=
  .record {} []

def PackageEntry.codec : Codec PackageEntry :=
  .record {} [
    .of "package" .text (·.package) (fun s t => { s with package := t }),
    .of "attributes" .texts (·.attributes) (fun s ts => { s with attributes := ts }),
    .of "derives" .texts (·.derives) (fun s ts => { s with derives := ts }),
    .of "inline_macros" .texts (·.inlineMacros) (fun s ts => { s with inlineMacros := ts }),
    .of "executables" .texts (·.executables) (fun s ts => { s with executables := ts }),
    .of "protocol" .word8 (·.protocol) (fun s n => { s with protocol := n })]

def CatalogueResult.codec : Codec CatalogueResult :=
  .record {} [
    .of "macros" (.list PackageEntry.codec) (·.packages) (fun s ps => { s with packages := ps })]

end MacroRelay.Gen2
