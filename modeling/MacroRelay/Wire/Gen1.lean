import MacroRelay.Wire.Place

/-!
# First generation

Token streams are plain text and answers carry no positions.
-/

namespace MacroRelay.Gen1

structure Metadata where
  path : Text := []
  fileId : Text := []
deriving DecidableEq, Inhabited

structure Stream where
  value : Text := []
  metadata : Metadata := {}
deriving DecidableEq, Inhabited

structure Diagnostic where
  message : Text := []
  severity : UInt8 := 0
deriving DecidableEq, Inhabited

structure AttributeRequest where
  context : Scope := {}
  attr : Text := []
  args : Stream := {}
  item : Stream := {}
deriving DecidableEq, Inhabited

structure DeriveRequest where
  context : Scope := {}
  derives : Sequence Text := none
  item : Stream := {}
deriving DecidableEq, Inhabited

structure InlineRequest where
  context : Scope := {}
  name : Text := []
  args : Stream := {}
deriving DecidableEq, Inhabited

structure Result where
  stream : Stream := {}
  diagnostics : Sequence Diagnostic := none
deriving DecidableEq, Inhabited

def Metadata.codec : Codec Metadata :=
  .record {} [
    .unlessZero "original_file_path" .text (·.path) (fun s t => { s with path := t }),
    .unlessZero "file_id" .text (·.fileId) (fun s t => { s with fileId := t })]

def Stream.codec : Codec Stream :=
  .record {} [
    .of "value" .text (·.value) (fun s t => { s with value := t }),
    .of "metadata" Metadata.codec (·.metadata) (fun s m => { s with metadata := m })]

def Diagnostic.codec : Codec Diagnostic :=
  .record {} [
    .of "message" .text (·.message) (fun s t => { s with message := t }),
    .of "severity" .word8 (·.severity) (fun s n => { s with severity := n })]

def AttributeRequest.codec : Codec AttributeRequest :=
  .record {} [
    .of "context" Scope.codec (·.context) (fun s c => { s with context := c }),
    .of "attr" .text (·.attr) (fun s t => { s with attr := t }),
    .of "args" Stream.codec (·.args) (fun s a => { s with args := a }),
    .of "item" Stream.codec (·.item) (fun s i => { s with item := i })]

def DeriveRequest.codec : Codec DeriveRequest :=
  .record {} [
    .of "context" Scope.codec (·.context) (fun s c => { s with context := c }),
    .of "derives" .texts (·.derives) (fun s ds => { s with derives := ds }),
    .of "item" Stream.codec (·.item) (fun s i => { s with item := i })]

def InlineRequest.codec : Codec InlineRequest :=
  .record {} [
    .of "context" Scope.codec (·.context) (fun s c => { s with context := c }),
    .of "name" .text (·.name) (fun s t => { s with name := t }),
    .of "args" Stream.codec (·.args) (fun s a => { s with args := a })]

def Result.codec : Codec Result :=
  .record {} [
    .of "token_stream" Stream.codec (·.stream) (fun s t => { s with stream := t }),
    .of "diagnostics" (.list Diagnostic.codec) (·.diagnostics)
      (fun s ds => { s with diagnostics := ds })]

end MacroRelay.Gen1
