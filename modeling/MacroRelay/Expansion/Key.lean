import MacroRelay.Text.Sha256
import MacroRelay.Wire.Gen2

/-!
# Plain keys

A request is flattened for caching: token streams are reduced to their text, so requests that
differ only in how tokens were split are the same, and every other field is kept. Derive
names keep their order. A digest covers the written form of the key behind a tag for its
shape, and is salted with what else an answer depends on.
-/

namespace MacroRelay

inductive Shape where
  | attribute
  | derive
  | inline
deriving DecidableEq, Inhabited

namespace Shape

def tag : Shape → UInt8
  | .attribute => 1
  | .derive => 2
  | .inline => 3

def ofTag? (n : Nat) : Option Shape :=
  [Shape.attribute, .derive, .inline].find? (·.tag.toNat == n)

def name : Shape → Text
  | .attribute => "attribute"
  | .derive => "derive"
  | .inline => "inline"

end Shape

structure AttributeKey where
  context : Scope := {}
  attr : Text := []
  args : Text := []
  item : Text := []
  callSite : Span := ⟨0, 0⟩
deriving DecidableEq, Inhabited

structure DeriveKey where
  context : Scope := {}
  /-- Absent when there are none. -/
  derives : Sequence Text := none
  item : Text := []
  callSite : Span := ⟨0, 0⟩
deriving DecidableEq, Inhabited

structure InlineKey where
  context : Scope := {}
  name : Text := []
  args : Text := []
  callSite : Span := ⟨0, 0⟩
deriving DecidableEq, Inhabited

def AttributeKey.codec : Codec AttributeKey :=
  .record {} [
    .of "context" Scope.codec (·.context) (fun s c => { s with context := c }),
    .of "attr" .text (·.attr) (fun s t => { s with attr := t }),
    .of "args" .text (·.args) (fun s t => { s with args := t }),
    .of "item" .text (·.item) (fun s t => { s with item := t }),
    .of "call_site" Span.codec (·.callSite) (fun s p => { s with callSite := p })]

def DeriveKey.codec : Codec DeriveKey :=
  .record {} [
    .of "context" Scope.codec (·.context) (fun s c => { s with context := c }),
    .of "derives" .texts (·.derives) (fun s ds => { s with derives := ds }),
    .of "item" .text (·.item) (fun s t => { s with item := t }),
    .of "call_site" Span.codec (·.callSite) (fun s p => { s with callSite := p })]

def InlineKey.codec : Codec InlineKey :=
  .record {} [
    .of "context" Scope.codec (·.context) (fun s c => { s with context := c }),
    .of "name" .text (·.name) (fun s t => { s with name := t }),
    .of "args" .text (·.args) (fun s t => { s with args := t }),
    .of "call_site" Span.codec (·.callSite) (fun s p => { s with callSite := p })]

def Gen2.AttributeRequest.key (r : Gen2.AttributeRequest) : AttributeKey :=
  ⟨r.context, r.attr, r.args.text, r.item.text, r.callSite⟩

def Gen2.DeriveRequest.key (r : Gen2.DeriveRequest) : DeriveKey :=
  ⟨r.context, if r.derives.items = [] then none else r.derives, r.item.text, r.callSite⟩

def Gen2.InlineRequest.key (r : Gen2.InlineRequest) : InlineKey :=
  ⟨r.context, r.name, r.args.text, r.callSite⟩

inductive Key where
  | attribute : AttributeKey → Key
  | derive : DeriveKey → Key
  | inline : InlineKey → Key
deriving DecidableEq, Inhabited

/-- Thirty-two bytes. -/
abbrev Digest := Text

/-- The bytes that are hashed to salt a digest: every part ends in a zero byte. -/
def Digest.salted (d : Digest) (extra : List Text) : Text :=
  d ++ extra.flatMap (· ++ [0])

def Digest.combine (d : Digest) (extra : List Text) : Digest :=
  Sha256.hash (d.salted extra)

namespace Key

def shape : Key → Shape
  | .attribute _ => .attribute
  | .derive _ => .derive
  | .inline _ => .inline

def written : Key → Text
  | .attribute k => AttributeKey.codec.write k
  | .derive k => DeriveKey.codec.write k
  | .inline k => InlineKey.codec.write k

def view : Key → Datum
  | .attribute k => AttributeKey.codec.view k
  | .derive k => DeriveKey.codec.view k
  | .inline k => InlineKey.codec.view k

/-- The bytes that are hashed: the tag of the shape and the written key. -/
def tagged (k : Key) : Text :=
  k.shape.tag :: k.written

def digest (k : Key) : Digest :=
  Sha256.hash k.tagged

def text (k : Key) : Text :=
  let line (what subject : Text) (context : Scope) (at_ : Span) : Text :=
    what ++ ":" ++ subject ++ "@" ++ context.component ++ "[" ++ Offset.text at_.start ++ ":" ++
      Offset.text at_.stop ++ "]"
  match k with
  | .attribute k => line "attr" k.attr k.context k.callSite
  | .derive k => line "derive" ("[" ++ Text.joined " " k.derives.items ++ "]") k.context k.callSite
  | .inline k => line "inline" k.name k.context k.callSite

end Key

end MacroRelay
