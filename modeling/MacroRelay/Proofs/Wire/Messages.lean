import MacroRelay.Proofs.Wire.RoundTrip
import MacroRelay.Wire.Gen1
import MacroRelay.Wire.Gen2

/-!
# What comes back of a message

Every message comes back as it was, with one exception: an answer that holds an empty list of
mappings leaves the list out, and comes back without one.
-/

namespace MacroRelay

instance (fields : List (Field σ)) : Decidable (Codec.FieldNames fields) := by
  unfold Codec.FieldNames
  infer_instance

open Codec MacroRelay.Field

theorem Scope.codec_returns {s : Scope} (h : s.component.length < 2 ^ 32) :
    Scope.codec.Returns s s :=
  record_returns (by decide) (.of (text_returns h) .nil)

theorem Span.codec_carry (p : Span) : Carry p
    [.of "start" .word32 (·.start) (fun s n => { s with start := n }),
      .of "end" .word32 (·.stop) (fun s n => { s with stop := n })] ⟨0, 0⟩ p :=
  .of (word32_returns p.start) (.of (word32_returns p.stop) .nil)

theorem Span.codec_returns (p : Span) : Span.codec.Returns p p :=
  record_returns (by decide) p.codec_carry

theorem Span.optional_returns (p : Option Span) : (optional Span.codec).Returns p p := by
  cases p with
  | none => exact optional_returns_none _
  | some p => exact optional_record_returns (by decide) p.codec_carry

theorem Field.Carry.text_unlessZero {get : σ → Text} {set : σ → Text → σ} {v a b : σ}
    (h : (get v).length < 2 ^ 32) (hz : set a [] = a) (hr : Carry v rest (set a (get v)) b) :
    Carry v (Field.unlessZero label .text get set :: rest) a b := by
  refine .unlessZero_self (text_returns h) (fun h0 => ?_) hr
  rw [List.isEmpty_iff.mp h0, hz]

namespace Gen2

theorem Metadata.codec_returns {m : Metadata} (hp : m.path.length < 2 ^ 32)
    (hf : m.fileId.length < 2 ^ 32) (he : m.edition.length < 2 ^ 32) : Metadata.codec.Returns m m :=
  record_returns (by decide) (.text_unlessZero hp rfl (.text_unlessZero hf rfl
    (.text_unlessZero he rfl .nil)))

theorem StreamToken.codec_returns {t : StreamToken} (h : t.content.length < 2 ^ 32) :
    StreamToken.codec.Returns t t := by
  have hc : contentCodec.Returns t t :=
    record_returns (by decide) (.of (text_returns h) (.of t.span.codec_returns .nil))
  exact record_returns (by decide) (.of hc .nil)

theorem Diagnostic.codec_returns {d : Diagnostic} (h : d.message.length < 2 ^ 32) :
    Diagnostic.codec.Returns d d := by
  refine record_returns (by decide) (.of (text_returns h) (.of (word8_returns d.severity)
    (.unlessZero_self (Span.optional_returns d.span) (fun h0 => ?_) .nil)))
  rw [Option.isNone_iff_eq_none.mp h0]

theorem WireOrigin.codec_returns (o : WireOrigin) : WireOrigin.codec.Returns o o := by
  refine record_returns (by decide) (.of (word8_returns o.kind)
    (.unlessZero_self (word32_returns o.offset) (fun h0 => ?_) (.of o.span.codec_returns .nil)))
  have h : o.offset = 0 := UInt32.toNat_inj.mp (beq_iff_eq.mp h0)
  rw [h]

theorem WireMapping.codec_returns (m : WireMapping) : WireMapping.codec.Returns m m :=
  record_returns (by decide) (.of m.span.codec_returns (.of m.origin.codec_returns .nil))

structure Stream.Fits (s : Stream) : Prop where
  tokens : s.tokens.items.length < 2 ^ 32
  contents : ∀ t ∈ s.tokens.items, t.content.length < 2 ^ 32
  path : s.metadata.path.length < 2 ^ 32
  fileId : s.metadata.fileId.length < 2 ^ 32
  edition : s.metadata.edition.length < 2 ^ 32

theorem Stream.codec_returns {s : Stream} (h : s.Fits) : Stream.codec.Returns s s :=
  record_returns (by decide)
    (.of (list_returns_self h.tokens fun t ht => StreamToken.codec_returns (h.contents t ht))
      (.of (Metadata.codec_returns h.path h.fileId h.edition) .nil))

/-- Every text and every list in an answer is shorter than 2^32. -/
structure Result.Fits (r : Result) : Prop where
  stream : r.stream.Fits
  diagnostics : r.diagnostics.items.length < 2 ^ 32
  messages : ∀ d ∈ r.diagnostics.items, d.message.length < 2 ^ 32
  mappings : r.mappings.items.length < 2 ^ 32

/-- The same answer, but for lists that are absent in one and empty in the other. -/
structure Result.Alike (r r' : Result) : Prop where
  tokens : r.stream.tokens.items = r'.stream.tokens.items
  metadata : r.stream.metadata = r'.stream.metadata
  diagnostics : r.diagnostics.items = r'.diagnostics.items
  mappings : r.mappings.items = r'.mappings.items

theorem Result.Alike.refl (r : Result) : r.Alike r := ⟨rfl, rfl, rfl, rfl⟩

theorem Result.Alike.symm (h : Alike r r') : Alike r' r :=
  ⟨h.tokens.symm, h.metadata.symm, h.diagnostics.symm, h.mappings.symm⟩

theorem Result.Alike.trans (h : Alike r r') (h' : Alike r' r'') : Alike r r'' :=
  ⟨h.tokens.trans h'.tokens, h.metadata.trans h'.metadata, h.diagnostics.trans h'.diagnostics,
    h.mappings.trans h'.mappings⟩

/-- What comes back of an answer: no list of mappings in place of an empty one. -/
def Result.returned (r : Result) : Result :=
  { r with mappings := if r.mappings.items.isEmpty then none else r.mappings }

theorem Result.returned_alike (r : Result) : r.returned.Alike r := by
  refine ⟨rfl, rfl, rfl, ?_⟩
  unfold returned
  split
  · rename_i h
    exact (List.isEmpty_iff.mp h).symm
  · rfl

theorem Result.codec_returns {r : Result} (h : r.Fits) : Result.codec.Returns r r.returned := by
  refine record_returns (by decide) (.of (Stream.codec_returns h.stream)
    (.of (list_returns_self h.diagnostics fun d hd => Diagnostic.codec_returns (h.messages d hd))
      (.unlessZero (fun _ => list_returns_self h.mappings fun m _ => m.codec_returns) ?_)))
  show Carry r [] _ r.returned
  unfold returned
  cases hz : r.mappings.items.isEmpty with
  | true => simp only [Codec.list, hz]; exact .nil
  | false => simp only [Codec.list, hz]; exact .nil

end Gen2

namespace Gen1

structure Stream.Fits (s : Stream) : Prop where
  value : s.value.length < 2 ^ 32
  path : s.metadata.path.length < 2 ^ 32
  fileId : s.metadata.fileId.length < 2 ^ 32

structure Result.Fits (r : Result) : Prop where
  stream : r.stream.Fits
  diagnostics : r.diagnostics.items.length < 2 ^ 32
  messages : ∀ d ∈ r.diagnostics.items, d.message.length < 2 ^ 32

end Gen1

end MacroRelay
