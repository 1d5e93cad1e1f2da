import MacroRelay.Expansion.Request
import MacroRelay.Proofs.Expansion.Key

/-!
# Requests that can be sent

A query is a request under a fingerprint; caches go by its digest. A request fits when none of
its texts and lists is too long for the wire. Every request for source text does: files are
shorter than 2^32 bytes, and no token of a stream is empty.
-/

namespace MacroRelay

structure Query where
  generation : Generation
  expansion : Expansion
  fingerprint : Text

def Query.digest (q : Query) : Digest :=
  q.expansion.key.digest.combine [q.generation.name, q.fingerprint]

namespace Expansion

def streams : Expansion → List Gen2.Stream
  | .attribute r => [r.args, r.item]
  | .derive r => [r.item]
  | .inline r => [r.args]

/-- Every text and every list is shorter than 2^32, and so is the source text of every stream. -/
structure Fits (e : Expansion) : Prop where
  key : e.key.Fits
  streams : ∀ s ∈ e.streams, s.Fits

instance (s : Gen2.Stream) : Decidable s.Fits :=
  decidable_of_iff (s.tokens.items.length < 2 ^ 32 ∧
    (∀ t ∈ s.tokens.items, t.content.length < 2 ^ 32) ∧ s.metadata.path.length < 2 ^ 32 ∧
    s.metadata.fileId.length < 2 ^ 32 ∧ s.metadata.edition.length < 2 ^ 32)
    ⟨fun ⟨h₁, h₂, h₃, h₄, h₅⟩ => ⟨h₁, h₂, h₃, h₄, h₅⟩,
      fun ⟨h₁, h₂, h₃, h₄, h₅⟩ => ⟨h₁, h₂, h₃, h₄, h₅⟩⟩

instance (e : Expansion) : Decidable e.Fits :=
  decidable_of_iff (e.key.Fits ∧ ∀ s ∈ e.streams, s.Fits)
    ⟨fun ⟨h, h'⟩ => ⟨h, h'⟩, fun ⟨h, h'⟩ => ⟨h, h'⟩⟩

/-- The edition of the language that the source is written in. A plugin writes the same one into
all streams of a request. -/
def edition : Expansion → Text
  | .attribute r => r.item.metadata.edition
  | .derive r => r.item.metadata.edition
  | .inline r => r.args.metadata.edition

def withEdition (edition : Text) : Expansion → Expansion
  | .attribute r =>
    .attribute { r with args.metadata.edition := edition, item.metadata.edition := edition }
  | .derive r => .derive { r with item.metadata.edition := edition }
  | .inline r => .inline { r with args.metadata.edition := edition }

@[simp] theorem key_withEdition (e : Expansion) (edition : Text) :
    (e.withEdition edition).key = e.key := by
  cases e <;> rfl

@[simp] theorem edition_withEdition (e : Expansion) (edition : Text) :
    (e.withEdition edition).edition = edition := by
  cases e <;> rfl

theorem Fits.edition {e : Expansion} (h : e.Fits) : e.edition.length < 2 ^ 32 := by
  cases e with
  | «attribute» r => exact (h.streams r.item (by simp [Expansion.streams])).edition
  | «derive» r => exact (h.streams r.item (by simp [Expansion.streams])).edition
  | «inline» r => exact (h.streams r.args (by simp [Expansion.streams])).edition

theorem streams_withEdition (e : Expansion) (edition : Text) :
    (e.withEdition edition).streams =
      e.streams.map fun s => { s with metadata.edition := edition } := by
  cases e <;> rfl

theorem Fits.withEdition {e : Expansion} (h : e.Fits) {edition : Text}
    (hlen : edition.length < 2 ^ 32) : (e.withEdition edition).Fits := by
  refine ⟨by rw [key_withEdition]; exact h.key, fun s hs => ?_⟩
  rw [streams_withEdition] at hs
  obtain ⟨old, hold, rfl⟩ := List.mem_map.mp hs
  exact { h.streams old hold with edition := hlen }

end Expansion

theorem Gen2.AttributeRequest.codec_returns {r : Gen2.AttributeRequest}
    (h : (Expansion.attribute r).Fits) : Gen2.AttributeRequest.codec.Returns r r := by
  have hkey := h.key
  simp only [Key.Fits, Expansion.key, Key.texts, List.forall_mem_cons] at hkey
  obtain ⟨hcontext, hattr, -, -, -⟩ := hkey
  have hargs := h.streams r.args (by simp [Expansion.streams])
  have hitem := h.streams r.item (by simp [Expansion.streams])
  exact Codec.record_returns (by decide) (.of (Scope.codec_returns hcontext)
    (.of (Codec.text_returns hattr) (.of (Stream.codec_returns hargs)
      (.of (Stream.codec_returns hitem) (.of r.callSite.codec_returns .nil)))))

end MacroRelay
