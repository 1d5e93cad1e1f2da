import MacroRelay.Expansion.Key
import MacroRelay.Proofs.Wire.Messages
import MacroRelay.Wire.Generation

/-!
# Keys keep requests apart

The bytes that are hashed for a key determine the key, and the bytes that are hashed for its
salted digest determine digest, generation and fingerprint. So two salted digests are equal
only for the same key, generation and fingerprint, as far as the hash itself does not collide
on the bytes it is given. The hash enters only through `Sha256.Separates`; nothing is assumed
of it on other bytes.

Texts have to be shorter than 2^32 bytes: the size of a longer one is not written in full.
Nothing is asked of the number of derive names.
-/

namespace MacroRelay

open Codec MacroRelay.Field

/-- The hash tells two texts apart unless they are the same. -/
def Sha256.Separates (s t : Text) : Prop := hash s = hash t → s = t

theorem Sha256.length_hash (t : Text) : (hash t).length = 32 := rfl

def Key.texts : Key → List Text
  | .attribute k => [k.context.component, k.attr, k.args, k.item]
  | .derive k => [k.context.component, k.item] ++ k.derives.items
  | .inline k => [k.context.component, k.name, k.args]

/-- Every text of the key is shorter than 2^32 bytes. -/
def Key.Fits (k : Key) : Prop := ∀ t ∈ k.texts, t.length < 2 ^ 32

instance (k : Key) : Decidable k.Fits := by unfold Key.Fits; infer_instance

-- ---------------------------------------------------------------------------
-- The written key
-- ---------------------------------------------------------------------------

theorem AttributeKey.codec_returns {k : AttributeKey} (h : (Key.attribute k).Fits) :
    AttributeKey.codec.Returns k k := by
  simp only [Key.Fits, Key.texts, List.forall_mem_cons] at h
  obtain ⟨hcontext, hattr, hargs, hitem, -⟩ := h
  exact record_returns (by decide) (.of (Scope.codec_returns hcontext) (.of (text_returns hattr)
    (.of (text_returns hargs) (.of (text_returns hitem) (.of k.callSite.codec_returns .nil)))))

theorem InlineKey.codec_returns {k : InlineKey} (h : (Key.inline k).Fits) :
    InlineKey.codec.Returns k k := by
  simp only [Key.Fits, Key.texts, List.forall_mem_cons] at h
  obtain ⟨hcontext, hname, hargs, -⟩ := h
  exact record_returns (by decide) (.of (Scope.codec_returns hcontext) (.of (text_returns hname)
    (.of (text_returns hargs) (.of k.callSite.codec_returns .nil))))

namespace DeriveKey

/-- What is written of a derive key behind the number of its names: texts only, up to the call
site. -/
def rest (names : List Text) (item : Text) (site : Span) : Text :=
  (names ++ [Text.ofString "item", item, Text.ofString "call_site"]).flatMap Pack.writeText ++
    Span.codec.write site

/-- The call site is no text, so it shows where the texts end. -/
theorem rest_inj {names names' : List Text} {item item' : Text} {site site' : Span}
    (hn : ∀ t ∈ names, t.length < 2 ^ 32) (hn' : ∀ t ∈ names', t.length < 2 ^ 32)
    (hi : item.length < 2 ^ 32) (hi' : item'.length < 2 ^ 32)
    (h : rest names item site = rest names' item' site') :
    names = names' ∧ item = item' ∧ site = site' := by
  have hfit {ns : List Text} {i : Text} (hns : ∀ t ∈ ns, t.length < 2 ^ 32)
      (hi : i.length < 2 ^ 32) :
      ∀ t ∈ ns ++ [Text.ofString "item", i, Text.ofString "call_site"], t.length < 2 ^ 32 := by
    simp only [List.forall_mem_append, List.forall_mem_cons]
    exact ⟨hns, by decide, hi, by decide, by simp⟩
  obtain ⟨htexts, hsite⟩ := Pack.texts_append_inj (hfit hn hi) (hfit hn' hi')
    (Pack.readText_map_head _) (Pack.readText_map_head _) h
  obtain ⟨hnames, htail⟩ := List.append_inj' htexts rfl
  simp only [List.cons.injEq, true_and, and_true] at htail
  exact ⟨hnames, htail, (Span.codec_returns site).write_inj (Span.codec_returns site') hsite⟩

theorem write_eq (k : DeriveKey) :
    DeriveKey.codec.write k =
    (Pack.Family.map.write 4 ++ Pack.writeText "context") ++ (Scope.codec.write k.context ++
      (Pack.writeText "derives" ++ (match k.derives with
        | none => [Pack.nil] ++ rest [] k.item k.callSite
        | some names =>
          Pack.Family.array.write names.length ++ rest names k.item k.callSite))) := by
  obtain ⟨context, derives, item, site⟩ := k
  cases derives <;>
    simp [DeriveKey.codec, record, Field.of, texts, list, writeAll, text, rest]

/-- Names are not counted here, since a count beyond four bytes is not written in full. -/
theorem write_inj {k k' : DeriveKey} (h : (Key.derive k).Fits) (h' : (Key.derive k').Fits)
    (heq : DeriveKey.codec.write k = DeriveKey.codec.write k') : k = k' := by
  simp only [Key.Fits, Key.texts, List.forall_mem_append, List.forall_mem_cons] at h h'
  obtain ⟨⟨hcontext, hitem, -⟩, hnames⟩ := h
  obtain ⟨⟨hcontext', hitem', -⟩, hnames'⟩ := h'
  rw [write_eq, write_eq] at heq
  obtain ⟨hc, heq⟩ := (Scope.codec_returns hcontext).append_inj (Scope.codec_returns hcontext')
    (List.append_cancel_left heq)
  replace heq := List.append_cancel_left heq
  obtain ⟨context, derives, item, site⟩ := k
  obtain ⟨context', derives', item', site'⟩ := k'
  obtain ⟨code, tail, hhead, hnil⟩ :=
    Pack.Family.write_head_ne_nil Pack.Family.array_sound derives.items.length
  obtain ⟨code', tail', hhead', hnil'⟩ :=
    Pack.Family.write_head_ne_nil Pack.Family.array_sound derives'.items.length
  cases derives with
  | none =>
    cases derives' with
    | none =>
      obtain ⟨-, hi, hs⟩ := rest_inj (by simp) (by simp) hitem hitem' (List.append_cancel_left heq)
      simp_all
    | some names' =>
      simp only [Sequence.items, Option.getD_some] at hhead'
      simp only [hhead', List.cons_append, List.cons.injEq] at heq
      exact absurd heq.1.symm hnil'
  | some names =>
    cases derives' with
    | none =>
      simp only [Sequence.items, Option.getD_some] at hhead
      simp only [hhead, List.cons_append, List.cons.injEq] at heq
      exact absurd heq.1 hnil
    | some names' =>
      obtain ⟨-, heq⟩ := Pack.Family.write_append_inj Pack.Family.array_sound heq
      simp only [Sequence.items, Option.getD_some] at hnames hnames'
      obtain ⟨hn, hi, hs⟩ := rest_inj hnames hnames' hitem hitem' heq
      simp_all

end DeriveKey

theorem Key.tagged_inj {k k' : Key} (h : k.Fits) (h' : k'.Fits) (heq : k.tagged = k'.tagged) :
    k = k' := by
  simp only [Key.tagged, List.cons.injEq] at heq
  obtain ⟨htag, heq⟩ := heq
  -- keys of two shapes have different tags
  match k, k' with
  | .attribute k, .attribute k' =>
    rw [(AttributeKey.codec_returns h).write_inj (AttributeKey.codec_returns h') heq]
  | .derive k, .derive k' => rw [DeriveKey.write_inj h h' heq]
  | .inline k, .inline k' =>
    rw [(InlineKey.codec_returns h).write_inj (InlineKey.codec_returns h') heq]
  | .attribute _, .derive _ | .attribute _, .inline _ | .derive _, .attribute _
  | .derive _, .inline _ | .inline _, .attribute _ | .inline _, .derive _ => cases htag

-- ---------------------------------------------------------------------------
-- The salted digest
-- ---------------------------------------------------------------------------

theorem Generation.name_inj {g g' : Generation} (h : g.name = g'.name) : g = g' := by
  cases g <;> cases g' <;> first | rfl | cases h

theorem Generation.length_name (g : Generation) : g.name.length = 2 := by
  cases g <;> rfl

/-- Digest and generation take a fixed number of bytes and one zero byte ends the fingerprint, so
zero bytes inside the fingerprint do no harm. -/
theorem Digest.salted_inj {d d' : Digest} {g g' : Generation} {f f' : Text}
    (hd : d.length = d'.length) (h : d.salted [g.name, f] = d'.salted [g'.name, f']) :
    d = d' ∧ g = g' ∧ f = f' := by
  obtain ⟨hdigest, hparts⟩ := List.append_inj h hd
  simp only [List.flatMap_cons, List.flatMap_nil, List.append_nil, List.append_assoc] at hparts
  obtain ⟨hname, hrest⟩ := List.append_inj hparts (by rw [g.length_name, g'.length_name])
  have hf := List.append_cancel_right (List.append_cancel_left hrest)
  exact ⟨hdigest, Generation.name_inj hname, hf⟩

namespace Key

/-- A key, a generation and a fingerprint can be told from the salted digest. -/
theorem combine_digest_inj {k₁ k₂ : Key} {g₁ g₂ : Generation} {f₁ f₂ : Text}
    (h₁ : k₁.Fits) (h₂ : k₂.Fits) (htag : Sha256.Separates k₁.tagged k₂.tagged)
    (hsalt : Sha256.Separates (k₁.digest.salted [g₁.name, f₁]) (k₂.digest.salted [g₂.name, f₂]))
    (h : k₁.digest.combine [g₁.name, f₁] = k₂.digest.combine [g₂.name, f₂]) :
    g₁ = g₂ ∧ f₁ = f₂ ∧ k₁.shape = k₂.shape ∧ k₁ = k₂ := by
  have hlength : k₁.digest.length = k₂.digest.length := by
    rw [digest, digest, Sha256.length_hash, Sha256.length_hash]
  obtain ⟨hdigest, hg, hf⟩ := Digest.salted_inj hlength (hsalt h)
  have hk := tagged_inj h₁ h₂ (htag hdigest)
  exact ⟨hg, hf, congrArg shape hk, hk⟩

/-- Two requests that split their item differently, one with no list of names and one with an
empty list, under a fingerprint with a zero byte inside. -/
theorem combine_digest_inj_resplit :
    let whole : Gen2.DeriveRequest := { item := { tokens := some [⟨"ab", ⟨0, 2⟩⟩] } }
    let split : Gen2.DeriveRequest :=
      { derives := some [], item := { tokens := some [⟨"a", ⟨0, 1⟩⟩, ⟨"b", ⟨1, 2⟩⟩] } }
    whole ≠ split ∧ (Key.derive whole.key).Fits ∧ Key.derive whole.key = Key.derive split.key := by
  intro whole split
  have hfits : (Key.derive whole.key).Fits := by decide
  have hkey : Key.derive whole.key = Key.derive split.key := by decide
  have hcombine : (Key.derive whole.key).digest.combine [Generation.second.name, [1, 0, 2]] =
      (Key.derive split.key).digest.combine [Generation.second.name, [1, 0, 2]] := by rw [hkey]
  obtain ⟨-, -, -, h⟩ := combine_digest_inj hfits (hkey ▸ hfits) (fun _ => congrArg tagged hkey)
    (fun _ => by rw [hkey]) hcombine
  exact ⟨by decide, hfits, h⟩

end Key

end MacroRelay
