import MacroRelay.Expansion.Request
import MacroRelay.Proofs.Wire.Messages

/-!
# What is read is small

A size on the wire takes four bytes at most, so no text and no list that is read has 2^32
elements or more, whatever a server sends and however often it repeats an entry. An answer
that was read can therefore be written again without loss.
-/

namespace MacroRelay

/-- Every text and every list inside is shorter than 2^32. -/
inductive Datum.Small : Datum → Prop
  | absent : Small .absent
  | number : Small (.number n)
  | text : t.length < 2 ^ 32 → Small (.text t)
  | raw : Small (.raw t)
  | list : ds.length < 2 ^ 32 → (∀ d ∈ ds, Small d) → Small (.list ds)
  | record : (∀ p ∈ es, Small p.2) → Small (.record es)

/-- Also what was pushed out of a list is small, since it may be read onto again. -/
inductive Draft.Small : Draft → Prop
  | leaf : d.Small → Small (.leaf d)
  | list : ds.length < 2 ^ 32 → (∀ d ∈ ds, Small d) → (∀ d ∈ spare, Small d) →
      Small (.list ds spare)
  | record : (∀ p ∈ es, Small p.2) → Small (.record es)

namespace Draft

theorem Small.blank : Small .blank := .leaf .absent

theorem Small.places {d : Draft} (h : d.Small) : ∀ p ∈ d.places, p.Small := by
  cases h with
  | list _ hitems hspare => simpa [Draft.places, or_imp, forall_and] using ⟨hitems, hspare⟩
  | _ => simp [Draft.places]

theorem Small.entries {d : Draft} (h : d.Small) : ∀ p ∈ d.entries, p.2.Small := by
  cases h with
  | record hes => exact hes
  | _ => simp [Draft.entries]

theorem Small.field {d : Draft} (h : d.Small) (name : Text) : (d.field name).Small := by
  cases hl : d.entries.lookup name with
  | none => simpa [Draft.field, hl] using Small.blank
  | some part =>
    obtain ⟨l, r, heq, -⟩ := List.lookup_eq_some_iff.mp hl
    simpa [Draft.field, hl] using h.entries (name, part) (by simp [heq])

theorem Small.withField {d part : Draft} (h : d.Small) (hp : part.Small) (name : Text) :
    (d.withField name part).Small := by
  refine .record fun p hm => ?_
  rcases List.mem_cons.mp hm with rfl | hm
  · exact hp
  · exact h.entries p (List.mem_filter.mp hm).1

theorem fieldData_eq_map (es : List (Text × Draft)) :
    fieldData es = es.map fun p => (p.1, p.2.datum) := by
  induction es with
  | nil => rfl
  | cons e es ih => simp [fieldData, ih]

theorem Small.datum {d : Draft} (h : d.Small) : d.datum.Small := by
  induction h with
  | leaf h => exact h
  | list hlen _ _ ih _ =>
    rw [Draft.datum, Codec.datums_eq_map]
    refine .list (by simpa using hlen) fun d hd => ?_
    obtain ⟨x, hx, rfl⟩ := List.mem_map.mp hd
    exact ih x hx
  | record _ ih =>
    rw [Draft.datum, fieldData_eq_map]
    refine .record fun p hp => ?_
    obtain ⟨x, hx, rfl⟩ := List.mem_map.mp hp
    exact ih x hx

end Draft

-- ---------------------------------------------------------------------------
-- Reading
-- ---------------------------------------------------------------------------

/-- Reading onto something small makes something small. -/
def Pack.KeepsSmall (read : Draft → Text → Pack.Reading Draft) : Prop :=
  ∀ ⦃d t d' rest⦄, d.Small → read d t = .ok (d', rest) → d'.Small

namespace Codec

theorem text_keepsSmall : Pack.KeepsSmall text.read := by
  intro d t d' rest _ h
  obtain ⟨⟨t, left⟩, hr, h⟩ := Pack.map_ok.mp h
  cases h
  exact .leaf (.text (Pack.readText_lt hr))

theorem word_keepsSmall {code : UInt8} {size : Nat} {toNat : α → Nat} {ofNat : Nat → α} :
    Pack.KeepsSmall (word code size toNat ofNat).read := by
  intro d t d' rest _ h
  obtain ⟨⟨n, left⟩, -, h⟩ := Pack.map_ok.mp h
  cases h
  exact .leaf .number

theorem readAll_small {c : Codec α} (hc : Pack.KeepsSmall c.read) {n : Nat}
    {places done : List Draft} {t rest : Text} {d : Draft} (hlen : done.length + n < 2 ^ 32)
    (hp : ∀ p ∈ places, p.Small) (hd : ∀ p ∈ done, p.Small)
    (h : c.readAll n places done t = .ok (d, rest)) : d.Small := by
  fun_induction readAll c n places done t with
  | case1 places done t =>
    cases h
    exact .list (by simpa using hlen) (by simpa using hd) hp
  | case2 n places done t part left hr ih =>
    have hplace : (places.head?.getD .blank).Small := by
      cases places with
      | nil => exact .blank
      | cons p places => exact hp p List.mem_cons_self
    refine ih (by simp only [List.length_cons]; omega)
      (fun p hm => hp p (List.mem_of_mem_tail hm)) ?_ h
    intro p hm
    rcases List.mem_cons.mp hm with rfl | hm
    · exact hc hplace hr
    · exact hd p hm
  | case3 => cases h

theorem list_keepsSmall {c : Codec α} (hc : Pack.KeepsSmall c.read) :
    Pack.KeepsSmall (list c).read := by
  intro d t d' rest hd h
  simp only [list] at h
  split at h
  · rename_i n left hn
    have hlen := Pack.readCount_lt Pack.Family.array_sound hn
    exact readAll_small hc (by simpa using hlen) hd.places (by simp) h
  · cases h
    exact .blank
  · cases h

theorem optional_keepsSmall {c : Codec α} (hc : Pack.KeepsSmall c.read) :
    Pack.KeepsSmall (optional c).read := by
  intro d t d' rest hd h
  cases t with
  | nil => cases h
  | cons code t =>
    simp only [optional] at h
    split at h
    · cases h
      exact .blank
    · exact hc hd h

end Codec

namespace Field

theorem readInto_small {f : Field σ} (hf : Pack.KeepsSmall f.read) :
    Pack.KeepsSmall f.readInto := by
  intro d t d' rest hd h
  obtain ⟨⟨part, left⟩, hr, h⟩ := Pack.map_ok.mp h
  cases h
  exact hd.withField (hf (hd.field f.name) hr) f.name

theorem readEntries_small {fields : List (Field σ)} (hf : ∀ f ∈ fields, Pack.KeepsSmall f.read)
    (n : Nat) : Pack.KeepsSmall (readEntries fields n) := by
  intro d t d' rest hd h
  fun_induction readEntries fields n d t with
  | case1 => cases h; exact hd
  | case2 => cases h
  | case3 n d t name left hname field hfind d1 left1 hr ih =>
    exact ih (readInto_small (hf field (List.mem_of_find?_eq_some hfind)) hd hr) h
  | case4 => cases h
  | case5 n d t name left hname hfind left1 hskip ih => exact ih hd h
  | case6 => cases h

theorem readInOrder_small {fields : List (Field σ)} (hf : ∀ f ∈ fields, Pack.KeepsSmall f.read) :
    Pack.KeepsSmall (readInOrder fields) := by
  intro d t d' rest hd h
  fun_induction readInOrder fields d t with
  | case1 => cases h; exact hd
  | case2 field fields d t d1 left hr ih =>
    exact ih (fun f hm => hf f (List.mem_cons_of_mem _ hm))
      (readInto_small (hf field List.mem_cons_self) hd hr) h
  | case3 => cases h

end Field

namespace Codec

theorem record_keepsSmall {zero : σ} {fields : List (Field σ)}
    (hf : ∀ f ∈ fields, Pack.KeepsSmall f.read) : Pack.KeepsSmall (record zero fields).read := by
  intro d t d' rest hd h
  have hentries : (Draft.record d.entries).Small := .record hd.entries
  have hnone : (Draft.record []).Small := .record (by simp)
  simp only [record] at h
  split at h
  · exact Field.readEntries_small hf _ hentries h
  · cases h
    exact hnone
  · split at h
    · split at h
      · cases h
        exact hnone
      · split at h
        · exact Field.readInOrder_small hf hentries h
        · cases h
    · cases h
    · cases h

-- ---------------------------------------------------------------------------
-- Values
-- ---------------------------------------------------------------------------

/-- What is small is taken for a value with the property. -/
def Gives (c : Codec α) (P : α → Prop) : Prop :=
  ∀ d : Datum, d.Small → P (c.ofView d)

theorem text_gives : text.Gives (·.length < 2 ^ 32) := by
  intro d hd
  cases hd with
  | text h => exact h
  | _ => exact (by decide : ([] : Text).length < 2 ^ 32)

theorem list_gives {c : Codec α} {P : α → Prop} (hc : c.Gives P) :
    (list c).Gives fun xs => xs.items.length < 2 ^ 32 ∧ ∀ x ∈ xs.items, P x := by
  intro d hd
  cases hd with
  | list hlen hds =>
    refine ⟨by simpa [list, Sequence.items] using hlen, fun x hx => ?_⟩
    obtain ⟨d, hd, rfl⟩ := List.mem_map.mp hx
    exact hc d (hds d hd)
  | _ => exact ⟨Nat.two_pow_pos 32, fun _ h => absurd h List.not_mem_nil⟩

theorem record_gives {zero : σ} {fields : List (Field σ)} {P : σ → Prop} (h0 : P zero)
    (hf : ∀ f ∈ fields, ∀ s (d : Datum), P s → d.Small → P (f.adopt s d)) :
    (record zero fields).Gives P := by
  intro d hd
  cases hd with
  | @record es hes =>
    show P (fields.foldl (Field.adoptFrom es) zero)
    refine List.foldlRecOn (motive := P) _ _ h0 fun s hs f hm => ?_
    unfold Field.adoptFrom
    split
    · rename_i d hl
      obtain ⟨l, r, heq, -⟩ := List.lookup_eq_some_iff.mp hl
      exact hf f hm s d hs (hes (f.name, d) (by simp [heq]))
    · exact hs
  | _ => exact h0

theorem Gives.decode {c : Codec α} {P : α → Prop} (hc : Pack.KeepsSmall c.read) (hP : c.Gives P)
    {t : Text} (h : c.decode? t = some a) : P a := by
  simp only [decode?, readValue, Option.map_eq_some_iff] at h
  obtain ⟨⟨b, rest⟩, h, rfl⟩ := h
  cases hr : c.read .blank t with
  | error fault => simp [hr, Except.map, Except.toOption] at h
  | ok read =>
    obtain ⟨d, left⟩ := read
    simp only [hr, Except.map, Except.toOption, Option.some.injEq, Prod.mk.injEq] at h
    obtain ⟨rfl, -⟩ := h
    exact hP _ (hc .blank hr).datum

end Codec

-- ---------------------------------------------------------------------------
-- Answers
-- ---------------------------------------------------------------------------

open Codec

theorem Span.keepsSmall : Pack.KeepsSmall Span.codec.read :=
  record_keepsSmall (by simp [Field.of, word32, word_keepsSmall])

namespace Gen2

theorem Stream.keepsSmall : Pack.KeepsSmall Stream.codec.read := by
  have hcontent : Pack.KeepsSmall StreamToken.contentCodec.read :=
    record_keepsSmall (by simp [Field.of, text_keepsSmall, Span.keepsSmall])
  have htoken : Pack.KeepsSmall StreamToken.codec.read :=
    record_keepsSmall (by simp [Field.of, hcontent])
  have hmetadata : Pack.KeepsSmall Metadata.codec.read :=
    record_keepsSmall (by simp [Field.unlessZero, Field.of, text_keepsSmall])
  exact record_keepsSmall (by simp [Field.of, list_keepsSmall htoken, hmetadata])

theorem Result.keepsSmall : Pack.KeepsSmall Result.codec.read := by
  have hdiagnostic : Pack.KeepsSmall Diagnostic.codec.read :=
    record_keepsSmall (by simp [Field.unlessZero, Field.of, text_keepsSmall, word8, word_keepsSmall,
      optional_keepsSmall Span.keepsSmall])
  have horigin : Pack.KeepsSmall WireOrigin.codec.read :=
    record_keepsSmall (by simp [Field.unlessZero, Field.of, word8, word32, word_keepsSmall,
      Span.keepsSmall])
  have hmapping : Pack.KeepsSmall WireMapping.codec.read :=
    record_keepsSmall (by simp [Field.of, Span.keepsSmall, horigin])
  exact record_keepsSmall (by simp [Field.unlessZero, Field.of, Stream.keepsSmall,
    list_keepsSmall hdiagnostic, list_keepsSmall hmapping])

theorem StreamToken.gives : StreamToken.codec.Gives (·.content.length < 2 ^ 32) := by
  have hcontent : StreamToken.contentCodec.Gives (·.content.length < 2 ^ 32) := by
    refine record_gives (by decide) ?_
    simp only [List.forall_mem_cons]
    exact ⟨fun _ d _ hd => text_gives d hd, fun _ _ hs _ => hs, by simp⟩
  refine record_gives (by decide) ?_
  simp only [List.forall_mem_cons]
  exact ⟨fun _ d _ hd => hcontent d hd, by simp⟩

theorem Metadata.gives : Metadata.codec.Gives fun m =>
    m.path.length < 2 ^ 32 ∧ m.fileId.length < 2 ^ 32 ∧ m.edition.length < 2 ^ 32 := by
  refine record_gives (by decide) ?_
  simp only [List.forall_mem_cons]
  exact ⟨fun _ d hs hd => ⟨text_gives d hd, hs.2⟩, fun _ d hs hd => ⟨hs.1, text_gives d hd, hs.2.2⟩,
    fun _ d hs hd => ⟨hs.1, hs.2.1, text_gives d hd⟩, by simp⟩

theorem Stream.Fits.empty : Stream.Fits {} :=
  ⟨by decide, by simp [Sequence.items], by decide, by decide, by decide⟩

theorem Stream.gives : Stream.codec.Gives Stream.Fits := by
  refine record_gives .empty ?_
  simp only [List.forall_mem_cons]
  refine ⟨fun s d hs hd => ?_, fun s d hs hd => ?_, by simp⟩
  · obtain ⟨hlen, hcontents⟩ := list_gives StreamToken.gives d hd
    exact { hs with tokens := hlen, contents := hcontents }
  · obtain ⟨hpath, hfile, hedition⟩ := Metadata.gives d hd
    exact { hs with path := hpath, fileId := hfile, edition := hedition }

theorem Diagnostic.gives : Diagnostic.codec.Gives (·.message.length < 2 ^ 32) := by
  refine record_gives (by decide) ?_
  simp only [List.forall_mem_cons]
  exact ⟨fun _ d _ hd => text_gives d hd, fun _ _ hs _ => hs, fun _ _ hs _ => hs, by simp⟩

theorem Result.Fits.empty : Result.Fits {} :=
  ⟨.empty, by decide, by simp [Sequence.items], by decide⟩

theorem Result.gives : Result.codec.Gives Result.Fits := by
  refine record_gives .empty ?_
  simp only [List.forall_mem_cons]
  refine ⟨fun s d hs hd => ?_, fun s d hs hd => ?_, fun s d hs hd => ?_, by simp⟩
  · exact { hs with stream := Stream.gives d hd }
  · obtain ⟨hlen, hmessages⟩ := list_gives Diagnostic.gives d hd
    exact { hs with diagnostics := hlen, messages := hmessages }
  · exact { hs with mappings := (list_gives (P := fun _ => True) (fun _ _ => trivial) d hd).1 }

end Gen2

namespace Gen1

theorem Result.keepsSmall : Pack.KeepsSmall Result.codec.read := by
  have hmetadata : Pack.KeepsSmall Metadata.codec.read :=
    record_keepsSmall (by simp [Field.unlessZero, Field.of, text_keepsSmall])
  have hstream : Pack.KeepsSmall Stream.codec.read :=
    record_keepsSmall (by simp [Field.of, text_keepsSmall, hmetadata])
  have hdiagnostic : Pack.KeepsSmall Diagnostic.codec.read :=
    record_keepsSmall (by simp [Field.of, text_keepsSmall, word8, word_keepsSmall])
  exact record_keepsSmall (by simp [Field.of, hstream, list_keepsSmall hdiagnostic])

theorem Metadata.gives : Metadata.codec.Gives fun m =>
    m.path.length < 2 ^ 32 ∧ m.fileId.length < 2 ^ 32 := by
  refine record_gives (by decide) ?_
  simp only [List.forall_mem_cons]
  exact ⟨fun _ d hs hd => ⟨text_gives d hd, hs.2⟩, fun _ d hs hd => ⟨hs.1, text_gives d hd⟩,
    by simp⟩

theorem Stream.gives : Stream.codec.Gives Stream.Fits := by
  refine record_gives ⟨by decide, by decide, by decide⟩ ?_
  simp only [List.forall_mem_cons]
  refine ⟨fun s d hs hd => ?_, fun s d hs hd => ?_, by simp⟩
  · exact { hs with value := text_gives d hd }
  · obtain ⟨hpath, hfile⟩ := Metadata.gives d hd
    exact { hs with path := hpath, fileId := hfile }

theorem Diagnostic.gives : Diagnostic.codec.Gives (·.message.length < 2 ^ 32) := by
  refine record_gives (by decide) ?_
  simp only [List.forall_mem_cons]
  exact ⟨fun _ d _ hd => text_gives d hd, fun _ _ hs _ => hs, by simp⟩

theorem Result.Fits.empty : Result.Fits {} :=
  ⟨⟨by decide, by decide, by decide⟩, by decide, by simp [Sequence.items]⟩

theorem Result.gives : Result.codec.Gives Result.Fits := by
  refine record_gives .empty ?_
  simp only [List.forall_mem_cons]
  refine ⟨fun s d hs hd => ?_, fun s d hs hd => ?_, by simp⟩
  · exact { hs with stream := Stream.gives d hd }
  · obtain ⟨hlen, hmessages⟩ := list_gives Diagnostic.gives d hd
    exact { hs with diagnostics := hlen, messages := hmessages }

theorem Stream.Fits.upgrade {s : Stream} (h : s.Fits) : s.upgrade.Fits := by
  have hnone : ([] : Text).length < 2 ^ 32 := by decide
  by_cases hv : s.value = []
  · have htokens : s.upgrade.tokens = none := if_pos hv
    exact ⟨by simp [htokens, Sequence.items], by simp [htokens, Sequence.items], h.path, h.fileId,
      hnone⟩
  · have htokens : s.upgrade.tokens = some [⟨s.value, Span.of 0 s.value⟩] := if_neg hv
    refine ⟨by simp [htokens, Sequence.items], fun t ht => ?_, h.path, h.fileId, hnone⟩
    rw [htokens] at ht
    rw [List.mem_singleton.mp ht]
    exact h.value

theorem Result.upgrade_items (r : Result) :
    r.upgrade.diagnostics.items = r.diagnostics.items.map Diagnostic.upgrade := by
  unfold Result.upgrade
  cases hd : r.diagnostics.items <;> simp [Sequence.items]

theorem Result.Fits.upgrade {r : Result} (h : r.Fits) : r.upgrade.Fits := by
  have hnone : ([] : List Gen2.WireMapping).length < 2 ^ 32 := Nat.two_pow_pos 32
  refine ⟨h.stream.upgrade, ?_, ?_, hnone⟩
  · rw [upgrade_items, List.length_map]
    exact h.diagnostics
  · intro d hd
    rw [upgrade_items] at hd
    obtain ⟨old, hold, rfl⟩ := List.mem_map.mp hd
    exact h.messages old hold

end Gen1

theorem Expansion.answer_fits {g : Generation} {raw : Option Text} {r : Gen2.Result}
    (h : Expansion.answer? g raw = some r) : r.Fits := by
  cases g with
  | second =>
    cases raw with
    | none => cases h; exact .empty
    | some t => exact Gen2.Result.gives.decode Gen2.Result.keepsSmall h
  | first =>
    cases raw with
    | none => cases h; exact Gen1.Result.Fits.empty.upgrade
    | some t =>
      obtain ⟨r, hr, rfl⟩ := Option.map_eq_some_iff.mp h
      exact (Gen1.Result.gives.decode Gen1.Result.keepsSmall hr).upgrade

end MacroRelay
