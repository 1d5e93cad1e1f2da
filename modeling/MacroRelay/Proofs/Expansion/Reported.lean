import MacroRelay.Expansion.Stream
import MacroRelay.Proofs.Source.Mappings
import Mathlib.Data.List.Basic

/-!
# Mappings that a server reports

A reported mapping is kept if its span is not inverted and its tag is known, and the rest are counted.
Nothing more is asked of the origin: a target that is inverted is kept, and so is a start that lies too
close to the end of the offsets. Exactly such mappings give a query an inverted source.
-/

namespace MacroRelay

/-- The origin is no inverted span, and a text of this width can start there. -/
def Origin.Holds (width : Nat) : Origin → Prop
  | .start o => o.toNat + width < 2 ^ 32
  | .span target | .callSite target => ¬ target.isInverted
  | .invalid => False

namespace Mapping

variable {m : Mapping} {ms : List Mapping} {s out : Span} {o : Offset}

structure WellFormed (m : Mapping) : Prop where
  generated : ¬ m.generated.isInverted
  origin : m.origin.Holds (m.generated.stop.toNat - m.generated.start.toNat)

/-- No query that is in order has an inverted source. -/
def InOrder (ms : List Mapping) : Prop :=
  ∀ s, ¬ s.isInverted → ∃ found, bestSource ms s = .ok found ∧ ∀ out ∈ found, ¬ out.isInverted

theorem contains_self (s : Span) : s.contains s :=
  Span.contains_iff.mpr ⟨Nat.le_refl _, Nat.le_refl _⟩

theorem target?_of_target {target : Span} (ho : m.origin = .span target ∨ m.origin = .callSite target)
    (hs : ¬ s.isInverted) (hc : m.generated.contains s) : m.target? s = some target := by
  rcases ho with ho | ho <;> simp [target?, sourceOf, hs, hc, ho]

/-- The end of what the mapping generates would lie past the last offset, and wraps. -/
theorem target?_generated_wraps (ho : m.origin = .start o) (hm : ¬ m.generated.isInverted)
    (hpast : 2 ^ 32 ≤ o.toNat + (m.generated.stop.toNat - m.generated.start.toNat)) :
    ∃ out, m.target? m.generated = some out ∧ out.isInverted := by
  refine ⟨_, target?_start ho hm (contains_self _), ?_⟩
  have hordered : m.generated.start.toNat ≤ m.generated.stop.toNat :=
    Nat.not_lt.mp (mt Span.isInverted_iff.mpr hm)
  have hstart : o.advance (m.generated.start - m.generated.start) = o := by
    rw [UInt32.sub_self, Offset.advance, UInt32.add_zero]
  have hstop : (o.advance (m.generated.stop - m.generated.start)).toNat + 2 ^ 32 =
      o.toNat + (m.generated.stop.toNat - m.generated.start.toNat) := by
    have hlast := m.generated.stop.toNat_lt
    have hfirst := o.toNat_lt
    rw [Offset.advance, UInt32.toNat_add,
      UInt32.toNat_sub_of_le _ _ (UInt32.le_iff_toNat_le.mpr hordered)]
    omega
  have hlast := m.generated.stop.toNat_lt
  rw [hstart, Span.isInverted_iff]
  dsimp only
  omega

theorem WellFormed.target? (h : m.WellFormed) (hs : ¬ s.isInverted) (hout : m.target? s = some out) :
    ¬ out.isInverted := by
  obtain ⟨-, hc, hvalid⟩ := covers_of_target? hout
  have horigin := h.origin
  cases ho : m.origin with
  | start o =>
    rw [ho] at horigin
    obtain ⟨out', hout', hstart, hstop⟩ := target?_start_toNat ho horigin hs hc
    rw [Span.isInverted_iff] at hs ⊢
    cases hout.symm.trans hout'
    omega
  | span target =>
    rw [ho] at horigin
    cases hout.symm.trans (target?_of_target (.inl ho) hs hc)
    exact horigin
  | callSite target =>
    rw [ho] at horigin
    cases hout.symm.trans (target?_of_target (.inr ho) hs hc)
    exact horigin
  | invalid => exact absurd ho hvalid

theorem wellFormed_of_target? (hm : ¬ m.generated.isInverted) (hvalid : m.origin ≠ .invalid)
    (h : ∀ out, m.target? m.generated = some out → ¬ out.isInverted) : m.WellFormed := by
  refine ⟨hm, ?_⟩
  cases ho : m.origin with
  | start o =>
    refine Nat.lt_of_not_le fun hpast => ?_
    obtain ⟨out, hout, hinverted⟩ := target?_generated_wraps ho hm hpast
    exact h out hout hinverted
  | span target => exact h target (target?_of_target (.inl ho) hm (contains_self _))
  | callSite target => exact h target (target?_of_target (.inr ho) hm (contains_self _))
  | invalid => exact absurd ho hvalid

theorem exists_target?_of_bestSource (h : bestSource ms s = .ok (some out)) :
    ∃ m ∈ ms, m.target? s = some out := by
  rw [bestSource_two_searches, Except.ok.injEq] at h
  rcases Option.or_eq_some_iff.mp h with h | ⟨-, h⟩ <;>
    · obtain ⟨m, hm, htarget⟩ := List.exists_of_findSome?_eq_some h
      exact ⟨m, (List.mem_filter.mp hm).1, htarget⟩

theorem bestSource_singleton (m : Mapping) (s : Span) : bestSource [m] s = .ok (m.target? s) := by
  rw [bestSource_two_searches, precise, callSites]
  cases hsite : m.origin.isCallSite <;> simp [hsite]

theorem inOrder_of_wellFormed (h : ∀ m ∈ ms, m.WellFormed) : InOrder ms := by
  intro s hs
  refine ⟨locate? ms s, bestSource_eq ms s, fun out hout => ?_⟩
  have hbest : bestSource ms s = .ok (some out) := by
    rw [bestSource_eq, Option.mem_def.mp hout]
  obtain ⟨m, hm, htarget⟩ := exists_target?_of_bestSource hbest
  exact (h m hm).target? hs htarget

end Mapping

theorem Gen2.WireOrigin.toOrigin?_cases (o : WireOrigin) :
    (o.kind = 1 ∧ o.toOrigin? = some (.start o.offset)) ∨ (o.kind = 2 ∧ o.toOrigin? = some (.span o.span)) ∨
      (o.kind = 3 ∧ o.toOrigin? = some (.callSite o.span)) ∨
      (¬ (o.kind = 1 ∨ o.kind = 2 ∨ o.kind = 3) ∧ o.toOrigin? = none) := by
  unfold WireOrigin.toOrigin?
  split
  · exact .inl ⟨‹_›, rfl⟩
  · split
    · exact .inr (.inl ⟨‹_›, rfl⟩)
    · split
      · exact .inr (.inr (.inl ⟨‹_›, rfl⟩))
      · exact .inr (.inr (.inr ⟨by simp [*], rfl⟩))

namespace Gen2.WireMapping

open Mapping

variable {m : WireMapping} {host : Mapping} {ms : List WireMapping}

def Usable (m : WireMapping) : Prop :=
  ¬ m.span.isInverted ∧ (m.origin.kind = 1 ∨ m.origin.kind = 2 ∨ m.origin.kind = 3)

instance (m : WireMapping) : Decidable m.Usable :=
  inferInstanceAs (Decidable (_ ∧ _))

theorem toMapping?_eq_some : m.toMapping? = some host ↔
    ¬ m.span.isInverted ∧ m.span = host.generated ∧ m.origin.toOrigin? = some host.origin := by
  obtain ⟨generated, origin⟩ := host
  unfold toMapping?
  split
  · simp [*]
  · cases m.origin.toOrigin? <;> simp [*]

theorem kept_of_toMapping? (h : m.toMapping? = some host) :
    ¬ host.generated.isInverted ∧ host.origin ≠ .invalid := by
  obtain ⟨hspan, hgenerated, horigin⟩ := toMapping?_eq_some.mp h
  refine ⟨hgenerated ▸ hspan, fun hinvalid => ?_⟩
  rcases m.origin.toOrigin?_cases with ⟨-, ho⟩ | ⟨-, ho⟩ | ⟨-, ho⟩ | ⟨-, ho⟩ <;>
    simp [ho, hinvalid] at horigin

theorem toMapping?_eq_none : m.toMapping? = none ↔ ¬ m.Usable := by
  unfold toMapping? Usable
  split
  · simp [*]
  · rcases m.origin.toOrigin?_cases with ⟨hk, ho⟩ | ⟨hk, ho⟩ | ⟨hk, ho⟩ | ⟨hk, ho⟩ <;> simp [*]

theorem map_some_filterMap (ms : List WireMapping) :
    (ms.filterMap toMapping?).map some = (ms.filter (·.Usable)).map toMapping? := by
  induction ms with
  | nil => rfl
  | cons m ms ih =>
    cases hm : m.toMapping? with
    | none => simp [hm, toMapping?_eq_none.mp hm, ih]
    | some host =>
      have husable : m.Usable := Decidable.not_not.mp (mt toMapping?_eq_none.mpr (by rw [hm]; nofun))
      simp [hm, husable, ih]

/-- The mappings that are kept stand in the order in which they were reported, and the rest are counted.
Whatever a server reports of a list of mappings, no query in order has an inverted source, exactly if the
origin of every kept one is in order as well, which nobody checks. -/
theorem toMappings_inOrder_iff (ms : List WireMapping) :
    (toMappings ms).1.map some = (ms.filter (·.Usable)).map toMapping? ∧
      (toMappings ms).2 = (ms.filter (¬ ·.Usable)).length ∧
      (toMappings ms).1.length + (toMappings ms).2 = ms.length ∧
      (∀ host ∈ (toMappings ms).1, ¬ host.generated.isInverted ∧ host.origin ≠ .invalid) ∧
      ((∀ reported, reported ⊆ ms → InOrder (toMappings reported).1) ↔
        ∀ host ∈ (toMappings ms).1, host.WellFormed) := by
  have hkept := congrArg List.length (map_some_filterMap ms)
  have hparted := List.length_eq_length_filter_add (l := ms) fun m => decide m.Usable
  simp only [List.length_map] at hkept
  refine ⟨map_some_filterMap ms, ?_, ?_, fun host hhost => ?_, ?_⟩
  · simp only [toMappings, decide_not]
    omega
  · simp only [toMappings]
    omega
  · obtain ⟨m, -, hm⟩ := List.mem_filterMap.mp hhost
    exact kept_of_toMapping? hm
  · constructor
    · intro h host hhost
      obtain ⟨m, hm, hhost⟩ := List.mem_filterMap.mp hhost
      obtain ⟨hgenerated, hvalid⟩ := kept_of_toMapping? hhost
      obtain ⟨found, hfound, horder⟩ := h [m] (by simpa using hm) host.generated hgenerated
      have halone : (toMappings [m]).1 = [host] := by simp [toMappings, hhost]
      rw [halone, bestSource_singleton, Except.ok.injEq] at hfound
      exact wellFormed_of_target? hgenerated hvalid fun out hout =>
        horder out (hfound.symm.trans hout)
    · intro h reported hsubset
      refine inOrder_of_wellFormed fun host hhost => ?_
      obtain ⟨m, hm, hhost⟩ := List.mem_filterMap.mp hhost
      exact h host (List.mem_filterMap.mpr ⟨m, hsubset hm, hhost⟩)

/-- Both are kept, and lead from spans in order to an inverted target and around the last offset. -/
example : (toMappings [⟨⟨0, 5⟩, .ofSpan ⟨9, 3⟩⟩, ⟨⟨5, 9⟩, .start 4294967294⟩]).2 = 0 ∧
    bestSource (toMappings [⟨⟨0, 5⟩, .ofSpan ⟨9, 3⟩⟩]).1 ⟨1, 4⟩ = .ok (some ⟨9, 3⟩) ∧
    bestSource (toMappings [⟨⟨5, 9⟩, .start 4294967294⟩]).1 ⟨5, 8⟩ = .ok (some ⟨4294967294, 1⟩) := by
  decide

end Gen2.WireMapping

end MacroRelay
