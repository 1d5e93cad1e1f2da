import MacroRelay.Source.Origin
import Mathlib.Algebra.Group.Nat.Defs

/-!
# Which mapping answers

One pass over the mappings, with a call site kept aside, finds what two searches find: the first mapping
that covers the query and is not a call site, and without one the first call site that does. The spans
arrive from other processes, and none of them makes a lookup fail.
-/

namespace MacroRelay

theorem Offset.toNat_advance_sub {o a b : Offset} (hab : a.toNat ≤ b.toNat)
    (hfits : o.toNat + (b.toNat - a.toNat) < 2 ^ 32) :
    (o.advance (b - a)).toNat = o.toNat + (b.toNat - a.toNat) := by
  rw [advance, UInt32.toNat_add, UInt32.toNat_sub_of_le _ _ (UInt32.le_iff_toNat_le.mpr hab),
    Nat.mod_eq_of_lt hfits]

namespace Mapping

variable {m : Mapping} {ms ms' : List Mapping} {s s' out out' : Span} {o : Offset}

def Covers (m : Mapping) (s : Span) : Prop :=
  m.generated.contains s ∧ m.origin ≠ .invalid

instance (m : Mapping) (s : Span) : Decidable (m.Covers s) :=
  inferInstanceAs (Decidable (_ ∧ _))

-- ---------------------------------------------------------------------------
-- One mapping
-- ---------------------------------------------------------------------------

/-- No mapping reaches a position fault, so the source alone is enough. -/
def target? (m : Mapping) (s : Span) : Option Span :=
  match m.sourceOf s with
  | .ok found => found
  | .error _ => none

theorem sourceOf_eq (m : Mapping) (s : Span) : m.sourceOf s = .ok (m.target? s) := by
  obtain ⟨r, hr⟩ := m.sourceOf_isOk s
  simp only [target?, hr]

theorem target?_start (ho : m.origin = .start o) (hs : ¬ s.isInverted) (hc : m.generated.contains s) :
    m.target? s = some ⟨o.advance (s.start - m.generated.start),
      (o.advance (s.start - m.generated.start)).advance (s.stop - s.start)⟩ := by
  have hfrom : ¬ s.start < m.generated.start := by
    rw [UInt32.lt_iff_toNat_lt, Nat.not_lt]
    exact (Span.contains_iff.mp hc).1
  have hstop : ¬ s.stop < s.start := by
    rwa [UInt32.lt_iff_toNat_lt, ← Span.isInverted_iff]
  rw [Bool.not_eq_true] at hs
  simp [target?, sourceOf, hs, hc, ho, Offset.since, Span.width, hfrom, hstop, bind, Except.bind, pure,
    Except.pure]

theorem target?_eq_none : m.target? s = none ↔ s.isInverted ∨ ¬ m.Covers s := by
  by_cases hs : s.isInverted
  · simp [target?, sourceOf, hs]
  · by_cases hc : m.generated.contains s
    · cases ho : m.origin with
      | start o => simp [target?_start ho hs hc, hs, hc, ho, Covers]
      | span target | callSite target | invalid =>
        simp [target?, sourceOf, hs, hc, ho, Covers]
    · simp [target?, sourceOf, hc, Covers]

theorem covers_of_target? (h : m.target? s = some out) : ¬ s.isInverted ∧ m.Covers s := by
  have hsome : ¬ (s.isInverted ∨ ¬ m.Covers s) := by
    rw [← target?_eq_none, h]
    nofun
  rw [not_or] at hsome
  exact ⟨hsome.1, Decidable.not_not.mp hsome.2⟩

theorem target?_start_toNat (ho : m.origin = .start o)
    (hfits : o.toNat + (m.generated.stop.toNat - m.generated.start.toNat) < 2 ^ 32)
    (hs : ¬ s.isInverted) (hc : m.generated.contains s) : ∃ out, m.target? s = some out ∧
      out.start.toNat + m.generated.start.toNat = o.toNat + s.start.toNat ∧
      out.stop.toNat + m.generated.start.toNat = o.toNat + s.stop.toNat := by
  obtain ⟨hstart, hstop⟩ := Span.contains_iff.mp hc
  have hordered : s.start.toNat ≤ s.stop.toNat := Nat.not_lt.mp (mt Span.isInverted_iff.mpr hs)
  have hfrom : (o.advance (s.start - m.generated.start)).toNat =
      o.toNat + (s.start.toNat - m.generated.start.toNat) :=
    Offset.toNat_advance_sub hstart (by omega)
  have hto := Offset.toNat_advance_sub (o := o.advance (s.start - m.generated.start)) hordered
    (by omega)
  refine ⟨_, target?_start ho hs hc, ?_, ?_⟩
  · rw [hfrom]
    omega
  · rw [hto, hfrom]
    omega

/-- Every span inside the mapping has a source as far behind `o` as the span is behind the start of the
mapping. A span is inside another exactly if its source is inside the source of the other. -/
structure ShiftsTo (m : Mapping) (o : Offset) : Prop where
  shifted : ∀ s, ¬ s.isInverted → m.generated.contains s → ∃ out, m.sourceOf s = .ok (some out) ∧
    out.start.toNat + m.generated.start.toNat = o.toNat + s.start.toNat ∧
    out.stop.toNat + m.generated.start.toNat = o.toNat + s.stop.toNat ∧
    ¬ out.isInverted ∧ o ≤ out.start ∧
    out.stop.toNat ≤ o.toNat + (m.generated.stop.toNat - m.generated.start.toNat)
  contains_iff : ∀ s s' out out', m.sourceOf s = .ok (some out) → m.sourceOf s' = .ok (some out') →
    (out.contains out' ↔ s.contains s')

theorem shiftsTo_of_start (ho : m.origin = .start o)
    (hfits : o.toNat + (m.generated.stop.toNat - m.generated.start.toNat) < 2 ^ 32) : m.ShiftsTo o := by
  constructor
  case shifted =>
    intro s hs hc
    obtain ⟨out, htarget, hstart, hstop⟩ := target?_start_toNat ho hfits hs hc
    obtain ⟨hfirst, hlast⟩ := Span.contains_iff.mp hc
    rw [Span.isInverted_iff] at hs
    refine ⟨out, by rw [sourceOf_eq, htarget], hstart, hstop, ?_, ?_, ?_⟩
    · rw [Span.isInverted_iff]
      omega
    · rw [UInt32.le_iff_toNat_le]
      omega
    · omega
  case contains_iff =>
    intro s s' out out' h h'
    have hmoved {s out : Span} (h : m.sourceOf s = .ok (some out)) :
        out.start.toNat + m.generated.start.toNat = o.toNat + s.start.toNat ∧
          out.stop.toNat + m.generated.start.toNat = o.toNat + s.stop.toNat := by
      rw [sourceOf_eq, Except.ok.injEq] at h
      obtain ⟨hs, hc, -⟩ := covers_of_target? h
      obtain ⟨out₁, htarget, hto⟩ := target?_start_toNat ho hfits hs hc
      rwa [Option.some.inj (h.symm.trans htarget)]
    obtain ⟨hstart, hstop⟩ := hmoved h
    obtain ⟨hstart', hstop'⟩ := hmoved h'
    rw [Span.contains_iff, Span.contains_iff]
    omega

-- ---------------------------------------------------------------------------
-- Two searches
-- ---------------------------------------------------------------------------

def precise (ms : List Mapping) : List Mapping :=
  ms.filter fun m => !m.origin.isCallSite

def callSites (ms : List Mapping) : List Mapping :=
  ms.filter fun m => m.origin.isCallSite

/-- The first of the mappings that covers the span has this source for it. -/
def LeadTo (ms : List Mapping) (s out : Span) : Prop :=
  ∃ front m behind, ms = front ++ m :: behind ∧ (∀ other ∈ front, ¬ other.Covers s) ∧ m.Covers s ∧
    m.sourceOf s = .ok (some out)

theorem sourceAfter_eq (fallback : Option Span) (s : Span) (ms : List Mapping) :
    sourceAfter fallback s ms = .ok (((precise ms).findSome? (·.target? s)).or
      (fallback.or ((callSites ms).findSome? (·.target? s)))) := by
  induction ms generalizing fallback with
  | nil => simp [sourceAfter, precise, callSites]
  | cons m ms ih =>
    rw [sourceAfter, sourceOf_eq]
    cases hsite : m.origin.isCallSite <;> cases htarget : m.target? s <;>
      simp [bind, Except.bind, pure, Except.pure, ih, precise, callSites, hsite, htarget]

theorem bestSource_two_searches (ms : List Mapping) (s : Span) :
    bestSource ms s = .ok (((precise ms).findSome? (·.target? s)).or
      ((callSites ms).findSome? (·.target? s))) := by
  rw [bestSource, sourceAfter_eq, Option.none_or]

theorem findSome?_target?_eq_none :
    ms.findSome? (·.target? s) = none ↔ s.isInverted ∨ ∀ m ∈ ms, ¬ m.Covers s := by
  simp only [List.findSome?_eq_none_iff, target?_eq_none]
  by_cases hs : s.isInverted <;> simp [hs]

theorem not_isInverted_of_findSome? (h : ms.findSome? (·.target? s) = some out) : ¬ s.isInverted := by
  intro hs
  rw [findSome?_target?_eq_none.mpr (.inl hs)] at h
  cases h

theorem leadTo_of_findSome? (h : ms.findSome? (·.target? s) = some out) : LeadTo ms s out := by
  obtain ⟨front, m, behind, hms, htarget, hfront⟩ := List.findSome?_eq_some_iff.mp h
  obtain ⟨hs, hcovers⟩ := covers_of_target? htarget
  refine ⟨front, m, behind, hms, fun other hother => ?_, hcovers, by rw [sourceOf_eq, htarget]⟩
  exact (target?_eq_none.mp (hfront other hother)).resolve_left hs

theorem forall_mem_iff {p : Mapping → Prop} :
    (∀ m ∈ ms, p m) ↔ (∀ m ∈ precise ms, p m) ∧ ∀ m ∈ callSites ms, p m := by
  simp only [precise, callSites, List.mem_filter]
  constructor
  · exact fun h => ⟨fun m hm => h m hm.1, fun m hm => h m hm.1⟩
  · intro ⟨hprecise, hsites⟩ m hm
    cases hsite : m.origin.isCallSite with
    | false => exact hprecise m ⟨hm, by rw [hsite]; rfl⟩
    | true => exact hsites m ⟨hm, hsite⟩

/-- A lookup always has an answer. It is empty only for an inverted query or one that no mapping covers.
Else the first mapping decides that covers the query and is not a call site, and call sites matter only
where there is none. -/
theorem precise_source_first (ms : List Mapping) (s : Span) :
    (∃ found, bestSource ms s = .ok found ∧
      (found = none ↔ s.isInverted ∨ ∀ m ∈ ms, ¬ m.Covers s) ∧
      (∀ out, found = some out → LeadTo (precise ms) s out ∨
        (∀ m ∈ precise ms, ¬ m.Covers s) ∧ LeadTo (callSites ms) s out) ∧
      ∀ ms', precise ms' = precise ms → (∃ m ∈ precise ms, m.Covers s) →
        bestSource ms' s = .ok found) ∧
    ∀ (m : Mapping) (o : Offset), m.origin = .start o →
      o.toNat + (m.generated.stop.toNat - m.generated.start.toNat) < 2 ^ 32 → m.ShiftsTo o := by
  refine ⟨⟨_, bestSource_two_searches ms s, ?_, ?_, ?_⟩, fun m o => shiftsTo_of_start⟩
  · rw [Option.or_eq_none_iff, findSome?_target?_eq_none, findSome?_target?_eq_none, ← or_and_left,
      ← forall_mem_iff]
  · intro out hout
    rcases Option.or_eq_some_iff.mp hout with hfirst | ⟨hnone, hsecond⟩
    · exact .inl (leadTo_of_findSome? hfirst)
    · have hs := not_isInverted_of_findSome? hsecond
      exact .inr ⟨(findSome?_target?_eq_none.mp hnone).resolve_left hs, leadTo_of_findSome? hsecond⟩
  · intro ms' hsame hcovers
    rw [bestSource_two_searches, hsame]
    cases hfirst : (precise ms).findSome? (·.target? s) with
    | some out => rw [Option.some_or, Option.some_or]
    | none =>
      -- one of them covers the query, so it is inverted
      have hs : s.isInverted := by
        refine (findSome?_target?_eq_none.mp hfirst).resolve_right fun hnone => ?_
        obtain ⟨m, hm, hcover⟩ := hcovers
        exact hnone m hm hcover
      rw [findSome?_target?_eq_none.mpr (.inl hs), findSome?_target?_eq_none.mpr (.inl hs)]

def mixed : List Mapping :=
  [⟨⟨0, 30⟩, .callSite ⟨50, 60⟩⟩, ⟨⟨9, 2⟩, .start 5⟩, ⟨⟨0, 40⟩, .invalid⟩, ⟨⟨5, 10⟩, .start 200⟩,
    ⟨⟨4, 12⟩, .span ⟨1, 2⟩⟩]

theorem precise_source_first_mixed :
    (∃ found, bestSource mixed ⟨6, 7⟩ = .ok found ∧ found = some ⟨201, 202⟩ ∧
      LeadTo (precise mixed) ⟨6, 7⟩ ⟨201, 202⟩ ∧ bestSource (mixed.drop 1) ⟨6, 7⟩ = .ok found) ∧
    (∃ found, bestSource mixed ⟨20, 21⟩ = .ok found ∧ found = some ⟨50, 60⟩ ∧
      LeadTo (callSites mixed) ⟨20, 21⟩ ⟨50, 60⟩) ∧
    Mapping.ShiftsTo ⟨⟨5, 10⟩, .start 200⟩ 200 := by
  obtain ⟨⟨found, hfound, -, hlead, hmoved⟩, hshifts⟩ := precise_source_first mixed ⟨6, 7⟩
  have hvalue : found = some ⟨201, 202⟩ :=
    Except.ok.inj (hfound.symm.trans rfl)
  obtain ⟨⟨site, hsite, -, hfallback, -⟩, -⟩ := precise_source_first mixed ⟨20, 21⟩
  have hsiteValue : site = some ⟨50, 60⟩ :=
    Except.ok.inj (hsite.symm.trans rfl)
  refine ⟨⟨found, hfound, hvalue, ?_, hmoved (mixed.drop 1) (by decide) (by decide)⟩,
    ⟨site, hsite, hsiteValue, ?_⟩, hshifts _ 200 rfl (by decide)⟩
  · exact (hlead _ hvalue).resolve_right fun hnone => absurd hnone.1 (by decide)
  · have hnone : ∀ m ∈ precise mixed, ¬ m.Covers ⟨20, 21⟩ := by decide
    rcases hfallback _ hsiteValue with ⟨front, m, behind, hms, -, hcovers, -⟩ | ⟨-, hsites⟩
    · exact absurd hcovers (hnone m (by simp [hms]))
    · exact hsites

end Mapping

end MacroRelay
