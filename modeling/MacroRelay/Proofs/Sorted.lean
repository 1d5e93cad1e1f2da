import MacroRelay.Text.Sorted
import Mathlib.Data.List.Basic

/-!
# Lists in order

Halving finds the first place that is not below, if those that are come first. A list of names in byte
order is searched that way, and so every name of it is found.
-/

namespace MacroRelay

/-- All in front of `low` is below, and nothing from `high` on. -/
structure Narrowed (below : Nat → Bool) (size low high : Nat) : Prop where
  ordered : low ≤ high
  inside : high ≤ size
  front : ∀ i < low, below i
  behind : ∀ i < size, high ≤ i → ¬ below i

section
variable {below : Nat → Bool} {size low high i : Nat}

theorem Narrowed.whole : Narrowed below size 0 size :=
  ⟨Nat.zero_le size, Nat.le_refl size, by omega, by omega⟩

theorem Narrowed.bisect (hdown : ∀ i j, i ≤ j → j < size → below j → below i)
    (h : Narrowed below size low high) :
    Narrowed below size (bisect below low high) (bisect below low high) := by
  fun_induction MacroRelay.bisect below low high with
  | case1 low high hlt middle hbelow ih =>
    have hmiddle : middle < high := by omega
    refine ih ⟨hmiddle, h.inside, fun i hi => ?_, h.behind⟩
    exact hdown i middle (by omega) (Nat.lt_of_lt_of_le hmiddle h.inside) hbelow
  | case2 low high hlt middle hbelow ih =>
    have hmiddle : low ≤ middle ∧ middle < high := by omega
    refine ih ⟨hmiddle.1, Nat.le_trans (Nat.le_of_lt hmiddle.2) h.inside, h.front, fun i hi hle => ?_⟩
    exact fun hi' => hbelow (hdown middle i hle hi hi')
  | case3 low high hge =>
    obtain rfl : low = high := Nat.le_antisymm h.ordered (Nat.le_of_not_lt hge)
    exact h

theorem lt_bisect_iff (hdown : ∀ i j, i ≤ j → j < size → below j → below i) (hi : i < size) :
    i < bisect below 0 size ↔ below i := by
  have h := Narrowed.whole.bisect hdown
  refine ⟨h.front i, fun hbelow => ?_⟩
  exact Nat.lt_of_not_le fun hle => h.behind i hi hle hbelow

theorem bisect_eq {front : Nat} (hfront : front ≤ size) (h : ∀ i < size, i < front ↔ below i) :
    bisect below 0 size = front := by
  have hfound := Narrowed.whole.bisect fun i j hij hj hbelow =>
    (h i (by omega)).mp (Nat.lt_of_le_of_lt hij ((h j hj).mpr hbelow))
  refine Nat.le_antisymm (Nat.le_of_not_lt fun hlt => ?_) (Nat.le_of_not_lt fun hlt => ?_)
  · have hbelow := hfound.front front hlt
    exact Nat.lt_irrefl front ((h front (Nat.lt_of_lt_of_le hlt hfound.inside)).mpr hbelow)
  · have hinside := Nat.lt_of_lt_of_le hlt hfront
    exact hfound.behind _ hinside (Nat.le_refl _) ((h _ hinside).mp hlt)

end

namespace Text

variable {a b name : Text} {names : List Text}

theorem before_iff : before a b ↔ a < b := decide_eq_true_iff

theorem not_before_iff : (!before b a) = true ↔ a ≤ b := by
  rw [Bool.not_eq_true', ← Bool.not_eq_true, before_iff, List.not_lt]

theorem sorted_pairwise (names : List Text) : (sorted names).Pairwise (· ≤ ·) := by
  have h : (sorted names).Pairwise fun a b => !before b a := by
    refine List.pairwise_mergeSort (fun a b c hab hbc => ?_) (fun a b => ?_) names
    · exact not_before_iff.mpr (List.le_trans (not_before_iff.mp hab) (not_before_iff.mp hbc))
    · rw [Bool.or_eq_true, not_before_iff, not_before_iff]
      exact List.le_total a b
  exact h.imp not_before_iff.mp

theorem mem_sorted : name ∈ sorted names ↔ name ∈ names := List.mem_mergeSort

theorem mem_dropRepeats : name ∈ dropRepeats names ↔ name ∈ names := by
  fun_induction dropRepeats names with
  | case1 a rest ih => simp [ih]
  | case2 a b rest hne ih => simp [ih]
  | case3 short _ => rfl

theorem dropRepeats_pairwise (h : names.Pairwise (· ≤ ·)) : (dropRepeats names).Pairwise (· < ·) := by
  fun_induction dropRepeats names with
  | case1 a rest ih => exact ih h.of_cons
  | case2 a b rest hne ih =>
    obtain ⟨ha, hrest⟩ := List.pairwise_cons.mp h
    obtain ⟨hb, -⟩ := List.pairwise_cons.mp hrest
    have hab : a < b := List.not_le.mp fun hba => hne (List.le_antisymm (ha b List.mem_cons_self) hba)
    refine .cons (fun c hc => ?_) (ih hrest)
    rcases List.mem_cons.mp (mem_dropRepeats.mp hc) with rfl | hc
    · exact hab
    · exact List.not_le.mp fun hca => List.not_le.mpr hab (List.le_trans (hb c hc) hca)
  | case3 short hshort =>
    match short with
    | [] => exact .nil
    | [a] => exact List.pairwise_singleton _ a
    | a :: b :: rest => exact absurd rfl (hshort a b rest)

theorem mem_distinct : name ∈ distinct names ↔ name ∈ names :=
  mem_dropRepeats.trans mem_sorted

theorem distinct_pairwise (names : List Text) : (distinct names).Pairwise (· < ·) :=
  dropRepeats_pairwise (sorted_pairwise names)

theorem getD_le (h : names.Pairwise (· ≤ ·)) {i j : Nat} (hij : i ≤ j) (hj : j < names.length) :
    names.getD i [] ≤ names.getD j [] := by
  rcases Nat.lt_or_eq_of_le hij with hlt | rfl
  · have hi : i < names.length := Nat.lt_trans hlt hj
    rw [← List.getElem_eq_getD, ← List.getElem_eq_getD]
    exact List.pairwise_iff_getElem.mp h i j hi hj hlt
  · exact List.le_refl _

theorem listed_iff (h : names.Pairwise (· ≤ ·)) : listed names name ↔ name ∈ names := by
  have hfront {i : Nat} (hi : i < names.length) :
      i < bisect (fun i => before (names.getD i []) name) 0 names.length ↔ names.getD i [] < name := by
    refine (lt_bisect_iff (fun i j hij hj hbelow => ?_) hi).trans before_iff
    exact before_iff.mpr (List.lt_of_le_of_lt (getD_le h hij hj) (before_iff.mp hbelow))
  rw [listed, beq_iff_eq]
  generalize bisect (fun i => before (names.getD i []) name) 0 names.length = place at hfront ⊢
  refine ⟨List.mem_of_getElem?, fun hname => ?_⟩
  obtain ⟨i, hi, hget⟩ := List.getElem_of_mem hname
  rw [List.getElem_eq_getD []] at hget
  have hplace : place ≤ i := Nat.le_of_not_lt fun hlt => by
    have hbelow := (hfront hi).mp hlt
    rw [hget] at hbelow
    exact List.lt_irrefl name hbelow
  have hinside : place < names.length := Nat.lt_of_le_of_lt hplace hi
  have hle : names.getD place [] ≤ name := hget ▸ getD_le h hplace hi
  have hge : name ≤ names.getD place [] := fun hlt => Nat.lt_irrefl place ((hfront hinside).mpr hlt)
  rw [← List.le_antisymm hle hge, ← List.getElem_eq_getD]
  exact List.getElem?_eq_getElem hinside

end Text

end MacroRelay
