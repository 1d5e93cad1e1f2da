import MacroRelay.Proofs.Lists
import MacroRelay.Relay.Report

/-!
# Diagnostics in printing order

The key of a diagnostic is all of it but the message, so diagnostics that print differently can share
one. Sorting keeps the order of those, and removing repeats keeps the first of each. Either can come
first: what is printed is each of the collected diagnostics once, in order.
-/

namespace MacroRelay

-- ---------------------------------------------------------------------------
-- The order
-- ---------------------------------------------------------------------------

namespace Diagnostic

variable {a b c d : Diagnostic} {ds items items' : List Diagnostic}

/-- By file, start and end; at one place the worse comes first, and then the lower code. -/
def Before (a b : Diagnostic) : Prop :=
  a.primary.file < b.primary.file ∨ a.primary.file = b.primary.file ∧
    (a.primary.span.start < b.primary.span.start ∨ a.primary.span.start = b.primary.span.start ∧
      (a.primary.span.stop < b.primary.span.stop ∨ a.primary.span.stop = b.primary.span.stop ∧
        (b.severity < a.severity ∨ b.severity = a.severity ∧ a.code < b.code)))

def SameKey (a b : Diagnostic) : Prop :=
  b = { a with message := b.message }

instance (a b : Diagnostic) : Decidable (SameKey a b) :=
  inferInstanceAs (Decidable (_ = _))

theorem order_eq_lt : order a b = .lt ↔ Before a b := by
  simp only [order, Before, Ordering.then_eq_lt, Std.compare_eq_lt, Std.compare_eq_iff_eq]

theorem order_eq_eq : order a b = .eq ↔ SameKey a b := by
  obtain ⟨severity, code, message, ⟨file, start, stop⟩⟩ := a
  obtain ⟨severity', code', message', ⟨file', start', stop'⟩⟩ := b
  simp only [order, SameKey, Ordering.then_eq_eq, Std.compare_eq_iff_eq, Diagnostic.mk.injEq,
    FileSpan.mk.injEq, Span.mk.injEq]
  constructor
  · rintro ⟨rfl, rfl, rfl, rfl, rfl⟩
    simp
  · rintro ⟨rfl, rfl, -, rfl, rfl, rfl⟩
    simp

instance : Std.TransCmp order :=
  inferInstanceAs (Std.TransCmp (compareLex (compareOn (·.primary.file)) <|
    compareLex (compareOn (·.primary.span.start)) <| compareLex (compareOn (·.primary.span.stop)) <|
    compareLex (fun a b => compareOn severity b a) (compareOn code)))

theorem order_ne_gt : (order a b != .gt) = true ↔ ¬ Before b a := by
  rw [bne_iff_ne, ne_eq, Std.OrientedCmp.gt_iff_lt, order_eq_lt]

def Ordered (ds : List Diagnostic) : Prop :=
  ds.Pairwise fun a b => ¬ Before b a

theorem sameKey_of_not_before (h : ¬ Before a b) (h' : ¬ Before b a) : SameKey a b := by
  rw [← order_eq_lt] at h
  rw [← order_ne_gt, bne_iff_ne] at h'
  rw [← order_eq_eq]
  cases horder : order a b with
  | lt => exact absurd horder h
  | eq => rfl
  | gt => exact absurd horder h'

theorem SameKey.refl (a : Diagnostic) : SameKey a a := rfl

theorem SameKey.not_before (h : SameKey a b) : ¬ Before b a := by
  rw [← order_ne_gt, order_eq_eq.mpr h]
  rfl

theorem SameKey.symm (h : SameKey a b) : SameKey b a :=
  order_eq_eq.mp (Std.OrientedCmp.eq_symm (order_eq_eq.mpr h))

theorem SameKey.trans (h : SameKey a b) (h' : SameKey b c) : SameKey a c :=
  order_eq_eq.mp (Std.TransCmp.eq_trans (order_eq_eq.mpr h) (order_eq_eq.mpr h'))

def ofKey (d : Diagnostic) (ds : List Diagnostic) : List Diagnostic :=
  ds.filter fun other => SameKey d other

theorem mem_ofKey : a ∈ ofKey d ds ↔ a ∈ ds ∧ SameKey d a := by
  simp [ofKey]

theorem ofKey_cons_of_sameKey (h : SameKey d a) : ofKey d (a :: ds) = a :: ofKey d ds :=
  List.filter_cons_of_pos (decide_eq_true h)

theorem ofKey_cons_of_not_sameKey (h : ¬ SameKey d a) : ofKey d (a :: ds) = ofKey d ds :=
  List.filter_cons_of_neg (mt of_decide_eq_true h)

theorem ofKey_cons_self (a : Diagnostic) (ds : List Diagnostic) : ofKey a (a :: ds) = a :: ofKey a ds :=
  ofKey_cons_of_sameKey (.refl a)

theorem ofKey_ofKey (d : Diagnostic) (ds : List Diagnostic) : ofKey d (ofKey d ds) = ofKey d ds := by
  simp [ofKey]

theorem Ordered.eq (h : Ordered items) (h' : Ordered items') (hkeys : ∀ d, ofKey d items = ofKey d items') :
    items = items' := by
  induction items generalizing items' with
  | nil =>
    cases items' with
    | nil => rfl
    | cons b items' =>
      have hkey := hkeys b
      rw [ofKey_cons_self] at hkey
      cases hkey
  | cons a items ih =>
    have hmem : a ∈ ofKey a items' := by
      rw [← hkeys a, ofKey_cons_self]
      exact List.mem_cons_self
    cases items' with
    | nil => cases hmem
    | cons b items' =>
      have hmem' : b ∈ ofKey b (a :: items) := by
        rw [hkeys b, ofKey_cons_self]
        exact List.mem_cons_self
      obtain ⟨ha, hitems⟩ := List.pairwise_cons.mp h
      obtain ⟨hb, hitems'⟩ := List.pairwise_cons.mp h'
      -- neither of the first two comes before the other
      have hsame : SameKey a b := by
        rcases List.mem_cons.mp (mem_ofKey.mp hmem).1 with rfl | hmem
        · exact .refl a
        · rcases List.mem_cons.mp (mem_ofKey.mp hmem').1 with rfl | hmem'
          · exact .refl b
          · exact sameKey_of_not_before (hb a hmem) (ha b hmem')
      have hkey := hkeys a
      rw [ofKey_cons_self, ofKey_cons_of_sameKey hsame] at hkey
      obtain rfl := (List.cons.inj hkey).1
      refine congrArg (a :: ·) (ih hitems hitems' fun d => ?_)
      have hkey := hkeys d
      by_cases hd : SameKey d a
      · rw [ofKey_cons_of_sameKey hd, ofKey_cons_of_sameKey hd] at hkey
        exact (List.cons.inj hkey).2
      · rwa [ofKey_cons_of_not_sameKey hd, ofKey_cons_of_not_sameKey hd] at hkey

theorem pairwise_of_keys {R : Diagnostic → Diagnostic → Prop} (h : ∀ d, (ofKey d items).Pairwise R) :
    items.Pairwise fun a b => SameKey a b → R a b := by
  induction items with
  | nil => exact .nil
  | cons a items ih =>
    refine .cons (fun b hb hsame => ?_) (ih fun d => ?_)
    · have hkey := h a
      rw [ofKey_cons_self] at hkey
      exact List.rel_of_pairwise_cons hkey (mem_ofKey.mpr ⟨hb, hsame⟩)
    · exact (h d).sublist ((List.sublist_cons_self a items).filter _)

/-- All of the diagnostics in order, those of one key as they came. -/
structure StableSort (ds items : List Diagnostic) : Prop where
  all : items.Perm ds
  ordered : Ordered items
  stable : ∀ d, ofKey d items = ofKey d ds

/-- Each of the diagnostics once, in order. Those of one key are in the order of their first
occurrences. -/
structure SortedSet (ds items : List Diagnostic) : Prop where
  ordered : Ordered items
  distinct : items.Nodup
  same : ∀ d, d ∈ items ↔ d ∈ ds
  firsts : items.Pairwise fun a b => SameKey a b → ds.idxOf a < ds.idxOf b

end Diagnostic

-- ---------------------------------------------------------------------------
-- Sorting and removing repeats
-- ---------------------------------------------------------------------------

namespace Bag

open Diagnostic

variable {b : Bag} {d : Diagnostic} {ds : List Diagnostic}

theorem sort_stable (b : Bag) : StableSort b.items b.sort.items := by
  have htrans (x y z : Diagnostic) (hxy : (order x y != .gt) = true) (hyz : (order y z != .gt) = true) :
      (order x z != .gt) = true := by
    rw [bne_iff_ne, ne_eq, ← Ordering.isLE_iff_ne_gt] at hxy hyz ⊢
    exact Std.TransCmp.isLE_trans hxy hyz
  have htotal (x y : Diagnostic) : (order x y != .gt || order y x != .gt) = true := by
    have hswap : order y x = (order x y).swap := Std.OrientedCmp.eq_swap
    rw [hswap]
    cases order x y <;> rfl
  have hperm : b.sort.items.Perm b.items := List.mergeSort_perm _ _
  refine ⟨hperm, (List.pairwise_mergeSort htrans htotal _).imp order_ne_gt.mp, fun d => ?_⟩
  -- the diagnostics of one key are in order as they came
  have hkey : (ofKey d b.items).Pairwise fun x y => (order x y != .gt) = true := by
    refine List.pairwise_of_forall_mem_list fun x hx y hy => ?_
    exact order_ne_gt.mpr ((mem_ofKey.mp hx).2.symm.trans (mem_ofKey.mp hy).2).not_before
  have hsublist : (ofKey d b.items).Sublist (ofKey d b.sort.items) := by
    rw [← ofKey_ofKey d b.items]
    exact (List.sublist_mergeSort htrans htotal hkey List.filter_sublist).filter _
  exact (hsublist.eq_of_length (hperm.filter _).length_eq.symm).symm

theorem ofKey_dedup (d : Diagnostic) (b : Bag) : ofKey d b.dedup.items = (ofKey d b.items).eraseDups :=
  (eraseDups_filter _ _).symm

theorem ordered_dedup (h : Ordered b.items) : Ordered b.dedup.items :=
  h.sublist (eraseDups_sublist _)

theorem sort_sort (b : Bag) : b.sort.sort = b.sort := by
  have h := b.sort.sort_stable
  exact congrArg (Bag.mk b.limit) (h.ordered.eq b.sort_stable.ordered h.stable)

theorem dedup_dedup (b : Bag) : b.dedup.dedup = b.dedup :=
  congrArg (Bag.mk b.limit) (eraseDups_of_nodup (nodup_eraseDups b.items))

theorem dedup_sort (b : Bag) : b.dedup.sort = b.sort.dedup := by
  have hsort := b.sort_stable
  have h := b.dedup.sort_stable
  refine congrArg (Bag.mk b.limit) (h.ordered.eq (ordered_dedup hsort.ordered) fun d => ?_)
  calc
    ofKey d b.dedup.sort.items = ofKey d b.dedup.items := h.stable d
    _ = (ofKey d b.items).eraseDups := ofKey_dedup d b
    _ = (ofKey d b.sort.items).eraseDups := by rw [hsort.stable]
    _ = ofKey d b.sort.dedup.items := (ofKey_dedup d b.sort).symm

theorem sortedSet (b : Bag) : SortedSet b.items b.sort.dedup.items := by
  have hsort := b.sort_stable
  refine ⟨ordered_dedup hsort.ordered, nodup_eraseDups _, fun d => ?_, pairwise_of_keys fun d => ?_⟩
  · exact List.mem_eraseDups.trans hsort.all.mem_iff
  · rw [← dedup_sort, b.dedup.sort_stable.stable]
    exact (eraseDups_pairwise_idxOf b.items).sublist List.filter_sublist

theorem mem_sort : d ∈ b.sort.items ↔ d ∈ b.items := b.sort_stable.all.mem_iff

theorem mem_dedup : d ∈ b.dedup.items ↔ d ∈ b.items := List.mem_eraseDups

theorem hasErrors_congr {b b' : Bag} (h : ∀ d, d ∈ b.items ↔ d ∈ b'.items) :
    b.hasErrors = b'.hasErrors := by
  rw [Bool.eq_iff_iff, hasErrors, hasErrors, Diagnostic.hasErrors, Diagnostic.hasErrors,
    List.any_eq_true, List.any_eq_true]
  simp only [h]

-- ---------------------------------------------------------------------------
-- Filling
-- ---------------------------------------------------------------------------

theorem foldl_add (b : Bag) (ds : List Diagnostic) (hroom : b.items.length + ds.length ≤ b.limit) :
    ds.foldl (fun b d => (b.add d).1) b = { b with items := b.items ++ ds } := by
  induction ds generalizing b with
  | nil => simp
  | cons d ds ih =>
    rw [List.length_cons] at hroom
    have hfree : b.isFull = false := by
      rw [isFull, decide_eq_false_iff_not]
      omega
    rw [List.foldl_cons, add, hfree, if_neg Bool.false_ne_true, ih]
    · simp
    · simp only [List.length_append, List.length_singleton]
      omega

theorem collect_items (ds : List Diagnostic) : (collect ds).items = ds := by
  have hroom : ds.length ≤ (empty ds.length).limit := by
    simp only [empty]
    split <;> omega
  rw [collect, foldl_add _ _ (by simpa [empty] using hroom)]
  rfl

inductive Change where
  | add : Diagnostic → Change
  | sort
  | dedup

def change (b : Bag) : Change → Bag
  | .add d => (b.add d).1
  | .sort => b.sort
  | .dedup => b.dedup

def changes (b : Bag) (cs : List Change) : Bag :=
  cs.foldl change b

def Within (limit : Nat) (b : Bag) : Prop :=
  b.limit = limit ∧ b.items.length ≤ limit

theorem Within.change {limit : Nat} (h : b.Within limit) (c : Change) : (b.change c).Within limit := by
  obtain ⟨rfl, hlength⟩ := h
  cases c with
  | add d =>
    rw [Bag.change, Bag.add]
    split
    · exact ⟨rfl, hlength⟩
    · rename_i hfree
      rw [isFull, decide_eq_true_iff] at hfree
      refine ⟨rfl, ?_⟩
      rw [List.length_append, List.length_singleton]
      omega
  | sort => exact ⟨rfl, b.sort_stable.all.length_eq ▸ hlength⟩
  | dedup => exact ⟨rfl, Nat.le_trans (eraseDups_sublist _).length_le hlength⟩

theorem Within.changes {limit : Nat} (h : b.Within limit) (cs : List Change) :
    (b.changes cs).Within limit := by
  induction cs generalizing b with
  | nil => exact h
  | cons c cs ih => exact ih (h.change c)

theorem Within.add {limit : Nat} (h : b.Within limit) (d : Diagnostic) : b.add d =
    if b.items.length = b.limit then (b, false) else ({ b with items := b.items ++ [d] }, true) := by
  obtain ⟨rfl, hlength⟩ := h
  have hfull : b.isFull ↔ b.items.length = b.limit := by
    rw [isFull, decide_eq_true_iff]
    omega
  rw [Bag.add]
  simp only [hfull]

/-- What is printed of diagnostics is each of them once, in order, and it does not matter whether they
are sorted or freed of repeats first. A bag keeps to its limit, whatever is done to it. -/
theorem printed_in_order (ds : List Diagnostic) (sources : FileSet) (coloured : Bool) (limit : Int)
    (cs : List Change) :
    (collect ds).items = ds ∧
    (∀ b : Bag, StableSort b.items b.sort.items) ∧
    (∀ b : Bag, b.dedup.sort = b.sort.dedup ∧ b.sort.sort = b.sort ∧ b.dedup.dedup = b.dedup) ∧
    SortedSet ds (collect ds).sort.dedup.items ∧
    Diagnostic.lines ds sources coloured =
      (collect ds).sort.dedup.items.flatMap (Diagnostic.line · sources coloured) ∧
    (let b := (empty limit).changes cs
     b.Within (if limit ≤ 0 then 100 else limit.toNat) ∧ ∀ d, b.add d =
       if b.items.length = b.limit then (b, false) else ({ b with items := b.items ++ [d] }, true)) ∧
    (∀ b : Bag, b.sort.hasErrors = b.hasErrors ∧ b.dedup.hasErrors = b.hasErrors) := by
  have hset := (collect ds).sortedSet
  rw [collect_items] at hset
  have hwithin : ((empty limit).changes cs).Within (if limit ≤ 0 then 100 else limit.toNat) :=
    Within.changes ⟨rfl, Nat.zero_le _⟩ cs
  refine ⟨collect_items ds, sort_stable, fun b => ⟨b.dedup_sort, b.sort_sort, b.dedup_dedup⟩, hset,
    rfl, ⟨hwithin, hwithin.add⟩, fun b => ⟨?_, ?_⟩⟩
  · exact hasErrors_congr fun d => mem_sort
  · exact hasErrors_congr fun d => mem_dedup

end Bag

end MacroRelay
