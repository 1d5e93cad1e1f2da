import Mathlib.Data.List.Induction
import Mathlib.Data.List.Nodup

/-!
# Lists that grow and change in one place

Where an element of a changed list comes from, what is left of a list without its repeats, and of a run
over a list that may fail.
-/

namespace MacroRelay

variable {α β : Type} {l : List α} {i j : Nat} {a b : α}

theorem getElem?_set_eq_some (h : (l.set i a)[j]? = some b) :
    (j = i ∧ b = a) ∨ (j ≠ i ∧ l[j]? = some b) := by
  rw [List.getElem?_set] at h
  split at h
  · rename_i hij
    split at h
    · exact .inl ⟨hij.symm, (Option.some.inj h).symm⟩
    · cases h
  · rename_i hij
    exact .inr ⟨fun h => hij h.symm, h⟩

theorem getElem?_concat_eq_some (h : (l ++ [a])[j]? = some b) :
    l[j]? = some b ∨ (j = l.length ∧ b = a) := by
  rcases Nat.lt_or_ge j l.length with hlt | hge
  · rw [List.getElem?_append_left hlt] at h
    exact .inl h
  · rw [List.getElem?_append_right hge, List.getElem?_singleton] at h
    split at h
    · cases h
      exact .inr ⟨by omega, rfl⟩
    · cases h

theorem getElem?_concat_of_some (h : l[i]? = some a) (b : α) : (l ++ [b])[i]? = some a := by
  rw [List.getElem?_append_left (List.getElem?_eq_some_iff.mp h).1, h]

theorem getElem?_set_of_some (h : l[i]? = some a) (b : α) : (l.set i b)[i]? = some b :=
  List.getElem?_set_self (List.getElem?_eq_some_iff.mp h).1

theorem eq_or_of_concat_eq {before after : List α} (h : l ++ [a] = before ++ b :: after) :
    (l = before ∧ a = b ∧ after = []) ∨ ∃ front, l = before ++ b :: front ∧ after = front ++ [a] := by
  rcases List.eq_nil_or_concat after with rfl | ⟨front, last, rfl⟩
  · exact .inl ⟨(List.append_singleton_inj.mp h).1, (List.append_singleton_inj.mp h).2, rfl⟩
  · rw [List.concat_eq_append, ← List.cons_append, ← List.append_assoc] at h
    obtain ⟨hl, rfl⟩ := List.append_singleton_inj.mp h
    exact .inr ⟨front, hl, List.concat_eq_append⟩

theorem set_eq_self (h : l[i]? = some a) : l.set i a = l := by
  obtain ⟨hlt, rfl⟩ := List.getElem?_eq_some_iff.mp h
  exact List.set_getElem_self hlt

theorem mem_of_lookup [BEq α] [LawfulBEq α] {l : List (α × β)} {a : α} {b : β}
    (h : l.lookup a = some b) : (a, b) ∈ l := by
  obtain ⟨before, after, rfl, -⟩ := List.lookup_eq_some_iff.mp h
  exact List.mem_append_right _ List.mem_cons_self

theorem lookup_eq_some_iff [BEq α] [LawfulBEq α] {l : List (α × β)} {a : α} {b : β}
    (h : (l.map (·.1)).Nodup) : l.lookup a = some b ↔ (a, b) ∈ l := by
  refine ⟨mem_of_lookup, fun hmem => ?_⟩
  obtain ⟨front, behind, rfl⟩ := List.append_of_mem hmem
  refine List.lookup_eq_some_iff.mpr ⟨front, behind, rfl, fun p hp => ?_⟩
  have hne : p.1 ≠ a := by
    rw [List.map_append, List.map_cons, List.nodup_append] at h
    exact h.2.2 p.1 (List.mem_map_of_mem hp) a List.mem_cons_self
  simpa using hne.symm

theorem lookup_map {γ : Type} [BEq γ] [LawfulBEq γ] (name : α → γ) (f : α → β) (l : List α) (k : γ) :
    (l.map fun a => (name a, f a)).lookup k = (l.find? (name · == k)).map f := by
  induction l with
  | nil => rfl
  | cons a l ih =>
    rw [List.map_cons, List.lookup_cons, List.find?_cons, ih, BEq.comm (a := k)]
    cases name a == k <;> rfl

section
variable [BEq α] [LawfulBEq α]

theorem eraseDups_pairwise_idxOf (l : List α) :
    l.eraseDups.Pairwise fun a b => l.idxOf a < l.idxOf b := by
  induction l using List.reverseRecOn with
  | nil => exact .nil
  | append_singleton l a ih =>
    have hfront : l.eraseDups.Pairwise fun b c => (l ++ [a]).idxOf b < (l ++ [a]).idxOf c := by
      refine ih.imp_of_mem fun hb hc hlt => ?_
      rw [List.mem_eraseDups] at hb hc
      rwa [List.idxOf_append_of_mem hb, List.idxOf_append_of_mem hc]
    rw [List.eraseDups_append]
    by_cases ha : a ∈ l
    · simpa [List.removeAll, ha] using hfront
    · have hlast : ([a].removeAll l).eraseDups = [a] := by simp [List.removeAll, ha, List.eraseDups_cons]
      rw [hlast]
      refine List.pairwise_append.mpr ⟨hfront, List.pairwise_singleton _ a, fun b hb c hc => ?_⟩
      rw [List.mem_eraseDups] at hb
      rw [List.mem_singleton.mp hc, List.idxOf_append_of_mem hb, List.idxOf_append_of_notMem ha]
      exact Nat.lt_of_lt_of_le (List.idxOf_lt_length_iff.mpr hb) (Nat.le_add_right _ _)

theorem nodup_eraseDups (l : List α) : l.eraseDups.Nodup := by
  refine (eraseDups_pairwise_idxOf l).imp fun {b c} hlt heq => ?_
  rw [heq] at hlt
  exact Nat.lt_irrefl _ hlt

theorem eraseDups_of_nodup (h : l.Nodup) : l.eraseDups = l := by
  induction l using List.reverseRecOn with
  | nil => rfl
  | append_singleton l a ih =>
    obtain ⟨hl, -, hapart⟩ := List.nodup_append.mp h
    have ha : a ∉ l := fun ha => hapart a ha a List.mem_cons_self rfl
    rw [List.eraseDups_append, ih hl]
    simp [List.removeAll, ha, List.eraseDups_cons]

theorem eraseDups_sublist (l : List α) : l.eraseDups.Sublist l := by
  induction l using List.reverseRecOn with
  | nil => exact .slnil
  | append_singleton l a ih =>
    rw [List.eraseDups_append]
    refine ih.append ?_
    by_cases ha : a ∈ l <;> simp [List.removeAll, ha, List.eraseDups_cons]

theorem eraseDups_filter (p : α → Bool) (l : List α) :
    (l.filter p).eraseDups = l.eraseDups.filter p := by
  induction l using List.reverseRecOn with
  | nil => rfl
  | append_singleton l a ih =>
    rw [List.filter_append, List.eraseDups_append, List.eraseDups_append, List.filter_append, ih]
    by_cases ha : a ∈ l <;> by_cases hp : p a <;>
      simp [List.removeAll, ha, hp, List.eraseDups_cons]

end

theorem length_le_flatMap {f : α → List β} {l : List α} (hne : ∀ a ∈ l, f a ≠ []) :
    l.length ≤ (l.flatMap f).length := by
  induction l with
  | nil => exact Nat.zero_le _
  | cons a l ih =>
    obtain ⟨ha, hl⟩ := List.forall_mem_cons.mp hne
    have hpos := List.length_pos_iff.mpr ha
    have hrest := ih hl
    rw [List.flatMap_cons, List.length_append, List.length_cons]
    omega

theorem length_le_of_mem_flatMap (f : α → List β) {a : α} {l : List α} (h : a ∈ l) :
    (f a).length ≤ (l.flatMap f).length := by
  rw [List.flatMap_def]
  exact (List.sublist_flatten_of_mem (List.mem_map_of_mem h)).length_le

section
variable {ε σ : Type} {f : σ → α → Except ε σ} {s t : σ}

theorem bind_eq_ok {x : Except ε α} {g : α → Except ε β} {b : β} :
    x >>= g = .ok b ↔ ∃ a, x = .ok a ∧ g a = .ok b := by
  cases x <;> simp [bind, Except.bind]

theorem foldlM_cons_ok :
    (a :: l).foldlM f s = .ok t ↔ ∃ next, f s a = .ok next ∧ l.foldlM f next = .ok t := by
  rw [List.foldlM_cons]
  exact bind_eq_ok

theorem foldlM_keeps {P : σ → Prop} (hrun : l.foldlM f s = .ok t) (hs : P s)
    (hstep : ∀ a ∈ l, ∀ s s', P s → f s a = .ok s' → P s') : P t := by
  induction l generalizing s with
  | nil =>
    cases hrun
    exact hs
  | cons a l ih =>
    obtain ⟨next, hnext, hrun⟩ := foldlM_cons_ok.mp hrun
    obtain ⟨ha, hl⟩ := List.forall_mem_cons.mp hstep
    exact ih hrun (ha s next hs hnext) hl

end

theorem foldl_getD_keeps {σ : Type} {f : σ → α → Option σ} {P : σ → Prop} {s : σ} (hs : P s)
    (hstep : ∀ s a s', P s → f s a = some s' → P s') (l : List α) :
    P (l.foldl (fun s a => (f s a).getD s) s) := by
  induction l generalizing s with
  | nil => exact hs
  | cons a l ih =>
    rw [List.foldl_cons]
    cases h : f s a with
    | none => exact ih hs
    | some s' => exact ih (hstep s a s' hs h)

end MacroRelay
