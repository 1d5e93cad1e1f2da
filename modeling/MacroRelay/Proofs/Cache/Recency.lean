import Mathlib.Data.Finset.Card
import Mathlib.Data.List.TakeWhile
import MacroRelay.Cache.Memo

/-!
# What a memo recalls

Keys are told the latest first. A memo holds the keys that were asked for most recently, each once,
as many as there is room for: this is its stack cut off at its capacity. A key is among them if
fewer other keys than that were asked for since.
-/

namespace MacroRelay

variable {κ : Type} [DecidableEq κ]

-- ---------------------------------------------------------------------------
-- Stacks
-- ---------------------------------------------------------------------------

/-- Every key once, in the place of its latest occurrence. -/
def stack : List κ → List κ
  | [] => []
  | k :: asked => k :: (stack asked).filter (· ≠ k)

/-- The key was asked for, and fewer than `n` others were since. -/
def Recent (n : Nat) (asked : List κ) (k : κ) : Prop :=
  k ∈ asked ∧ (asked.takeWhile (· ≠ k)).toFinset.card < n

instance (n : Nat) (asked : List κ) (k : κ) : Decidable (Recent n asked k) :=
  inferInstanceAs (Decidable (_ ∧ _))

variable {k : κ} {asked : List κ} {n : Nat}

@[simp] theorem mem_stack : k ∈ stack asked ↔ k ∈ asked := by
  induction asked with
  | nil => simp [stack]
  | cons a asked ih =>
    by_cases h : k = a
    · simp [stack, h]
    · simp [stack, h, ih]

theorem nodup_stack (asked : List κ) : (stack asked).Nodup := by
  induction asked with
  | nil => simp [stack]
  | cons a asked ih => simpa [stack] using ih.filter _

theorem length_stack (asked : List κ) : (stack asked).length = asked.toFinset.card := by
  have hsame : (stack asked).toFinset = asked.toFinset := by
    ext k
    simp
  rw [← hsame, List.toFinset_card_of_nodup (nodup_stack asked)]

theorem takeWhile_stack (asked : List κ) (k : κ) :
    (stack asked).takeWhile (· ≠ k) = stack (asked.takeWhile (· ≠ k)) := by
  induction asked with
  | nil => simp [stack]
  | cons a asked ih =>
    by_cases h : a = k
    · simp [stack, h]
    · -- no occurrence of `a` stops the search for `k`
      have hsame : (fun b => !decide (b ≠ a) || decide (b ≠ k)) = fun b => decide (b ≠ k) := by
        funext b
        by_cases hb : b = a <;> simp [hb, h]
      rw [stack, List.takeWhile_cons_of_pos (by simpa using h), List.takeWhile_filter, hsame, ih,
        List.takeWhile_cons_of_pos (by simpa using h), stack]

theorem mem_take_iff {l : List κ} :
    k ∈ l.take n ↔ k ∈ l ∧ (l.takeWhile (· ≠ k)).length < n := by
  induction l generalizing n with
  | nil => simp
  | cons a l ih =>
    cases n with
    | zero => simp
    | succ n =>
      by_cases h : k = a
      · simp [h]
      · simp [h, ih, Ne.symm h]

theorem mem_take_stack : k ∈ (stack asked).take n ↔ Recent n asked k := by
  rw [mem_take_iff, mem_stack, takeWhile_stack, length_stack, Recent]

theorem recent_of_room (hk : k ∈ asked) (hroom : asked.toFinset.card ≤ n) : Recent n asked k := by
  refine ⟨hk, Nat.lt_of_lt_of_le (Finset.card_lt_card ?_) hroom⟩
  refine Finset.ssubset_iff_of_subset (fun a ha => ?_) |>.mpr ⟨k, List.mem_toFinset.mpr hk, fun h => ?_⟩
  · have hinit := List.takeWhile_prefix (fun a => decide (a ≠ k)) (l := asked)
    exact List.mem_toFinset.mpr (hinit.subset (List.mem_toFinset.mp ha))
  · have hne := List.mem_takeWhile_imp (List.mem_toFinset.mp h)
    simp at hne

theorem take_stack_cons (n : Nat) (k : κ) (asked : List κ) :
    (k :: ((stack asked).take n).filter (· ≠ k)).take n = (stack (k :: asked)).take n := by
  have hcut (n : Nat) {l : List κ} (hl : l.Nodup) :
      ((l.take (n + 1)).filter (· ≠ k)).take n = (l.filter (· ≠ k)).take n := by
    induction l generalizing n with
    | nil => simp
    | cons a l ih =>
      obtain ⟨hna, hnodup⟩ := List.nodup_cons.mp hl
      by_cases h : a = k
      · subst h
        have hkeep (m : List κ) (hm : a ∉ m) : m.filter (· ≠ a) = m := by
          refine List.filter_eq_self.mpr fun b hb => ?_
          simpa using ne_of_mem_of_not_mem hb hm
        rw [List.take_succ_cons, List.filter_cons_of_neg (by simp), List.filter_cons_of_neg (by simp),
          hkeep l hna, hkeep (l.take n) fun hm => hna (List.mem_of_mem_take hm), List.take_take,
          Nat.min_self]
      · cases n with
        | zero => simp
        | succ n =>
          rw [List.take_succ_cons, List.filter_cons_of_pos (by simpa using h), List.take_succ_cons,
            ih n hnodup, List.filter_cons_of_pos (by simpa using h), List.take_succ_cons]
  cases n with
  | zero => simp
  | succ n => simp only [stack, List.take_succ_cons, hcut n (nodup_stack asked)]

-- ---------------------------------------------------------------------------
-- Memos
-- ---------------------------------------------------------------------------

namespace Memo

variable {α : Type} {m m' : Memo κ α} {a : α}

def keys (m : Memo κ α) : List κ := m.entries.map (·.1)

def Recalls (m : Memo κ α) (asked : List κ) : Prop := m.keys = (stack asked).take m.capacity

theorem keys_without (entries : List (κ × α)) (k : κ) :
    (without entries k).map (·.1) = (entries.map (·.1)).filter (· ≠ k) := by
  rw [without, List.filter_map]
  rfl

theorem isSome_get? : (m.get? k).isSome ↔ k ∈ m.keys := by
  rw [get?, Option.isSome_map, ← Option.ne_none_iff_isSome, Ne, List.lookup_eq_none_iff]
  simp [keys]

theorem Recalls.isSome_get? (h : m.Recalls asked) :
    (m.get? k).isSome ↔ Recent m.capacity asked k := by
  rw [Memo.isSome_get?, h, mem_take_stack]

theorem Recalls.get? (h : m.Recalls asked) (hget : m.get? k = some (a, m')) :
    m'.capacity = m.capacity ∧ m'.Recalls (k :: asked) := by
  have hmem : k ∈ m.keys := Memo.isSome_get?.mp (by rw [hget, Option.isSome_some])
  obtain ⟨found, -, heq⟩ := Option.map_eq_some_iff.mp hget
  cases heq
  refine ⟨rfl, ?_⟩
  -- the key is not new, so that there is room for it
  have hroom : (k :: m.keys.filter (· ≠ k)).length ≤ m.capacity := by
    have hless : (m.keys.filter (· ≠ k)).length < m.keys.length :=
      List.length_filter_lt_length_iff_exists.mpr ⟨k, hmem, by simp⟩
    have hlength : m.keys.length ≤ m.capacity := by
      rw [h, List.length_take]
      exact Nat.min_le_left ..
    exact Nat.succ_le_of_lt (Nat.lt_of_lt_of_le hless hlength)
  have hkeys := take_stack_cons m.capacity k asked
  rw [← h, List.take_of_length_le hroom] at hkeys
  rw [Recalls, ← hkeys, keys, List.map_cons, keys_without, keys]

theorem Recalls.insert (h : m.Recalls asked) (k : κ) (a : α) : (m.insert k a).Recalls (k :: asked) := by
  have hkeys := take_stack_cons m.capacity k asked
  rw [← h] at hkeys
  rw [Recalls, Memo.insert, ← hkeys, keys, List.map_take, List.map_cons, keys_without, keys]

theorem recalls_clear (m : Memo κ α) : m.clear.Recalls [] := by
  simp [Recalls, clear, keys, stack]

end Memo

end MacroRelay
