import MacroRelay.Proofs.Path
import MacroRelay.Text.Json
import MacroRelay.Text.Quoted
import Mathlib.Algebra.GroupWithZero.Nat

/-!
# Text on one line

A line ends in a line feed and holds no other, so lines written one behind the other can be told apart
again. Numbers and quoted text hold no line feed, whatever they stand for: quoting leaves only characters
as they are that have a form of their own.
-/

namespace MacroRelay

-- ---------------------------------------------------------------------------
-- Lines and records
-- ---------------------------------------------------------------------------

namespace Text

variable {t body rest part : Text} {parts : List Text}

/-- A line feed at the end, and no other. -/
def IsLine (t : Text) : Prop :=
  ∃ body, t = body ++ [newline] ∧ newline ∉ body

/-- What stands in front of the line feeds, each part behind the line feed before it. -/
def records (t : Text) : List Text :=
  (t.splitAt newline).dropLast

theorem length_splitAt (b : UInt8) (t : Text) : (t.splitAt b).length = t.count b + 1 := by
  induction t with
  | nil => rfl
  | cons c t ih =>
    by_cases hc : c = b
    · subst hc
      rw [splitAt_cons_self, List.length_cons, ih, List.count_cons_self]
    · obtain ⟨first, rest, ht⟩ := List.exists_cons_of_ne_nil (splitAt_ne_nil b t)
      rw [ht] at ih
      rw [splitAt_cons_ne hc ht, List.count_cons_of_ne hc, ← ih, List.length_cons, List.length_cons]

theorem length_records (t : Text) : t.records.length = t.count newline := by
  rw [records, List.length_dropLast, length_splitAt, Nat.add_sub_cancel]

theorem records_line (h : newline ∉ body) (rest : Text) :
    (body ++ newline :: rest).records = body :: rest.records := by
  rw [records, splitAt_append, splitAt_of_not_mem h, List.singleton_append,
    List.dropLast_cons_of_ne_nil (splitAt_ne_nil newline rest), records]

theorem isLine_iff_count (body : Text) : (body ++ [newline]).IsLine ↔ body.count newline = 0 := by
  rw [List.count_eq_zero]
  constructor
  · rintro ⟨front, heq, hfront⟩
    rwa [List.append_cancel_right heq]
  · exact fun h => ⟨body, rfl, h⟩

theorem IsLine.dropLast_append (h : IsLine t) : t.dropLast ++ [newline] = t ∧ newline ∉ t.dropLast := by
  obtain ⟨body, rfl, hbody⟩ := h
  rw [List.dropLast_concat]
  exact ⟨rfl, hbody⟩

theorem records_flatMap {α : Type} {line : α → Text} {as : List α} (h : ∀ a ∈ as, (line a).IsLine) :
    records (as.flatMap line) = as.map fun a => (line a).dropLast := by
  induction as with
  | nil => rfl
  | cons a as ih =>
    obtain ⟨ha, has⟩ := List.forall_mem_cons.mp h
    obtain ⟨heq, hnone⟩ := ha.dropLast_append
    have hline := records_line hnone (as.flatMap line)
    rw [← List.singleton_append, ← List.append_assoc, heq] at hline
    rw [List.flatMap_cons, hline, ih has, List.map_cons]

theorem length_le_count {α : Type} {line : α → Text} (hends : ∀ a, ∃ body, line a = body ++ [newline])
    (as : List α) : as.length ≤ (as.flatMap line).count newline := by
  induction as with
  | nil => exact Nat.zero_le _
  | cons a as ih =>
    obtain ⟨body, hbody⟩ := hends a
    rw [List.flatMap_cons, hbody, List.count_append, List.count_append, List.count_singleton_self,
      List.length_cons]
    omega

theorem length_lt_records {α : Type} {line : α → Text} {as : List α}
    (hends : ∀ a, ∃ body, line a = body ++ [newline]) (h : ∃ a ∈ as, ¬ (line a).IsLine) :
    as.length < (records (as.flatMap line)).length := by
  obtain ⟨a, ha, hbroken⟩ := h
  obtain ⟨front, behind, rfl⟩ := List.append_of_mem ha
  obtain ⟨body, hbody⟩ := hends a
  have hfront := length_le_count hends front
  have hbehind := length_le_count hends behind
  rw [hbody, isLine_iff_count] at hbroken
  rw [length_records, List.flatMap_append, List.flatMap_cons, hbody, List.count_append, List.count_append,
    List.count_append, List.count_singleton_self, List.length_append, List.length_cons]
  omega

theorem count_joined {b : UInt8} {separator : Text} (h : b ∉ separator) (parts : List Text) :
    (joined separator parts).count b = (parts.map (List.count b)).sum := by
  match parts with
  | [] => rfl
  | [part] => simp [joined, List.intercalate]
  | part :: next :: rest =>
    have ih := count_joined h (next :: rest)
    rw [joined] at ih ⊢
    rw [List.intercalate_cons_cons, List.count_append, List.count_append, ih,
      List.count_eq_zero_of_not_mem h, Nat.add_zero, List.map_cons (a := part), List.sum_cons (a := part.count b)]

theorem not_mem_joined {b : UInt8} {separator : Text} (h : b ∉ separator)
    (hparts : ∀ part ∈ parts, b ∉ part) : b ∉ joined separator parts := by
  rw [← List.count_eq_zero, count_joined h, List.sum_eq_zero_iff_forall_eq_nat, List.forall_mem_map]
  exact fun part hpart => List.count_eq_zero_of_not_mem (hparts part hpart)

theorem newline_not_mem_decimal (n : Nat) : newline ∉ decimal n := by
  intro h
  obtain ⟨c, hc, heq⟩ := List.mem_map.mp h
  have hdigit := Nat.isDigit_of_mem_toDigits (by decide) (by decide) hc
  have hrange : 48 ≤ c.toNat ∧ c.toNat ≤ 57 := by
    simpa [Char.isDigit, UInt32.le_iff_toNat_le] using hdigit
  have hvalue : c.toNat % 256 = 10 := congrArg UInt8.toNat heq
  omega

-- ---------------------------------------------------------------------------
-- Characters
-- ---------------------------------------------------------------------------

theorem byte_ne_newline {n : Nat} (hlow : 0x80 ≤ n) (hhigh : n < 0x100) : newline ≠ n.toUInt8 := by
  intro heq
  have hvalue : 10 = n % 256 := congrArg UInt8.toNat heq
  omega

theorem newline_not_mem_ofScalar {n : Nat} (hne : n ≠ 0x0A) (hn : n < 0x200000) :
    newline ∉ ofScalar n := by
  unfold ofScalar
  split
  · intro h
    have hvalue : 10 = n % 256 := congrArg UInt8.toNat (List.mem_singleton.mp h)
    omega
  · have hbyte : ∀ m, 0x80 ≤ m → m < 0x100 → newline ≠ m.toUInt8 := fun _ => byte_ne_newline
    split
    · simp only [List.mem_cons, List.not_mem_nil, or_false, not_or]
      exact ⟨hbyte _ (by omega) (by omega), hbyte _ (by omega) (by omega)⟩
    · split
      · simp only [List.mem_cons, List.not_mem_nil, or_false, not_or]
        exact ⟨hbyte _ (by omega) (by omega), hbyte _ (by omega) (by omega),
          hbyte _ (by omega) (by omega)⟩
      · simp only [List.mem_cons, List.not_mem_nil, or_false, not_or]
        exact ⟨hbyte _ (by omega) (by omega), hbyte _ (by omega) (by omega),
          hbyte _ (by omega) (by omega), hbyte _ (by omega) (by omega)⟩

theorem newline_not_mem_hexPadded (width n : Nat) : newline ∉ hexPadded width n := by
  have hdigit : ∀ m < 16, hexDigit m ≠ newline := by decide
  intro h
  obtain ⟨i, -, heq⟩ := List.mem_map.mp h
  exact hdigit _ (Nat.mod_lt _ (by decide)) heq

end Text

namespace Utf8

variable {lead : UInt8} {tail rest t : Text} {n extra : Nat}

theorem payload_lt (lead : UInt8) (h : tail.length ≤ 3) : payload lead tail < 0x200000 := by
  have hlead := lead.toNat_lt
  match tail with
  | [] | [b] | [b, c] | [b, c, d] =>
    simp only [payload, List.length_cons, List.length_nil, List.foldl_cons, List.foldl_nil]
    omega
  | _ :: _ :: _ :: _ :: tail =>
    simp only [List.length_cons] at h
    omega

theorem missing_le {state : State} (h : State.boundary.step lead = some state) : state.missing ≤ 3 := by
  simp only [State.step] at h
  repeat' split at h
  all_goals
    cases h
    try exact Nat.le_of_ble_eq_true rfl

theorem front?_lt (h : front? lead rest = some (n, extra)) : n < 0x200000 := by
  unfold front? at h
  split at h
  · cases h
  · rename_i state hstate
    dsimp only at h
    split at h
    · obtain ⟨rfl, -⟩ := Prod.mk.inj (Option.some.inj h)
      exact payload_lt lead (Nat.le_trans (List.length_take_le _ rest) (missing_le hstate))
    · cases h

theorem scalar_lt_of_mem_piecesOnto {done : List Piece} (hdone : .scalar n ∈ done → n < 0x200000)
    (h : .scalar n ∈ piecesOnto done t) : n < 0x200000 := by
  fun_induction piecesOnto done t with
  | case1 done => exact hdone (List.mem_reverse.mp h)
  | case2 done b rest m extra hfront ih =>
    refine ih (fun hmem => ?_) h
    rcases List.mem_cons.mp hmem with heq | hmem
    · obtain rfl := Piece.scalar.inj heq
      exact front?_lt hfront
    · exact hdone hmem
  | case3 done b rest _ ih =>
    refine ih (fun hmem => ?_) h
    rcases List.mem_cons.mp hmem with heq | hmem
    · cases heq
    · exact hdone hmem

theorem scalar_lt (h : .scalar n ∈ pieces t) : n < 0x200000 := by
  have hnone : Piece.scalar n ∈ [] → n < 0x200000 := nofun
  exact scalar_lt_of_mem_piecesOnto hnone h

end Utf8

namespace Text

-- ---------------------------------------------------------------------------
-- Quoting
-- ---------------------------------------------------------------------------

theorem newline_not_mem_jsonPiece {n : Nat} (h : n < 0x200000) : newline ∉ jsonPiece (.scalar n) := by
  simp only [jsonPiece]
  split
  case h_8 =>
    rename_i hline _ _
    split
    · rw [List.mem_append, not_or]
      exact ⟨by decide, newline_not_mem_hexPadded 4 n⟩
    · exact newline_not_mem_ofScalar hline h
  all_goals decide

theorem newline_not_mem_json (t : Text) : newline ∉ t.json := by
  simp only [json, List.mem_append, not_or]
  refine ⟨⟨by decide, fun h => ?_⟩, by decide⟩
  obtain ⟨piece, hpiece, hmem⟩ := List.mem_flatMap.mp h
  cases piece with
  | stray b => exact newline_not_mem_ofScalar (n := 0xFFFD) (by decide) (by decide) hmem
  | scalar n => exact newline_not_mem_jsonPiece (Utf8.scalar_lt hpiece) hmem

end Text

end MacroRelay
