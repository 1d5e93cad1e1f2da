import MacroRelay.Proofs.Sorted
import MacroRelay.Proofs.Source.FileSet
import Mathlib.Data.List.Nodup
import Mathlib.Data.Nat.Init

/-!
# Lines and columns

A file finds line and column of an offset by halving the table of its line feeds. What it finds is what
a scan of the text up to the offset counts: the line feeds passed, and the bytes since the last of them.
-/

namespace MacroRelay

-- ---------------------------------------------------------------------------
-- A scan
-- ---------------------------------------------------------------------------

namespace Text

variable {t : Text} {off a b start i : Nat}

def feedsBelow (t : Text) (off : Nat) : Nat := (t.take off).count newline

/-- Where the line of an offset starts: just after the last line feed below it. -/
def lineStart (t : Text) : Nat → Nat
  | 0 => 0
  | off + 1 => if t[off]? = some newline then off + 1 else t.lineStart off

def Indexable (t : Text) : Prop :=
  ∀ i, t[i]? = some newline → i < 2 ^ 32

theorem Indexable.of_length_le (h : t.length ≤ 2 ^ 32) : t.Indexable := fun _ hi =>
  Nat.lt_of_lt_of_le (List.getElem?_eq_some_iff.mp hi).1 h

theorem feedsBelow_succ (t : Text) (off : Nat) :
    t.feedsBelow (off + 1) = t.feedsBelow off + if t[off]? = some newline then 1 else 0 := by
  rw [feedsBelow, feedsBelow, List.take_add_one, List.count_append]
  cases t[off]? with
  | none => simp
  | some c => simp [List.count_singleton]

theorem feedsBelow_mono (h : a ≤ b) : t.feedsBelow a ≤ t.feedsBelow b := by
  induction h with
  | refl => exact Nat.le_refl _
  | step _ ih =>
    rw [feedsBelow_succ]
    omega

theorem feedsBelow_le (t : Text) (off : Nat) : t.feedsBelow off ≤ off :=
  Nat.le_trans List.count_le_length (List.length_take_le off t)

theorem lineStart_le (t : Text) (off : Nat) : t.lineStart off ≤ off := by
  induction off with
  | zero => exact Nat.le_refl 0
  | succ off ih =>
    rw [lineStart]
    split <;> omega

theorem feedsBelow_eq_iff (h : a ≤ b) : t.feedsBelow a = t.feedsBelow b ↔ t.lineStart b ≤ a := by
  induction b, h using Nat.le_induction with
  | base => exact iff_of_true rfl (t.lineStart_le a)
  | succ b hab ih =>
    have hmono := feedsBelow_mono (t := t) hab
    rw [feedsBelow_succ, lineStart]
    split
    · omega
    · rw [Nat.add_zero, ih]

theorem lineStart_eq_zero (h : t.feedsBelow off = 0) : t.lineStart off = 0 :=
  Nat.le_zero.mp ((feedsBelow_eq_iff (Nat.zero_le off)).mp h.symm)

theorem lineStart_eq_lineStart (h : a ≤ b) (hstart : t.lineStart b ≤ a) :
    t.lineStart a = t.lineStart b := by
  induction b, h using Nat.le_induction with
  | base => rfl
  | succ b hab ih =>
    rw [lineStart] at hstart ⊢
    split at hstart
    · omega
    · rename_i hfeed
      rw [if_neg hfeed, ih hstart]

theorem lineStart_eq (hle : start ≤ off) (hafter : start = 0 ∨ t[start - 1]? = some newline)
    (hclear : ∀ i, start ≤ i → i < off → t[i]? ≠ some newline) : t.lineStart off = start := by
  induction off with
  | zero => exact (Nat.le_zero.mp hle).symm
  | succ off ih =>
    rw [lineStart]
    rcases Nat.lt_or_eq_of_le hle with hlt | rfl
    · rw [if_neg (hclear off (Nat.le_of_lt_succ hlt) (Nat.lt_succ_self off))]
      exact ih (Nat.le_of_lt_succ hlt) fun i hi hlt => hclear i hi (Nat.lt_succ_of_lt hlt)
    · exact if_pos (hafter.resolve_left (Nat.succ_ne_zero off))

theorem lineStart_eq_self_iff : t.lineStart off = off ↔ off = 0 ∨ t[off - 1]? = some newline := by
  cases off with
  | zero => simp [lineStart]
  | succ off =>
    have hle := t.lineStart_le off
    rw [lineStart]
    split
    · simp_all
    · simp_all
      omega

end Text

-- ---------------------------------------------------------------------------
-- The table
-- ---------------------------------------------------------------------------

open Text

section
variable {t : Text} {off i : Nat}

theorem lineFeedsFrom_eq (start : Nat) (found : Array Offset) (t : Text) :
    lineFeedsFrom start.toUInt32 found t =
      found ++ ((t.idxsOf newline start).map Nat.toUInt32).toArray := by
  induction t generalizing start found with
  | nil => simp [lineFeedsFrom]
  | cons c t ih =>
    have hnext : start.toUInt32 + 1 = (start + 1).toUInt32 := (UInt32.ofNat_add start 1).symm
    rw [lineFeedsFrom, hnext, ih, List.idxsOf_cons]
    by_cases hc : c = newline
    · simp [hc]
    · simp [hc]

theorem size_lineFeeds (t : Text) : (lineFeedsFrom 0 #[] t).size = t.count newline := by
  have h := lineFeedsFrom_eq 0 #[] t
  rw [show (0 : Offset) = Nat.toUInt32 0 from rfl, h]
  simp

theorem mem_idxsOf_newline : i ∈ t.idxsOf newline ↔ t[i]? = some newline := by
  rw [List.mem_idxsOf_iff_exists_getElem_pos, List.getElem?_eq_some_iff]
  simp

theorem toNat_lineFeeds (ht : t.Indexable) (hi : i < (t.idxsOf newline).length) :
    ((lineFeedsFrom 0 #[] t).getD i 0).toNat = (t.idxsOf newline)[i] := by
  have hlt := ht _ (mem_idxsOf_newline.mp (List.getElem_mem hi))
  have htable := lineFeedsFrom_eq 0 #[] t
  rw [show Nat.toUInt32 0 = 0 from rfl] at htable
  rw [htable]
  simpa [Array.getD_eq_getD_getElem?, List.getElem?_eq_getElem hi] using hlt

theorem lt_feedsBelow_iff (hi : i < (t.idxsOf newline).length) :
    i < t.feedsBelow off ↔ (t.idxsOf newline)[i] < off := by
  have hfront : (t.take off).idxsOf newline = (t.idxsOf newline).take (t.feedsBelow off) :=
    List.idxsOf_take
  constructor
  · intro hlt
    have hmem : (t.idxsOf newline)[i] ∈ (t.take off).idxsOf newline := by
      rw [hfront]
      exact List.mem_take_iff_getElem.mpr ⟨i, by omega, rfl⟩
    have hlt := List.lt_add_of_mem_idxsOf _ hmem
    rw [List.length_take] at hlt
    omega
  · intro hlt
    have hmem : (t.idxsOf newline)[i] ∈ (t.take off).idxsOf newline := by
      rw [mem_idxsOf_newline, List.getElem?_take_of_lt hlt]
      exact mem_idxsOf_newline.mp (List.getElem_mem hi)
    rw [hfront] at hmem
    obtain ⟨j, hj, heq⟩ := List.mem_take_iff_getElem.mp hmem
    have hij := (List.Nodup.getElem_inj_iff List.nodup_idxsOf).mp heq
    omega

end

-- ---------------------------------------------------------------------------
-- The search
-- ---------------------------------------------------------------------------

namespace SourceFile

variable {f : SourceFile} {off : Offset}

def Indexed (f : SourceFile) : Prop :=
  f.lineFeeds = lineFeedsFrom 0 #[] f.content ∧ f.content.Indexable

theorem Indexed.size (h : f.Indexed) : f.lineFeeds.size = (f.content.idxsOf newline).length := by
  rw [h.1, size_lineFeeds, List.length_idxsOf]

theorem Indexed.toNat_getD (h : f.Indexed) {i : Nat} (hi : i < (f.content.idxsOf newline).length) :
    (f.lineFeeds.getD i 0).toNat = (f.content.idxsOf newline)[i] := by
  rw [h.1, toNat_lineFeeds h.2 hi]

/-- Halving the table counts the line feeds below the offset. -/
theorem Indexed.bisect_eq (h : f.Indexed) (off : Offset) :
    bisect (fun i => f.lineFeeds.getD i 0 < off) 0 f.lineFeeds.size =
      f.content.feedsBelow off.toNat := by
  rw [h.size]
  refine MacroRelay.bisect_eq ?_ fun i hi => ?_
  · rw [List.length_idxsOf]
    exact (List.take_sublist _ _).count_le _
  · rw [lt_feedsBelow_iff hi, decide_eq_true_iff, UInt32.lt_iff_toNat_lt, h.toNat_getD hi]

theorem Indexed.lineStart_eq (h : f.Indexed) {last : Nat}
    (hlast : f.content.feedsBelow off.toNat = last + 1) :
    f.content.lineStart off.toNat = (f.lineFeeds.getD last 0).toNat + 1 := by
  have hinside : last < (f.content.idxsOf newline).length := by
    have hle : f.content.feedsBelow off.toNat ≤ f.content.count newline :=
      (List.take_sublist _ _).count_le _
    rw [List.length_idxsOf]
    omega
  have hbelow := (lt_feedsBelow_iff hinside).mp (Nat.lt_of_lt_of_eq (Nat.lt_succ_self last) hlast.symm)
  have hfeed := mem_idxsOf_newline.mp (List.getElem_mem hinside)
  rw [h.toNat_getD hinside]
  refine Text.lineStart_eq hbelow (.inr hfeed) fun i hi hlt hnewline => ?_
  obtain ⟨j, hj, rfl⟩ := List.getElem_of_mem (mem_idxsOf_newline.mpr hnewline)
  have hle : j ≤ last := by
    have := (lt_feedsBelow_iff hj).mpr hlt
    omega
  rcases Nat.lt_or_eq_of_le hle with hjlast | rfl
  · have := List.pairwise_iff_getElem.mp List.pairwise_idxsOf j last hj hinside hjlast
    omega
  · omega

theorem Indexed.position (h : f.Indexed) (hoff : off.toNat + 1 < 2 ^ 32) :
    (f.position off).line.toNat = 1 + f.content.feedsBelow off.toNat ∧
      (f.position off).column.toNat = off.toNat - f.content.lineStart off.toNat + 1 := by
  have hbelow := f.content.feedsBelow_le off.toNat
  have hstart := f.content.lineStart_le off.toNat
  have hone : (1 : UInt32).toNat = 1 := rfl
  have hsucc {x : UInt32} (hx : x.toNat + 1 < 2 ^ 32) : (x + 1).toNat = x.toNat + 1 := by
    rw [UInt32.toNat_add, hone, Nat.mod_eq_of_lt hx]
  simp only [SourceFile.position, h.bisect_eq]
  refine ⟨?_, ?_⟩
  · have hline : (f.content.feedsBelow off.toNat).toUInt32.toNat = f.content.feedsBelow off.toNat :=
      UInt32.toNat_ofNat_of_lt' (show _ < 2 ^ 32 by omega)
    rw [hsucc (by omega), hline, Nat.add_comm]
  · generalize hcount : f.content.feedsBelow off.toNat = count
    cases count with
    | zero =>
      rw [lineStart_eq_zero hcount, if_pos rfl, UInt32.sub_zero, hsucc hoff, Nat.sub_zero]
    | succ last =>
      have hlast := h.lineStart_eq hcount
      have hfeed : (f.lineFeeds.getD last 0 + 1).toNat = f.content.lineStart off.toNat := by
        rw [hsucc (by omega), hlast]
      have hdiff : (off - (f.lineFeeds.getD last 0 + 1)).toNat =
          off.toNat - f.content.lineStart off.toNat := by
        rw [UInt32.toNat_sub_of_le _ _ (UInt32.le_iff_toNat_le.mpr (by omega)), hfeed]
      rw [if_neg (Nat.succ_ne_zero last), Nat.add_sub_cancel, hsucc (by omega), hdiff]

end SourceFile

-- ---------------------------------------------------------------------------
-- Places of offsets
-- ---------------------------------------------------------------------------

/-- Earlier in a text: in an earlier line, or in the same line and an earlier column. -/
def LineColumn.Before (p q : LineColumn) : Prop :=
  p.line < q.line ∨ p.line = q.line ∧ p.column < q.column

theorem LineColumn.Before.ne {p q : LineColumn} (h : p.Before q) : p ≠ q := by
  rintro rfl
  rcases h with h | ⟨-, h⟩ <;> exact UInt32.lt_irrefl _ h

/-- Places are those that a scan of the text gives to the offsets, but for the very last offset, which
no column would be left for. The order of offsets is the order of places, a line feed is the last
offset of its line, and lines start at column one. -/
structure Scanned (t : Text) (place : Offset → LineColumn) : Prop where
  line : ∀ off : Offset, off.toNat + 1 < 2 ^ 32 →
    (place off).line.toNat = 1 + t.feedsBelow off.toNat
  column : ∀ off : Offset, off.toNat + 1 < 2 ^ 32 →
    (place off).column.toNat = off.toNat - t.lineStart off.toNat + 1
  increasing : ∀ a b : Offset, b.toNat + 1 < 2 ^ 32 → a < b → (place a).Before (place b)
  injective : ∀ a b : Offset, a.toNat + 1 < 2 ^ 32 → b.toNat + 1 < 2 ^ 32 → place a = place b → a = b
  endsLine : ∀ feed off : Offset, feed.toNat + 1 < 2 ^ 32 → off.toNat + 1 < 2 ^ 32 →
    t[feed.toNat]? = some newline →
    ((place off).line = (place feed).line ↔ t.lineStart feed.toNat ≤ off.toNat ∧ off ≤ feed)
  startsLine : ∀ off : Offset, off.toNat + 1 < 2 ^ 32 →
    ((place off).column = 1 ↔ off = 0 ∨ t[off.toNat - 1]? = some newline)

section
variable {t : Text} {place : Offset → LineColumn}

theorem Scanned.of_place (hplace : ∀ off : Offset, off.toNat + 1 < 2 ^ 32 →
    (place off).line.toNat = 1 + t.feedsBelow off.toNat ∧
      (place off).column.toNat = off.toNat - t.lineStart off.toNat + 1) : Scanned t place := by
  have hincreasing (a b : Offset) (hb : b.toNat + 1 < 2 ^ 32) (hab : a < b) :
      (place a).Before (place b) := by
    rw [UInt32.lt_iff_toNat_lt] at hab
    obtain ⟨hlineA, hcolumnA⟩ := hplace a (by omega)
    obtain ⟨hlineB, hcolumnB⟩ := hplace b hb
    have hmono := feedsBelow_mono (t := t) (Nat.le_of_lt hab)
    rw [LineColumn.Before, UInt32.lt_iff_toNat_lt, UInt32.lt_iff_toNat_lt, ← UInt32.toNat_inj,
      hlineA, hlineB, hcolumnA, hcolumnB]
    rcases Nat.lt_or_eq_of_le hmono with hlt | heq
    · exact .inl (by omega)
    · have hstart := (feedsBelow_eq_iff (Nat.le_of_lt hab)).mp heq
      have hsame := lineStart_eq_lineStart (Nat.le_of_lt hab) hstart
      exact .inr ⟨by omega, by omega⟩
  refine {
    line off hoff := (hplace off hoff).1
    column off hoff := (hplace off hoff).2
    increasing := hincreasing
    injective a b ha hb heq := ?_
    endsLine feed off hfeed hoff hnewline := ?_
    startsLine off hoff := ?_ }
  · rcases Nat.lt_trichotomy a.toNat b.toNat with hlt | hsame | hlt
    · exact absurd heq (hincreasing a b hb (UInt32.lt_iff_toNat_lt.mpr hlt)).ne
    · exact UInt32.toNat_inj.mp hsame
    · exact absurd heq.symm (hincreasing b a ha (UInt32.lt_iff_toNat_lt.mpr hlt)).ne
  · rw [← UInt32.toNat_inj, (hplace off hoff).1, (hplace feed hfeed).1, UInt32.le_iff_toNat_le,
      Nat.add_left_cancel_iff]
    rcases Nat.lt_or_ge feed.toNat off.toNat with hlt | hle
    · -- the line feed is passed
      have hmono := feedsBelow_mono (t := t) (Nat.succ_le_of_lt hlt)
      rw [Nat.succ_eq_add_one, feedsBelow_succ, if_pos hnewline] at hmono
      omega
    · rw [feedsBelow_eq_iff hle]
      exact (and_iff_left hle).symm
  · have hle := t.lineStart_le off.toNat
    rw [← UInt32.toNat_inj, ← UInt32.toNat_inj, (hplace off hoff).2]
    refine Iff.trans ?_ lineStart_eq_self_iff
    change _ = 1 ↔ _
    omega

end

/-- In every file of every set, offsets have the places that a scan of the text gives them. -/
theorem FileSet.position_scanned {es : List FileSet.Edit} {id : FileId} {f : SourceFile}
    (hget : (FileSet.empty.edits es).1.get? id = some f) (hfeeds : f.content.Indexable) :
    Scanned f.content f.position := by
  rw [(FileSet.lists_edits es).get?, Option.map_eq_some_iff] at hget
  obtain ⟨a, -, rfl⟩ := hget
  exact .of_place fun off hoff => SourceFile.Indexed.position ⟨rfl, hfeeds⟩ hoff

/-- A file with an empty line in the middle. -/
def gapped : SourceFile := FileSet.Addition.file 0 ⟨"a", "x\n\ny", 0⟩

theorem FileSet.position_scanned_gapped :
    (FileSet.empty.edits [.add "a" "x\n\ny" 0]).1.get? 0 = some gapped ∧ gapped.content.Indexable ∧
      (gapped.position 2).line.toNat = 2 ∧ (gapped.position 2).column.toNat = 1 ∧
      (gapped.position 9).line.toNat = 3 ∧ (gapped.position 9).column.toNat = 7 := by
  have hget : (FileSet.empty.edits [.add "a" "x\n\ny" 0]).1.get? 0 = some gapped := rfl
  have hfeeds : gapped.content.Indexable := .of_length_le (by decide)
  have h := FileSet.position_scanned hget hfeeds
  refine ⟨hget, hfeeds, ?_, ?_, ?_, ?_⟩
  · exact (h.line 2 (by decide)).trans (by decide)
  · exact (h.column 2 (by decide)).trans (by decide)
  · exact (h.line 9 (by decide)).trans (by decide)
  · exact (h.column 9 (by decide)).trans (by decide)

end MacroRelay
