import MacroRelay.Expansion.Stream
import MacroRelay.Proofs.Token.Relexing
import MacroRelay.Text.Utf8
import Mathlib.Data.List.TakeWhile

/-!
# Characters in tokens

A byte below 0x80 is a character of its own, so a well-formed text may be cut on either side of one.
Lexemes end there, or where the text ends. The exception are bytes from 0x80 on outside literals and
comments: each of them is an invalid token alone.
-/

namespace MacroRelay

-- ---------------------------------------------------------------------------
-- Well-formed text
-- ---------------------------------------------------------------------------

namespace Utf8

def State.Sound (s : State) : Prop :=
  ∀ low high more, s = .inside low high more → 0x80 ≤ low

variable {s s' : State} {b : UInt8} {t t' : Text}

theorem State.sound_boundary : State.boundary.Sound := by
  rintro low high more ⟨⟩

theorem State.sound_inside {low high : UInt8} {more : Nat} (h : 0x80 ≤ low) :
    (State.inside low high more).Sound := by
  rintro _ _ _ ⟨⟩
  exact h

theorem State.step_sound (h : s.step b = some s') : s'.Sound := by
  cases s with
  | boundary =>
    simp only [step] at h
    repeat' split at h
    all_goals cases h
    · exact sound_boundary
    all_goals exact sound_inside (by decide)
  | inside low high more =>
    simp only [step] at h
    split at h
    · cases more with
      | zero =>
        cases h
        exact sound_boundary
      | succ more =>
        cases h
        exact sound_inside (by decide)
    · cases h

theorem State.step_ascii (hs : s.Sound) (hb : b < 0x80) (h : s.step b = some s') :
    s = .boundary ∧ s' = .boundary := by
  cases s with
  | boundary =>
    rw [step, if_pos hb] at h
    exact ⟨rfl, (Option.some.inj h).symm⟩
  | inside low high more =>
    simp only [step] at h
    split at h
    · rename_i hrange
      have hlow := hs low high more rfl
      exact absurd (UInt8.lt_of_lt_of_le hb (UInt8.le_trans hlow hrange.1)) (UInt8.lt_irrefl b)
    · cases h

theorem State.run_cons : s.run (b :: t) = (s.step b).bind (·.run t) := rfl

theorem State.run_append : s.run (t ++ t') = (s.run t).bind (·.run t') :=
  List.foldlM_append

theorem State.run_sound (hs : s.Sound) (h : s.run t = some s') : s'.Sound := by
  induction t generalizing s with
  | nil =>
    obtain rfl : s = s' := Option.some.inj h
    exact hs
  | cons b t ih =>
    rw [run_cons, Option.bind_eq_some_iff] at h
    obtain ⟨next, hstep, hrun⟩ := h
    exact ih (step_sound hstep) hrun

theorem valid_iff : valid t ↔ State.boundary.run t = some .boundary := by
  rw [valid, beq_iff_eq]

theorem run_ascii (hb : b < 0x80) (h : State.boundary.run (t ++ b :: t') = some .boundary) :
    valid t ∧ valid t' := by
  rw [State.run_append, Option.bind_eq_some_iff] at h
  obtain ⟨before, hbefore, hrest⟩ := h
  rw [State.run_cons, Option.bind_eq_some_iff] at hrest
  obtain ⟨after, hstep, hafter⟩ := hrest
  obtain ⟨rfl, rfl⟩ := State.step_ascii (State.run_sound State.sound_boundary hbefore) hb hstep
  exact ⟨valid_iff.mpr hbefore, valid_iff.mpr hafter⟩

theorem valid_append (h : valid t) (h' : valid t') : valid (t ++ t') := by
  rw [valid_iff] at h h' ⊢
  rw [State.run_append, h, Option.bind_some, h']

theorem valid_ascii (hb : b < 0x80) : valid [b] := by
  rw [valid_iff, State.run_cons, State.step, if_pos hb]
  rfl

theorem not_valid_high (hb : 0x80 ≤ b) : ¬ valid [b] := by
  intro h
  rw [valid_iff, State.run_cons, Option.bind_eq_some_iff] at h
  obtain ⟨next, hstep, hnext⟩ := h
  obtain rfl : next = .boundary := Option.some.inj hnext
  simp only [State.step, UInt8.not_lt.mpr hb, if_false] at hstep
  repeat' split at hstep
  all_goals cases hstep

/-- Cut behind `n` bytes, on one side of a character of one byte or at the end. -/
inductive Cut (t : Text) (n : Nat) : Prop
  | atEnd : t.drop n = [] → Cut t n
  | before (b : UInt8) (rest : Text) : t.drop n = b :: rest → b < 0x80 → Cut t n
  | behind (front : Text) (b : UInt8) : t.take n = front ++ [b] → b < 0x80 → Cut t n

theorem Cut.cons {n : Nat} (h : Cut t n) (b : UInt8) : Cut (b :: t) (n + 1) := by
  cases h with
  | atEnd hend => exact .atEnd hend
  | before c rest hdrop hc => exact .before c rest hdrop hc
  | behind front c htake hc =>
    exact .behind (b :: front) c (by rw [List.take_succ_cons, htake, List.cons_append]) hc

theorem Cut.valid {n : Nat} (h : Cut t n) (ht : valid t) :
    valid (t.take n) ∧ valid (t.drop n) := by
  have hrun := valid_iff.mp ht
  rw [← List.take_append_drop n t] at hrun
  cases h with
  | atEnd hend =>
    rw [hend, List.append_nil] at hrun
    rw [hend]
    exact ⟨valid_iff.mpr hrun, rfl⟩
  | before b rest hdrop hb =>
    rw [hdrop] at hrun ⊢
    obtain ⟨hbefore, hafter⟩ := run_ascii hb hrun
    exact ⟨hbefore, valid_append (valid_ascii hb) hafter⟩
  | behind front b htake hb =>
    rw [htake, List.append_assoc, List.singleton_append] at hrun
    rw [htake]
    obtain ⟨hbefore, hafter⟩ := run_ascii hb hrun
    exact ⟨valid_append hbefore (valid_ascii hb), hafter⟩

end Utf8

-- ---------------------------------------------------------------------------
-- Where lexemes end
-- ---------------------------------------------------------------------------

namespace Lexer

open Utf8 (Cut)

variable {b : UInt8} {rest : Text}

theorem take_run (p : UInt8 → Bool) (rest : Text) : rest.take (run p rest) = rest.takeWhile p :=
  (List.prefix_iff_eq_take.mp (List.takeWhile_prefix p)).symm

theorem cut_run_ascii {p : UInt8 → Bool} (hp : ∀ c, p c → c < 0x80) (hb : b < 0x80) (rest : Text) :
    Cut (b :: rest) (run p rest + 1) := by
  have hall : ∀ c ∈ b :: rest.takeWhile p, c < 0x80 := by
    rintro c (_ | ⟨_, hc⟩)
    · exact hb
    · exact hp c (List.mem_takeWhile_imp hc)
  have hlast := List.dropLast_append_getLast (List.cons_ne_nil b (rest.takeWhile p))
  refine .behind (b :: rest.takeWhile p).dropLast _ ?_
    (hall _ (List.getLast_mem (List.cons_ne_nil b (rest.takeWhile p))))
  rw [hlast, List.take_succ_cons, take_run]

theorem cut_run_line (rest : Text) : Cut rest (run (· != Text.newline) rest) := by
  induction rest with
  | nil => exact .atEnd rfl
  | cons b rest ih =>
    rw [run_cons]
    split
    · exact ih.cons b
    · rename_i hline
      have hb : b = Text.newline := by simpa using hline
      exact .before b rest rfl (hb ▸ (by decide : Text.newline < 0x80))

/-- A literal ends behind its quote, in front of a line feed or with the text, also if a backslash
took the first byte of a character. -/
theorem literal_cut {quote : UInt8} (hquote : quote < 0x80) (taken : Nat) (t : Text) :
    ∃ n, (literal quote taken t).2 = taken + n ∧ Cut t n := by
  fun_induction literal quote taken t with
  | case1 taken => exact ⟨0, rfl, .atEnd rfl⟩
  | case2 taken => exact ⟨1, rfl, .atEnd rfl⟩
  | case3 taken c rest ih =>
    obtain ⟨n, hn, hcut⟩ := ih
    exact ⟨n + 2, by omega, (hcut.cons c).cons _⟩
  | case4 taken rest => exact ⟨1, rfl, .behind [] quote rfl hquote⟩
  | case5 taken rest =>
    exact ⟨0, rfl, .before Text.newline rest rfl (by decide)⟩
  | case6 taken b rest _ _ _ ih =>
    obtain ⟨n, hn, hcut⟩ := ih
    exact ⟨n + 1, by omega, hcut.cons b⟩

theorem isBlank_ascii {c : UInt8} (h : isBlank c) : c < 0x80 := by
  simp only [isBlank, Bool.or_eq_true, beq_iff_eq] at h
  rcases h with (rfl | rfl) | rfl <;> decide

theorem isIdentContinue_ascii {c : UInt8} (h : isIdentContinue c) : c < 0x80 := by
  simp only [isIdentContinue, isIdentStart, Text.isLower, Text.isUpper, Text.isDigit,
    Bool.or_eq_true, Bool.and_eq_true, beq_iff_eq, decide_eq_true_eq] at h
  rcases h with ((rfl | h) | h) | h
  · decide
  all_goals exact UInt8.lt_of_le_of_lt h.2 (by decide)

theorem trivia_cut {kind : TriviaKind} {extra : Nat} (h : trivia? b rest = some (kind, extra)) :
    Cut (b :: rest) (extra + 1) := by
  unfold trivia? at h
  split at h
  · rename_i hblank
    cases h
    exact cut_run_ascii (fun _ => isBlank_ascii) (isBlank_ascii hblank) rest
  · split at h
    · rename_i hline
      cases h
      refine cut_run_ascii (fun c hc => ?_) (hline ▸ by decide) rest
      exact beq_iff_eq.mp hc ▸ (by decide : Text.newline < 0x80)
    · split at h
      · cases h
        exact (cut_run_line rest).cons b
      · cases h

theorem token_cut (hb : b < 0x80) : Cut (b :: rest) ((token b rest).2 + 1) := by
  obtain ⟨found, hfound⟩ : ∃ found, token b rest = found := ⟨_, rfl⟩
  rw [hfound]
  cases token_eq_iff.mp hfound with
  | ident | number => exact cut_run_ascii (fun _ => isIdentContinue_ascii) hb rest
  | literal _ _ hquote =>
    obtain ⟨n, hn, hcut⟩ := literal_cut hb 0 rest
    rw [hn, Nat.zero_add]
    exact hcut.cons b
  | operator _ _ _ hoperator =>
    have hascii : ∀ op ∈ operators, ∀ c ∈ op, c < 0x80 := by decide +kernel
    have hmem := List.contains_iff_mem.mp hoperator
    cases rest with
    | nil => exact .atEnd rfl
    | cons c rest => exact .behind [b] c rfl (hascii _ hmem c (by simp))
  | single => exact .behind [] b rfl hb

theorem front_of_high (hb : 0x80 ≤ b) (rest : Text) :
    Lexeme.front b rest = (.token .invalid [b], 0) := by
  have hnone {p : UInt8 → Bool} (hp : ∀ c, p c → c < 0x80) : p b = false :=
    Bool.eq_false_iff.mpr fun h => UInt8.not_lt.mpr hb (hp b h)
  have hne {c : UInt8} (hc : c < 0x80) : b ≠ c := by
    rintro rfl
    exact UInt8.not_lt.mpr hb hc
  have hcontinue : isIdentContinue b = false := hnone fun _ => isIdentContinue_ascii
  obtain ⟨hident, hdigit⟩ := Bool.or_eq_false_iff.mp hcontinue
  have hquote : isQuote b = false := by
    refine hnone fun c hc => ?_
    simp only [isQuote, Bool.or_eq_true, beq_iff_eq] at hc
    rcases hc with rfl | rfl <;> decide
  have hoperator : operators.contains (b :: rest.take 1) = false := by
    have hascii : ∀ op ∈ operators, ∀ c ∈ op.head?, c < 0x80 := by decide +kernel
    rw [List.contains_eq_mem]
    exact decide_eq_false fun hop => UInt8.not_lt.mpr hb (hascii _ hop b rfl)
  have htrivia : trivia? b rest = none := by
    rw [trivia?, hnone fun _ => isBlank_ascii, if_neg Bool.false_ne_true,
      if_neg (hne (by decide)), if_neg fun h => hne (by decide) h.1]
  have htoken : token b rest = (singleKind b, 0) :=
    token_eq_iff.mpr (.single hident hdigit hquote hoperator)
  have hkind : singleKind b = .invalid := by
    have hlow : (0x7F : UInt8) ≤ b := UInt8.le_trans (by decide) hb
    simp [singleKind, hlow]
  rw [Lexeme.front, htrivia, htoken, hkind]
  rfl

end Lexer

-- ---------------------------------------------------------------------------
-- Lexemes and tokens
-- ---------------------------------------------------------------------------

namespace Lexeme

/-- Of well-formed text, or a byte outside ASCII alone. -/
def Whole (l : Lexeme) : Prop :=
  Utf8.valid l.text ∨ ∃ b : UInt8, 0x80 ≤ b ∧ l = .token .invalid [b]

theorem front_cut {b : UInt8} (hb : b < 0x80) (rest : Text) :
    Utf8.Cut (b :: rest) ((front b rest).2 + 1) := by
  unfold front
  split
  · rename_i htrivia
    exact Lexer.trivia_cut htrivia
  · exact Lexer.token_cut hb

theorem whole_of_mem_scan {t : Text} {s : Utf8.State} (hs : s.Sound)
    (ht : s.run t = some .boundary) {l : Lexeme} (hl : l ∈ scan t) : l.Whole := by
  induction t using scan_induction generalizing s with
  | nil => simp at hl
  | cons b rest ih =>
    rw [scan_cons, List.mem_cons] at hl
    rw [Utf8.State.run_cons, Option.bind_eq_some_iff] at ht
    obtain ⟨next, hstep, hrest⟩ := ht
    by_cases hb : b < 0x80
    · obtain ⟨rfl, rfl⟩ := Utf8.State.step_ascii hs hb hstep
      have hvalid : Utf8.valid (b :: rest) := by
        rw [Utf8.valid_iff, Utf8.State.run_cons, hstep]
        exact hrest
      obtain ⟨hfront, hbehind⟩ := (front_cut hb rest).valid hvalid
      rcases hl with rfl | hl
      · left
        rwa [front_text, ← List.take_succ_cons]
      · exact ih Utf8.State.sound_boundary (Utf8.valid_iff.mp hbehind) hl
    · rw [UInt8.not_lt] at hb
      rw [Lexer.front_of_high hb] at hl ih
      rcases hl with rfl | hl
      · exact .inr ⟨b, hb, rfl⟩
      · exact ih (Utf8.State.step_sound hstep) hrest hl

end Lexeme

namespace Token

variable {file : FileId} {base : Offset} {text : Text}

def IsStray (t : Token) : Prop :=
  t.kind = .invalid ∧ ∃ b : UInt8, 0x80 ≤ b ∧ t.text = [b]

theorem trivia_valid (h : Utf8.valid text) {t : Token} (ht : t ∈ lex file base text) {v : Trivia}
    (hv : v ∈ t.leading) : Utf8.valid v.text := by
  have hmem := trivia_mem_scan ht hv
  rcases Lexeme.whole_of_mem_scan Utf8.State.sound_boundary (Utf8.valid_iff.mp h) hmem with
    hvalid | ⟨b, -, hb⟩
  · exact hvalid
  · cases hb

theorem not_valid_iff (h : Utf8.valid text) {t : Token} (ht : t ∈ lex file base text) :
    ¬ Utf8.valid t.text ↔ t.IsStray := by
  constructor
  · intro hnot
    rcases eof_or_mem_scan ht with ⟨htext, -⟩ | hmem
    · exact absurd (htext ▸ rfl) hnot
    · rcases Lexeme.whole_of_mem_scan Utf8.State.sound_boundary (Utf8.valid_iff.mp h) hmem with
        hvalid | ⟨b, hb, heq⟩
      · exact absurd hvalid hnot
      · obtain ⟨hkind, htext⟩ := Lexeme.token.inj heq
        exact ⟨hkind, b, hb, htext⟩
  · rintro ⟨-, b, hb, htext⟩
    rw [htext]
    exact Utf8.not_valid_high hb

theorem content_valid (h : Utf8.valid text) {n : Node} (hn : n.tokens ⊆ lex file base text)
    (files : Option FileSet) (edition : Text) {s : Gen2.StreamToken}
    (hs : s ∈ (Gen2.Stream.ofNode files n edition).tokens.items) :
    Utf8.valid s.content ∨ ∃ t ∈ n.tokens, t.IsStray ∧ s.content = t.text := by
  obtain ⟨t, ht, hs⟩ := List.mem_flatMap.mp hs
  rcases List.mem_append.mp hs with hs | hs
  · obtain ⟨v, hv, rfl⟩ := List.mem_map.mp hs
    exact .inl (trivia_valid h (hn ht) hv)
  · split at hs
    · cases hs
    · obtain rfl := List.mem_singleton.mp hs
      by_cases hvalid : Utf8.valid t.text
      · exact .inl hvalid
      · exact .inr ⟨t, ht, (not_valid_iff h (hn ht)).mp hvalid, rfl⟩

/-- In well-formed text every piece of trivia is well-formed, and so is every token but the bytes
outside ASCII that stand outside literals and comments. Each of those is an invalid token, and it is
the only way to a stream token that is not well-formed. -/
theorem lex_whole (h : Utf8.valid text) (file : FileId) (base : Offset) :
    (∀ t ∈ lex file base text,
      (∀ v ∈ t.leading, Utf8.valid v.text) ∧ (¬ Utf8.valid t.text ↔ t.IsStray)) ∧
    ∀ (n : Node) (files : Option FileSet) (edition : Text), n.tokens ⊆ lex file base text →
      ∀ s ∈ (Gen2.Stream.ofNode files n edition).tokens.items,
        Utf8.valid s.content ∨ ∃ t ∈ n.tokens, t.IsStray ∧ s.content = t.text :=
  ⟨fun _ ht => ⟨fun _ hv => trivia_valid h ht hv, not_valid_iff h ht⟩,
    fun _ files edition hn _ hs => content_valid h hn files edition hs⟩

/-- A character outside ASCII in a comment, in a literal behind a backslash, and alone. -/
def accented : Text := "// é\n'\\é' é"

theorem lex_whole_accented : Utf8.valid accented ∧
    (∀ t ∈ lex 0 0 accented, ¬ Utf8.valid t.text ↔ t.IsStray) ∧
    (lex 0 0 accented).map (fun t => (t.leading.map (·.text), t.text)) =
      [([Text.ofString "// é", "\n"], Text.ofString "'\\é'"), ([Text.ofString " "], [0xC3]),
        ([], [0xA9]), ([], [])] := by
  have hvalid : Utf8.valid accented := by decide +kernel
  exact ⟨hvalid, fun t ht => ((lex_whole hvalid 0 0).1 t ht).2, by decide +kernel⟩

/-- A character alone is cut into its bytes, so not every token of well-formed text is well-formed. -/
theorem lex_splits_characters : Utf8.valid "é" ∧ (lex 0 0 "é").map (·.text) = [[0xC3], [0xA9], []] ∧
    ∃ t ∈ lex 0 0 "é", ¬ Utf8.valid t.text := by
  have htexts : (lex 0 0 "é").map (·.text) = [[0xC3], [0xA9], []] := by decide +kernel
  have hmem : [0xC3] ∈ (lex 0 0 "é").map (·.text) := by
    rw [htexts]
    exact List.mem_cons_self
  obtain ⟨t, ht, htext⟩ := List.mem_map.mp hmem
  refine ⟨by decide, htexts, t, ht, ?_⟩
  rw [htext]
  exact Utf8.not_valid_high (by decide)

end Token

end MacroRelay
