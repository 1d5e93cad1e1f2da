import MacroRelay.Proofs.Token.Grammar

/-!
# The words of a text

A reader of tokens sees their kinds and texts, and not how they are spaced. Blanks, line feeds and
comments that end with their line may stand between any two words. Some punctuation needs no space behind
it, and an identifier needs none in front of such punctuation.
-/

namespace MacroRelay

abbrev Word := TokenKind × Text

abbrev Word.ident (w : Text) : Word := (.ident, w)

abbrev Word.mark (m : Text) : Word := (.punct, m)

def Token.word (t : Token) : Word := (t.kind, t.text)

namespace Lexer

theorem isIdentContinue_of_isBlank {b : UInt8} (h : isBlank b) : isIdentContinue b = false := by
  simp only [isBlank, Bool.or_eq_true, beq_iff_eq] at h
  rcases h with (rfl | rfl) | rfl <;> decide

theorem trivia?_of_plain {b : UInt8} (hblank : isBlank b = false) (hline : b ≠ Text.newline)
    (hslash : b ≠ 0x2F) (rest : Text) : trivia? b rest = none := by
  rw [trivia?, hblank, if_neg Bool.false_ne_true, if_neg hline, if_neg fun h => hslash h.1]

theorem trivia?_of_isIdentStart {b : UInt8} (h : isIdentStart b) (rest : Text) : trivia? b rest = none := by
  refine trivia?_of_plain (Bool.eq_false_iff.mpr fun hblank => ?_) ?_ ?_ rest
  · have hnot := isIdentContinue_of_isBlank hblank
    rw [isIdentContinue, h] at hnot
    cases hnot
  · rintro rfl
    exact absurd h (by decide)
  · rintro rfl
    exact absurd h (by decide)

end Lexer

namespace Lexeme

def word? : Lexeme → Option Word
  | .trivia .. => none
  | .token kind text => some (kind, text)

end Lexeme

namespace Text

def words (t : Text) : List Word := (Lexeme.scan t).filterMap Lexeme.word?

/-- What may stand between words. -/
inductive Gap : Text → Prop
  | nil : Gap []
  | blank : Lexer.isBlank b → Gap t → Gap (b :: t)
  | newline : Gap t → Gap (Text.newline :: t)
  | comment : Text.newline ∉ line → Gap t → Gap (0x2F :: 0x2F :: (line ++ Text.newline :: t))

def spaced (row : List (Text × Word)) : Text :=
  row.flatMap fun (gap, word) => gap ++ word.2

structure IsIdent (w : Text) : Prop where
  start : ∃ b ∈ w.head?, Lexer.isIdentStart b
  all : ∀ b ∈ w, Lexer.isIdentContinue b

/-- Punctuation that nothing behind it makes longer. -/
def marks : List Text := ["#", "[", "(", ")", "]", ",", "::"]

/-- Every identifier has a mark behind it. -/
inductive Parted : List Word → Prop
  | nil : Parted []
  | mark : m ∈ marks → Parted ws → Parted (.mark m :: ws)
  | ident : IsIdent w → m ∈ marks → Parted ws → Parted (.ident w :: .mark m :: ws)

variable {b : UInt8} {t rest gap w m : Text} {kind : TokenKind}

-- ---------------------------------------------------------------------------
-- Gaps
-- ---------------------------------------------------------------------------

theorem words_of_trivia {kind : TriviaKind} {n : Nat} (h : Lexer.trivia? b rest = some (kind, n)) :
    words (b :: rest) = words (rest.drop n) := by
  rw [words, Lexeme.scan_cons, Lexeme.front, h]
  rfl

theorem words_of_run {p : UInt8 → Bool} {kind : TriviaKind}
    (hp : ∀ b rest, p b → Lexer.trivia? b rest = some (kind, Lexer.run p rest)) (hb : p b) (rest : Text) :
    words (b :: rest) = words rest := by
  rw [words_of_trivia (hp b rest hb)]
  cases rest with
  | nil => rfl
  | cons c rest =>
    rw [Lexer.run_cons]
    split
    · -- the rest of the run is a run itself
      rename_i hc
      rw [List.drop_succ_cons, words_of_trivia (hp c rest hc)]
    · rfl

theorem words_blank (hb : Lexer.isBlank b) (rest : Text) : words (b :: rest) = words rest :=
  words_of_run (fun b rest hb => by rw [Lexer.trivia?, if_pos hb]) hb rest

theorem words_newline (rest : Text) : words (Text.newline :: rest) = words rest := by
  have hrun (b : UInt8) (rest : Text) (hb : b == Text.newline) :
      Lexer.trivia? b rest = some (.newline, Lexer.run (· == Text.newline) rest) := by
    obtain rfl := beq_iff_eq.mp hb
    rw [Lexer.trivia?, if_neg (by decide), if_pos rfl]
  exact words_of_run hrun (beq_self_eq_true _) rest

theorem words_comment {line : Text} (h : Text.newline ∉ line) (rest : Text) :
    words (0x2F :: 0x2F :: (line ++ Text.newline :: rest)) = words rest := by
  have hline : Lexer.Longest (· != Text.newline) (0x2F :: 0x2F :: line) (Text.newline :: rest) := by
    have hall : ∀ b ∈ 0x2F :: 0x2F :: line, (b != Text.newline) = true :=
      List.forall_mem_cons.mpr ⟨by decide, List.forall_mem_cons.mpr ⟨by decide, fun b hb =>
        bne_iff_ne.mpr fun heq => h (heq ▸ hb)⟩⟩
    rw [Lexer.longest_iff, List.takeWhile_append_of_pos hall]
    simp
  have htrivia := Lexer.block_iff.mp (Lexer.Block.lineComment hline)
  rw [List.cons_append] at htrivia
  rw [words_of_trivia htrivia, ← List.cons_append, List.drop_left, words_newline]

theorem words_gap (h : Gap gap) (rest : Text) : words (gap ++ rest) = words rest := by
  induction h with
  | nil => rfl
  | blank hb _ ih => rw [List.cons_append, words_blank hb, ih]
  | newline _ ih => rw [List.cons_append, words_newline, ih]
  | comment hline _ ih =>
    rw [List.cons_append, List.cons_append, List.append_assoc, List.cons_append, words_comment hline, ih]

-- ---------------------------------------------------------------------------
-- Words
-- ---------------------------------------------------------------------------

theorem words_of_rule (hnone : Lexer.trivia? b (t ++ rest) = none) (h : Lexer.Rule kind (b :: t) rest) :
    words (b :: t ++ rest) = (kind, b :: t) :: words rest := by
  rw [words, List.cons_append, Lexeme.scan_cons, Lexeme.front, hnone, Lexer.rule_iff.mp h]
  simp only [List.take_left, List.drop_left]
  rfl

theorem marks_spec : ∀ m ∈ marks, m ≠ [] ∧
    (m ∈ Lexer.operators ∨ m.length = 1 ∧ ∀ op ∈ Lexer.operators, op.head? ≠ m.head?) ∧
    ∀ b ∈ m.head?, Lexer.isBlank b = false ∧ b ≠ Text.newline ∧ b ≠ 0x2F ∧
      Lexer.isIdentContinue b = false ∧ Lexer.isQuote b = false ∧ 0x20 ≤ b ∧ b ≤ 0x7E := by
  decide +kernel

theorem words_mark (hm : m ∈ marks) (rest : Text) : words (m ++ rest) = .mark m :: words rest := by
  obtain ⟨hne, hkind, hhead⟩ := marks_spec m hm
  obtain ⟨b, t, rfl⟩ := List.exists_cons_of_ne_nil hne
  obtain ⟨hblank, hline, hslash, hword, hquote, hlow, hhigh⟩ := hhead b rfl
  refine words_of_rule (Lexer.trivia?_of_plain hblank hline hslash _) ?_
  rcases hkind with hop | ⟨hlength, hnone⟩
  · exact .operator hop
  · obtain rfl := List.length_eq_zero_iff.mp (Nat.succ.inj hlength)
    refine .punct ⟨hword, hquote, fun op hop hfront => ?_⟩ hlow hhigh
    obtain ⟨c, op, rfl⟩ := List.exists_cons_of_length_pos
      (by rw [(Lexer.operators_spec op hop).1]; decide : 0 < op.length)
    exact hnone _ hop (congrArg some (List.cons_prefix_cons.mp hfront).1)

theorem head_gap_mark (hgap : Gap gap) (hm : m ∈ marks) (rest : Text) :
    ∃ b more, gap ++ (m ++ rest) = b :: more ∧ Lexer.isIdentContinue b = false := by
  cases hgap with
  | nil =>
    obtain ⟨hne, -, hhead⟩ := marks_spec m hm
    obtain ⟨b, t, rfl⟩ := List.exists_cons_of_ne_nil hne
    exact ⟨b, t ++ rest, rfl, (hhead b rfl).2.2.2.1⟩
  | blank hb => exact ⟨_, _, rfl, Lexer.isIdentContinue_of_isBlank hb⟩
  | newline => exact ⟨_, _, rfl, by decide⟩
  | comment => exact ⟨_, _, rfl, by decide⟩

theorem IsIdent.ne_nil (h : IsIdent w) : w ≠ [] := by
  rintro rfl
  obtain ⟨⟨b, hb, -⟩, -⟩ := h
  cases hb

theorem words_ident (hw : IsIdent w) {more : Text} (hb : Lexer.isIdentContinue b = false) :
    words (w ++ b :: more) = .ident w :: words (b :: more) := by
  obtain ⟨⟨c, hc, hstart⟩, hall⟩ := hw
  obtain ⟨t, rfl⟩ := List.head?_eq_some_iff.mp hc
  have hlongest : Lexer.Longest Lexer.isIdentContinue (c :: t) (b :: more) := by
    rw [Lexer.longest_iff, List.takeWhile_append_of_pos hall, List.takeWhile_cons_of_neg (by simp [hb]),
      List.append_nil]
  exact words_of_rule (Lexer.trivia?_of_isIdentStart hstart _) (.ident hstart hlongest)

theorem spaced_cons (gap : Text) (word : Word) (row : List (Text × Word)) :
    spaced ((gap, word) :: row) = gap ++ (word.2 ++ spaced row) := by
  rw [spaced, List.flatMap_cons, List.append_assoc]
  rfl

/-- Spacing does not change words, as long as identifiers are parted. -/
theorem words_spaced {row : List (Text × Word)} (hgaps : ∀ gap ∈ row.map (·.1), Gap gap)
    (hwords : Parted (row.map (·.2))) (rest : Text) :
    words (spaced row ++ rest) = row.map (·.2) ++ words rest := by
  generalize hws : row.map (·.2) = ws at hwords ⊢
  induction hwords generalizing row with
  | nil =>
    obtain rfl := List.map_eq_nil_iff.mp hws
    rfl
  | mark hm _ ih =>
    obtain ⟨⟨gap, -⟩, row, rfl, rfl, rfl⟩ := List.map_eq_cons_iff.mp hws
    obtain ⟨hgap, hgaps⟩ := List.forall_mem_cons.mp hgaps
    rw [spaced_cons, List.append_assoc, List.append_assoc, words_gap hgap, words_mark hm, ih hgaps rfl]
    rfl
  | ident hw hm _ ih =>
    obtain ⟨⟨gap, -⟩, next, rfl, rfl, hnext⟩ := List.map_eq_cons_iff.mp hws
    obtain ⟨⟨gap', -⟩, row, rfl, rfl, rfl⟩ := List.map_eq_cons_iff.mp hnext
    obtain ⟨hgap, hgaps⟩ := List.forall_mem_cons.mp hgaps
    obtain ⟨hgap', hgaps⟩ := List.forall_mem_cons.mp hgaps
    -- the words behind the identifier, and the byte that ends it
    have hmark := words_mark hm (spaced row ++ rest)
    rw [ih hgaps rfl, ← words_gap hgap'] at hmark
    obtain ⟨b, more, hmore, hb⟩ := head_gap_mark hgap' hm (spaced row ++ rest)
    rw [spaced_cons, spaced_cons]
    simp only [List.append_assoc]
    rw [words_gap hgap, hmore, words_ident hw hb, ← hmore, hmark]
    rfl

end Text

end MacroRelay
