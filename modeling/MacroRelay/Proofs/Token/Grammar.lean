import MacroRelay.Proofs.Token.Relexing
import Mathlib.Data.List.TakeWhile

/-!
# The grammar of tokens

Which texts are trivia, which are tokens, and how far each of them goes. At every place the rules
allow one token at most, and of one length only; it is the one that the lexer takes.
-/

namespace MacroRelay

namespace Lexer

-- ---------------------------------------------------------------------------
-- Rules
-- ---------------------------------------------------------------------------

/-- Bytes of one class, as many as there are in front of `t ++ rest`. -/
structure Longest (p : UInt8 → Bool) (t rest : Text) : Prop where
  all : ∀ b ∈ t, p b
  longest : ∀ s, s <+: t ++ rest → (∀ b ∈ s, p b) → s.length ≤ t.length

/-- A block of trivia in front of the rest. -/
inductive Block : TriviaKind → Text → Text → Prop
  | space : Longest isBlank (b :: t) rest → Block .space (b :: t) rest
  | newline : Longest (· == Text.newline) (b :: t) rest → Block .newline (b :: t) rest
  | lineComment : Longest (· != Text.newline) (0x2F :: 0x2F :: t) rest →
    Block .lineComment (0x2F :: 0x2F :: t) rest

def NoBlock (t : Text) : Prop :=
  ∀ kind block rest, block ++ rest = t → ¬ Block kind block rest

/-- Blocks one behind the other, until none starts. -/
inductive Blocks : List (TriviaKind × Text) → Text → Prop
  | nil : NoBlock rest → Blocks [] rest
  | cons : Block kind t (blocks.flatMap (·.2) ++ rest) → Blocks blocks rest →
    Blocks ((kind, t) :: blocks) rest

/-- What may stand between two quotes: a backslash takes the next byte with it, and without one
there is no quote of the same kind and no line feed. -/
inductive Body (quote : UInt8) : Text → Prop
  | nil : Body quote []
  | plain : b ≠ quote → b ≠ 0x5C → b ≠ Text.newline → Body quote t → Body quote (b :: t)
  | escape : Body quote t → Body quote (0x5C :: b :: t)

/-- What stands behind a quote that nothing closes: all up to the first line feed that is not
escaped, or to the end of the text, where a backslash may have nothing to take with it. -/
inductive Unclosed (quote : UInt8) : Text → Text → Prop
  | line : Body quote t → Unclosed quote t (Text.newline :: rest)
  | text : Body quote t → Unclosed quote t []
  | escape : Body quote t → Unclosed quote (t ++ [0x5C]) []

/-- Neither a word nor a literal starts here, and no operator. -/
structure Alone (b : UInt8) (rest : Text) : Prop where
  word : isIdentContinue b = false
  quote : isQuote b = false
  operator : ∀ op ∈ operators, ¬ op <+: b :: rest

/-- A token in front of the rest, where no trivia starts. -/
inductive Rule : TokenKind → Text → Text → Prop
  | ident : isIdentStart b → Longest isIdentContinue (b :: t) rest → Rule .ident (b :: t) rest
  | number : Text.isDigit b → Longest isIdentContinue (b :: t) rest → Rule .number (b :: t) rest
  | string : isQuote quote → Body quote t → Rule .string (quote :: (t ++ [quote])) rest
  | unclosed : isQuote quote → Unclosed quote t rest → Rule .invalid (quote :: t) rest
  | operator : op ∈ operators → Rule .punct op rest
  | punct : Alone b rest → 0x20 ≤ b → b ≤ 0x7E → Rule .punct [b] rest
  | stray : Alone b rest → b < 0x20 ∨ 0x7E < b → Rule .invalid [b] rest

variable {p : UInt8 → Bool} {quote b : UInt8} {t body rest more : Text}

-- ---------------------------------------------------------------------------
-- Runs
-- ---------------------------------------------------------------------------

theorem longest_iff : Longest p t rest ↔ (t ++ rest).takeWhile p = t := by
  constructor
  · rintro ⟨hall, hlongest⟩
    have hle := hlongest _ (List.takeWhile_prefix p) fun _ hb => List.mem_takeWhile_imp hb
    rw [List.takeWhile_append_of_pos hall, List.length_append] at hle
    have hnone : rest.takeWhile p = [] := List.length_eq_zero_iff.mp (by omega)
    rw [List.takeWhile_append_of_pos hall, hnone, List.append_nil]
  · intro h
    constructor
    · rw [← h]
      exact fun b hb => List.mem_takeWhile_imp hb
    · rintro s ⟨more, hs⟩ hall
      rw [← h, ← hs, List.takeWhile_append_of_pos hall, List.length_append]
      omega

theorem longest_cons : Longest p (b :: t) rest ↔ p b ∧ run p (t ++ rest) = t.length := by
  have hrun : (t ++ rest).takeWhile p = t ↔ run p (t ++ rest) = t.length := by
    constructor
    · exact congrArg List.length
    · intro h
      have htake := List.prefix_iff_eq_take.mp (List.takeWhile_prefix (l := t ++ rest) p)
      rw [run] at h
      rw [htake, h, List.take_left]
  rw [longest_iff, List.cons_append, List.takeWhile_cons]
  split
  · rename_i hb
    rw [List.cons.injEq, hrun]
    exact ⟨fun h => ⟨hb, h.2⟩, fun h => ⟨rfl, h.2⟩⟩
  · rename_i hb
    exact ⟨nofun, fun h => absurd h.1 hb⟩

-- ---------------------------------------------------------------------------
-- Trivia
-- ---------------------------------------------------------------------------

theorem block_iff {kind : TriviaKind} :
    Block kind (b :: t) rest ↔ trivia? b (t ++ rest) = some (kind, t.length) := by
  constructor
  · intro h
    cases h with
    | space h =>
      obtain ⟨hb, hrun⟩ := longest_cons.mp h
      rw [trivia?, if_pos hb, hrun]
    | newline h =>
      obtain ⟨hb, hrun⟩ := longest_cons.mp h
      obtain rfl := beq_iff_eq.mp hb
      rw [trivia?, if_neg (by decide), if_pos rfl, hrun]
    | lineComment h =>
      obtain ⟨-, hrun⟩ := longest_cons.mp h
      rw [trivia?, if_neg (by decide), if_neg (by decide), if_pos ⟨rfl, rfl⟩, hrun]
  · intro h
    unfold trivia? at h
    split at h
    · rename_i hb
      obtain ⟨rfl, hrun⟩ := Prod.mk.inj (Option.some.inj h)
      exact .space (longest_cons.mpr ⟨hb, hrun⟩)
    · split at h
      · rename_i hb
        obtain ⟨rfl, hrun⟩ := Prod.mk.inj (Option.some.inj h)
        exact .newline (longest_cons.mpr ⟨beq_iff_eq.mpr hb, hrun⟩)
      · split at h
        · rename_i hb
          obtain ⟨rfl, hslash⟩ := hb
          obtain ⟨rfl, hrun⟩ := Prod.mk.inj (Option.some.inj h)
          cases t with
          | nil =>
            -- the run has the second slash
            obtain ⟨rest, rfl⟩ := List.head?_eq_some_iff.mp hslash
            rw [List.nil_append, run_cons] at hrun
            cases hrun
          | cons c t =>
            obtain rfl := Option.some.inj hslash
            exact .lineComment (longest_cons.mpr ⟨by decide, hrun⟩)
        · cases h

-- ---------------------------------------------------------------------------
-- Literals
-- ---------------------------------------------------------------------------

theorem Body.literal_append (h : Body quote body) (taken : Nat) (t : Text) :
    literal quote taken (body ++ t) = literal quote (taken + body.length) t := by
  induction h generalizing taken with
  | nil => rfl
  | plain hquote hescape hline _ ih =>
    rw [List.cons_append, literal_cons_of_ne hescape, if_neg hquote, if_neg hline, ih,
      List.length_cons]
    congr 1
    omega
  | escape _ ih =>
    rw [List.cons_append, List.cons_append, literal.eq_def]
    simp only [if_true, ih, List.length_cons]
    congr 1
    omega

theorem Body.literal_closed (h : Body quote body) (hquote : isQuote quote) (rest : Text) :
    literal quote 0 (body ++ quote :: rest) = (.string, body.length + 1) := by
  have hescape : quote ≠ 0x5C := by
    rintro rfl
    cases hquote
  rw [h.literal_append, literal_cons_of_ne hescape, if_pos rfl, Nat.zero_add]

theorem Unclosed.literal_eq (h : Unclosed quote t rest) (hquote : isQuote quote) :
    literal quote 0 (t ++ rest) = (.invalid, t.length) := by
  cases h with
  | line h =>
    have hline : Text.newline ≠ quote := by
      rintro rfl
      cases hquote
    rw [h.literal_append, literal_cons_of_ne (by decide), if_neg hline, if_pos rfl, Nat.zero_add]
  | text h =>
    rw [h.literal_append, Nat.zero_add]
    rfl
  | escape h =>
    rw [List.append_nil, h.literal_append, Nat.zero_add, List.length_append]
    rfl

theorem exists_body (quote : UInt8) (t : Text) : ∃ body rest, t = body ++ rest ∧ Body quote body ∧
    (rest = [] ∨ rest = [0x5C] ∨ rest.head? = some quote ∨ rest.head? = some Text.newline) := by
  match t with
  | [] => exact ⟨[], [], rfl, .nil, .inl rfl⟩
  | b :: t =>
    by_cases hescape : b = 0x5C
    · subst hescape
      match t with
      | [] => exact ⟨[], [0x5C], rfl, .nil, .inr (.inl rfl)⟩
      | c :: t =>
        obtain ⟨body, rest, rfl, hbody, hrest⟩ := exists_body quote t
        exact ⟨0x5C :: c :: body, rest, rfl, .escape hbody, hrest⟩
    · by_cases hquote : b = quote
      · exact ⟨[], b :: t, rfl, .nil, .inr (.inr (.inl (congrArg some hquote)))⟩
      · by_cases hline : b = Text.newline
        · exact ⟨[], b :: t, rfl, .nil, .inr (.inr (.inr (congrArg some hline)))⟩
        · obtain ⟨body, rest, rfl, hbody, hrest⟩ := exists_body quote t
          exact ⟨b :: body, rest, rfl, .plain hquote hescape hline hbody, hrest⟩

theorem closed_or_unclosed (quote : UInt8) (t : Text) :
    (∃ body rest, t = body ++ quote :: rest ∧ Body quote body) ∨
      ∃ body rest, t = body ++ rest ∧ Unclosed quote body rest := by
  obtain ⟨body, rest, rfl, hbody, rfl | rfl | hquote | hline⟩ := exists_body quote t
  · exact .inr ⟨body, [], rfl, .text hbody⟩
  · exact .inr ⟨body ++ [0x5C], [], (List.append_nil _).symm, .escape hbody⟩
  · obtain ⟨rest, rfl⟩ := List.head?_eq_some_iff.mp hquote
    exact .inl ⟨body, rest, rfl, hbody⟩
  · obtain ⟨rest, rfl⟩ := List.head?_eq_some_iff.mp hline
    exact .inr ⟨body, _, rfl, .line hbody⟩

-- ---------------------------------------------------------------------------
-- Tokens
-- ---------------------------------------------------------------------------

theorem operators_spec : ∀ op ∈ operators, op.length = 2 ∧
    ∀ b ∈ op.head?, isIdentContinue b = false ∧ isQuote b = false := by
  decide +kernel

theorem isIdentStart_of_isDigit (h : Text.isDigit b) : isIdentStart b = false := by
  simp only [Text.isDigit, Bool.and_eq_true, decide_eq_true_eq] at h
  have hunderscore : b ≠ 0x5F := by
    rintro rfl
    exact absurd h.2 (by decide)
  have hbelow {c : UInt8} (hc : 0x39 < c) : ¬ c ≤ b := fun hle =>
    UInt8.not_le.mpr hc (UInt8.le_trans hle h.2)
  simp [isIdentStart, Text.isLower, Text.isUpper, hunderscore, hbelow (c := 0x61) (by decide),
    hbelow (c := 0x41) (by decide)]

theorem isIdentContinue_of_isQuote (h : isQuote b) : isIdentContinue b = false := by
  simp only [isQuote, Bool.or_eq_true, beq_iff_eq] at h
  rcases h with rfl | rfl <;> decide

theorem operators_contains_iff :
    operators.contains (b :: t.take 1) ↔ ∃ op ∈ operators, op <+: b :: t := by
  rw [List.contains_iff_mem]
  constructor
  · exact fun h => ⟨_, h, List.cons_prefix_cons.mpr ⟨rfl, List.take_prefix 1 t⟩⟩
  · rintro ⟨op, hop, hfront⟩
    have htake := List.prefix_iff_eq_take.mp hfront
    rw [(operators_spec op hop).1, List.take_succ_cons] at htake
    rwa [← htake]

theorem alone_iff : Alone b rest ↔ isIdentStart b = false ∧ Text.isDigit b = false ∧
    isQuote b = false ∧ operators.contains (b :: rest.take 1) = false := by
  have hoperator : (∀ op ∈ operators, ¬ op <+: b :: rest) ↔
      operators.contains (b :: rest.take 1) = false := by
    rw [← Bool.not_eq_true, operators_contains_iff]
    simp
  constructor
  · rintro ⟨hword, hquote, hnone⟩
    obtain ⟨hstart, hdigit⟩ := Bool.or_eq_false_iff.mp hword
    exact ⟨hstart, hdigit, hquote, hoperator.mp hnone⟩
  · rintro ⟨hstart, hdigit, hquote, hnone⟩
    exact ⟨Bool.or_eq_false_iff.mpr ⟨hstart, hdigit⟩, hquote, hoperator.mpr hnone⟩

theorem singleKind_punct (hlow : 0x20 ≤ b) (hhigh : b ≤ 0x7E) : singleKind b = .punct := by
  have hnot : ¬ 0x7F ≤ b := UInt8.not_le.mpr (UInt8.lt_of_le_of_lt hhigh (by decide))
  simp [singleKind, UInt8.not_lt.mpr hlow, hnot]

theorem singleKind_invalid (h : b < 0x20 ∨ 0x7E < b) : singleKind b = .invalid := by
  have hhigh : 0x7E < b → 0x7F ≤ b := by
    rw [UInt8.lt_iff_toNat_lt, UInt8.le_iff_toNat_le]
    exact id
  rcases h with h | h
  · simp [singleKind, h]
  · simp [singleKind, hhigh h]

theorem rule_iff {kind : TokenKind} :
    Rule kind (b :: t) rest ↔ token b (t ++ rest) = (kind, t.length) := by
  constructor
  · intro h
    rw [token_eq_iff]
    cases h with
    | ident hb h =>
      rw [← (longest_cons.mp h).2]
      exact .ident hb
    | number hb h =>
      rw [← (longest_cons.mp h).2]
      exact .number (isIdentStart_of_isDigit hb) hb
    | @string _ body _ hquote h =>
      obtain ⟨hstart, hdigit⟩ := Bool.or_eq_false_iff.mp (isIdentContinue_of_isQuote hquote)
      have hliteral := h.literal_closed hquote rest
      rw [List.append_assoc, List.length_append]
      exact hliteral ▸ .literal hstart hdigit hquote
    | unclosed hquote h =>
      obtain ⟨hstart, hdigit⟩ := Bool.or_eq_false_iff.mp (isIdentContinue_of_isQuote hquote)
      exact h.literal_eq hquote ▸ .literal hstart hdigit hquote
    | operator h =>
      obtain ⟨hlength, hhead⟩ := operators_spec _ h
      obtain ⟨hword, hquote⟩ := hhead b rfl
      obtain ⟨hstart, hdigit⟩ := Bool.or_eq_false_iff.mp hword
      have hfront := operators_contains_iff.mpr ⟨_, h, List.prefix_append (b :: t) rest⟩
      rw [Nat.succ.inj hlength]
      exact .operator hstart hdigit hquote hfront
    | punct h hlow hhigh =>
      obtain ⟨hstart, hdigit, hquote, hnone⟩ := alone_iff.mp h
      exact singleKind_punct hlow hhigh ▸ .single hstart hdigit hquote hnone
    | stray h hb =>
      obtain ⟨hstart, hdigit, hquote, hnone⟩ := alone_iff.mp h
      exact singleKind_invalid hb ▸ .single hstart hdigit hquote hnone
  · intro h
    have hat : TokenAt b (t ++ rest) (token b (t ++ rest)) := token_eq_iff.mp rfl
    generalize token b (t ++ rest) = found at h hat
    cases hat with
    | ident hb =>
      obtain ⟨rfl, hn⟩ := Prod.mk.inj h
      exact .ident hb (longest_cons.mpr ⟨by simp [isIdentContinue, hb], hn⟩)
    | number hstart hb =>
      obtain ⟨rfl, hn⟩ := Prod.mk.inj h
      exact .number hb (longest_cons.mpr ⟨by simp [isIdentContinue, hb], hn⟩)
    | literal hstart hdigit hquote =>
      rcases closed_or_unclosed b (t ++ rest) with ⟨body, more, heq, hbody⟩ | ⟨body, more, heq, hbody⟩
      · rw [heq, hbody.literal_closed hquote] at h
        obtain ⟨rfl, hn⟩ := Prod.mk.inj h
        rw [← List.singleton_append, ← List.append_assoc] at heq
        obtain ⟨rfl, rfl⟩ := List.append_inj heq (by simp [← hn])
        exact .string hquote hbody
      · rw [heq, hbody.literal_eq hquote] at h
        obtain ⟨rfl, hn⟩ := Prod.mk.inj h
        obtain ⟨rfl, rfl⟩ := List.append_inj heq hn.symm
        exact .unclosed hquote hbody
    | operator hstart hdigit hquote hoperator =>
      obtain ⟨rfl, hn⟩ := Prod.mk.inj h
      obtain ⟨c, rfl⟩ := List.length_eq_one_iff.mp hn.symm
      exact .operator (List.contains_iff_mem.mp hoperator)
    | single hstart hdigit hquote hnone =>
      obtain ⟨rfl, hn⟩ := Prod.mk.inj h
      obtain rfl := List.length_eq_zero_iff.mp hn.symm
      have halone : Alone b rest := alone_iff.mpr ⟨hstart, hdigit, hquote, hnone⟩
      by_cases hprintable : 0x20 ≤ b ∧ b ≤ 0x7E
      · rw [singleKind_punct hprintable.1 hprintable.2]
        exact .punct halone hprintable.1 hprintable.2
      · rw [not_and_or, UInt8.not_le, UInt8.not_le] at hprintable
        rw [singleKind_invalid hprintable]
        exact .stray halone hprintable

theorem Block.ne_nil {kind : TriviaKind} (h : Block kind t rest) : t ≠ [] := by
  cases h <;> exact List.cons_ne_nil _ _

theorem Rule.ne_nil {kind : TokenKind} (h : Rule kind t rest) : t ≠ [] := by
  cases h with
  | operator h => exact fun hnil => by simpa [hnil] using (operators_spec _ h).1
  | _ => exact List.cons_ne_nil _ _

theorem Block.unique {kind kind' : TriviaKind} {t' rest' : Text} (h : Block kind t rest)
    (h' : Block kind' t' rest') (heq : t ++ rest = t' ++ rest') : kind = kind' ∧ t = t' := by
  obtain ⟨b, t, rfl⟩ := List.exists_cons_of_ne_nil h.ne_nil
  obtain ⟨b', t', rfl⟩ := List.exists_cons_of_ne_nil h'.ne_nil
  rw [List.cons_append, List.cons_append, List.cons.injEq] at heq
  obtain ⟨rfl, htail⟩ := heq
  have hsame := (block_iff.mp h).symm.trans (htail ▸ block_iff.mp h')
  obtain ⟨rfl, hlength⟩ := Prod.mk.inj (Option.some.inj hsame)
  exact ⟨rfl, by rw [(List.append_inj htail hlength).1]⟩

theorem Rule.unique {kind kind' : TokenKind} {t' rest' : Text} (h : Rule kind t rest)
    (h' : Rule kind' t' rest') (heq : t ++ rest = t' ++ rest') : kind = kind' ∧ t = t' := by
  obtain ⟨b, t, rfl⟩ := List.exists_cons_of_ne_nil h.ne_nil
  obtain ⟨b', t', rfl⟩ := List.exists_cons_of_ne_nil h'.ne_nil
  rw [List.cons_append, List.cons_append, List.cons.injEq] at heq
  obtain ⟨rfl, htail⟩ := heq
  have hsame := (rule_iff.mp h).symm.trans (htail ▸ rule_iff.mp h')
  obtain ⟨rfl, hlength⟩ := Prod.mk.inj hsame
  exact ⟨rfl, by rw [(List.append_inj htail hlength).1]⟩

theorem Blocks.unique {blocks blocks' : List (TriviaKind × Text)} {rest' : Text}
    (h : Blocks blocks rest) (h' : Blocks blocks' rest')
    (heq : blocks.flatMap (·.2) ++ rest = blocks'.flatMap (·.2) ++ rest') : blocks = blocks' := by
  induction h generalizing blocks' with
  | nil hstop =>
    cases h' with
    | nil => rfl
    | cons hblock _ =>
      refine absurd hblock (hstop _ _ _ ?_)
      rw [← List.append_assoc]
      exact heq.symm
  | cons hblock hblocks ih =>
    cases h' with
    | nil hstop =>
      refine absurd hblock (hstop _ _ _ ?_)
      rw [← List.append_assoc]
      exact heq
    | cons hblock' hblocks' =>
      rw [List.flatMap_cons, List.flatMap_cons, List.append_assoc, List.append_assoc] at heq
      obtain ⟨rfl, rfl⟩ := hblock.unique hblock' heq
      rw [ih hblocks' (List.append_cancel_left heq)]

theorem run_le (p : UInt8 → Bool) (t : Text) : run p t ≤ t.length :=
  (List.takeWhile_prefix p).length_le

theorem trivia?_le {kind : TriviaKind} {n : Nat} (h : trivia? b rest = some (kind, n)) :
    n ≤ rest.length := by
  unfold trivia? at h
  repeat' split at h
  all_goals
    cases h
    try exact run_le _ rest

theorem token_le (b : UInt8) (rest : Text) : (token b rest).2 ≤ rest.length := by
  have hat : TokenAt b rest (token b rest) := token_eq_iff.mp rfl
  generalize token b rest = found at hat
  cases hat with
  | ident | number => exact run_le _ rest
  | literal _ _ hquote =>
    rcases closed_or_unclosed b rest with ⟨body, more, rfl, hbody⟩ | ⟨body, more, rfl, hbody⟩
    · rw [hbody.literal_closed hquote, List.length_append, List.length_cons]
      omega
    · rw [hbody.literal_eq hquote, List.length_append]
      omega
  | operator _ _ _ hoperator =>
    cases rest with
    | nil =>
      rw [List.take_nil, operators_contains_singleton] at hoperator
      cases hoperator
    | cons c rest => exact Nat.succ_le_succ (Nat.zero_le _)
  | single => exact Nat.zero_le _

theorem noBlock_nil : NoBlock [] := by
  rintro kind t more hnil hblock
  exact hblock.ne_nil (List.append_eq_nil_iff.mp hnil).1

theorem noBlock_cons (h : trivia? b rest = none) : NoBlock (b :: rest) := by
  rintro kind t more heq hblock
  obtain ⟨c, t, rfl⟩ := List.exists_cons_of_ne_nil hblock.ne_nil
  obtain ⟨rfl, rfl⟩ := List.cons.inj heq
  cases h.symm.trans (block_iff.mp hblock)

end Lexer

open Lexer (Block Blocks NoBlock Rule)

namespace Lexeme

def Allowed (rest : Text) : Lexeme → Prop
  | .trivia kind t => Block kind t rest
  | .token kind t => NoBlock (t ++ rest) ∧ Rule kind t rest

theorem front_allowed (b : UInt8) (rest : Text) :
    (front b rest).1.Allowed (rest.drop (front b rest).2) := by
  unfold front
  cases htrivia : Lexer.trivia? b rest with
  | some found =>
    refine Lexer.block_iff.mpr ?_
    rw [List.take_append_drop, List.length_take_of_le (Lexer.trivia?_le htrivia), htrivia]
  | none =>
    constructor
    · rw [List.cons_append, List.take_append_drop]
      exact Lexer.noBlock_cons htrivia
    · refine Lexer.rule_iff.mpr ?_
      rw [List.take_append_drop, List.length_take_of_le (Lexer.token_le b rest)]

theorem allowed_of_scan {t : Text} {l : Lexeme} {ls : List Lexeme} (h : scan t = l :: ls) :
    l.Allowed (ls.flatMap text) := by
  cases t with
  | nil => simp at h
  | cons b rest =>
    rw [scan_cons, List.cons.injEq] at h
    obtain ⟨rfl, rfl⟩ := h
    rw [scan_flatMap_text]
    exact front_allowed b rest

end Lexeme

namespace Token

variable {file : FileId} {base : Offset} {text : Text} {t : Token} {front behind : List Token}

def blocks (t : Token) : List (TriviaKind × Text) :=
  t.leading.map fun v => (v.kind, v.text)

theorem blocks_text (t : Token) : t.blocks.flatMap (·.2) = t.leadingText :=
  List.flatMap_map ..

/-- From a token on, the text is cut into the trivia of the token, the token if it is not the end, and
what is behind it. -/
theorem scan_from (h : lex file base text = front ++ t :: behind) : ∃ ls,
    Lexeme.scan text = front.flatMap lexemes ++ (t.leading.map Trivia.lexeme ++ ls) ∧
      ls.flatMap Lexeme.text = t.text ++ render behind ∧
      (t.kind = .eof ∧ t.text = [] ∧ behind = [] ∧ ls = [] ∨
        t.kind ≠ .eof ∧ ∃ rs, ls = .token t.kind t.text :: rs) := by
  obtain ⟨init, last, hlex, hkind, htext, hinit⟩ := lex_eq_concat file base text
  have hscan := lex_lexemes file base text
  rw [h, List.flatMap_append, List.flatMap_cons, lexemes] at hscan
  rw [h] at hlex
  rcases List.eq_nil_or_concat behind with rfl | ⟨behind, stop, rfl⟩
  · obtain ⟨-, hlast⟩ := List.append_inj' hlex rfl
    obtain rfl : t = last := by simpa using hlast
    rw [hkind, htext, List.flatMap_nil, List.append_nil, ← List.append_assoc] at hscan
    refine ⟨[], ?_, ?_, .inl ⟨hkind, htext, rfl, rfl⟩⟩
    · rw [List.append_nil]
      exact (List.append_cancel_right hscan).symm
    · rw [htext]
      rfl
  · rw [List.concat_eq_append] at hlex hscan ⊢
    rw [← List.cons_append, ← List.append_assoc] at hlex
    obtain ⟨rfl, hlast⟩ := List.append_inj' hlex rfl
    obtain rfl : stop = last := by simpa using hlast
    have hstop : stop.lexemes = stop.leading.map Trivia.lexeme ++ [.token .eof []] := by
      rw [lexemes, hkind, htext]
    refine ⟨.token t.kind t.text :: (behind.flatMap lexemes ++ stop.leading.map Trivia.lexeme), ?_, ?_,
      .inr ⟨(hinit t (by simp)).1, _, rfl⟩⟩
    · rw [List.flatMap_append, List.flatMap_singleton, hstop] at hscan
      refine List.append_cancel_right (hscan.symm.trans ?_)
      simp
    · rw [render_eq, List.flatMap_append, List.flatMap_singleton, hstop]
      simp [Lexeme.text]

theorem blocks_of_scan {s : Text} {vs : List Trivia} {ls : List Lexeme}
    (h : Lexeme.scan s = vs.map Trivia.lexeme ++ ls) (hstop : NoBlock (ls.flatMap Lexeme.text)) :
    Blocks (vs.map fun v => (v.kind, v.text)) (ls.flatMap Lexeme.text) := by
  induction vs generalizing s with
  | nil => exact .nil hstop
  | cons v vs ih =>
    have hblock : Block v.kind v.text ((vs.map Trivia.lexeme ++ ls).flatMap Lexeme.text) :=
      Lexeme.allowed_of_scan h
    rw [List.flatMap_append, List.flatMap_map] at hblock
    rw [List.map_cons, ← List.singleton_append, List.append_assoc] at h
    refine .cons ?_ (ih (Lexeme.scan_of_eq_append h))
    rw [List.flatMap_map]
    exact hblock

theorem rule_of_lex (h : lex file base text = front ++ t :: behind) (hkind : t.kind ≠ .eof) :
    NoBlock (t.text ++ render behind) ∧ Rule t.kind t.text (render behind) := by
  obtain ⟨ls, hscan, hrest, ⟨heof, -⟩ | ⟨-, rs, rfl⟩⟩ := scan_from h
  · exact absurd heof hkind
  · have hcut := Lexeme.scan_of_eq_append (Lexeme.scan_of_eq_append hscan)
    have hallowed := Lexeme.allowed_of_scan hcut
    have hbehind : rs.flatMap Lexeme.text = render behind :=
      List.append_cancel_left (hrest : t.text ++ rs.flatMap Lexeme.text = _)
    rw [hbehind] at hallowed
    exact hallowed

theorem blocks_of_lex (h : lex file base text = front ++ t :: behind) :
    Blocks t.blocks (t.text ++ render behind) := by
  obtain ⟨ls, hscan, hrest, hcase⟩ := scan_from h
  have hstop : NoBlock (ls.flatMap Lexeme.text) := by
    rcases hcase with ⟨-, -, -, rfl⟩ | ⟨hkind, -⟩
    · exact Lexer.noBlock_nil
    · rw [hrest]
      exact (rule_of_lex h hkind).1
  have hblocks := blocks_of_scan (Lexeme.scan_of_eq_append hscan) hstop
  rwa [hrest] at hblocks

/-- Wherever a token starts, the trivia in front of it is the one row of blocks that the rules allow
there, and the token is the one that they allow behind it. The end token is at the end of the text. -/
theorem lex_longest_match (h : lex file base text = front ++ t :: behind) :
    text = render front ++ (t.leadingText ++ (t.text ++ render behind)) ∧
    (∀ blocks rest, blocks.flatMap (·.2) ++ rest = t.leadingText ++ (t.text ++ render behind) →
      (Blocks blocks rest ↔ blocks = t.blocks)) ∧
    (t.kind ≠ .eof → ∀ kind s rest, s ++ rest = t.text ++ render behind →
      (Rule kind s rest ↔ kind = t.kind ∧ s = t.text)) ∧
    (t.kind = .eof → t.text = [] ∧ behind = []) := by
  refine ⟨?_, ?_, ?_, ?_⟩
  · have hrender := render_lex file base text
    rw [h, render, List.flatMap_append, List.flatMap_cons, fullText, List.append_assoc] at hrender
    exact hrender.symm
  · intro blocks rest heq
    rw [← blocks_text] at heq
    constructor
    · exact fun hblocks => hblocks.unique (blocks_of_lex h) heq
    · rintro rfl
      rw [List.append_cancel_left heq]
      exact blocks_of_lex h
  · intro hkind kind s rest heq
    have hrule := (rule_of_lex h hkind).2
    constructor
    · exact fun hother => hother.unique hrule heq
    · rintro ⟨rfl, rfl⟩
      rwa [List.append_cancel_left heq]
  · intro hkind
    obtain ⟨-, -, -, ⟨-, htext, hbehind, -⟩ | ⟨hnot, -⟩⟩ := scan_from h
    · exact ⟨htext, hbehind⟩
    · exact absurd hkind hnot

/-- Three blocks of trivia in front of a literal with a quote in it, an operator, and a quote that
nothing closes. -/
def quoted : Text := "x //y\n'\\''/=\"z"

theorem lex_longest_match_quoted :
    (lex 1 2 quoted).map (·.text) =
      [Text.ofString "x", "'\\''", "/=", "\"z", []] ∧
    Blocks [(.space, " "), (.lineComment, "//y"), (.newline, "\n")] (Text.ofString "'\\''/=\"z") ∧
    Rule .string "'\\''" "/=\"z" := by
  have htokens : lex 1 2 quoted =
      (lex 1 2 quoted).take 1 ++ (lex 1 2 quoted)[1]! :: (lex 1 2 quoted).drop 2 := by decide +kernel
  obtain ⟨-, hblocks, hrule, -⟩ := lex_longest_match htokens
  refine ⟨by decide +kernel, (hblocks _ _ ?_).mpr ?_, (hrule ?_ _ _ _ ?_).mpr ?_⟩
  all_goals decide +kernel

end Token

end MacroRelay
