import MacroRelay.Proofs.Token.Lexing

/-!
# Cutting a text again

A lexeme is decided by its own bytes and the one behind them. So a text may be cut off behind a
lexeme, or go on with another text that starts alike, and what stands in front is cut as before.
A closing bracket goes on with nothing, so behind it any text may follow.
-/

namespace MacroRelay

/-- A text that may stand where another one stood, for what is in front of it: it ends there, or
starts alike. -/
def Text.StandsFor (more t : Text) : Prop :=
  more = [] ∨ more.head? = t.head?

namespace Text.StandsFor

variable {more t : Text}

theorem eq_nil (h : more.StandsFor []) : more = [] := by
  rcases h with h | h
  · exact h
  · exact List.head?_eq_none_iff.mp h

theorem append (h : more.StandsFor t) (front : Text) :
    Text.StandsFor (front ++ more) (front ++ t) := by
  cases front with
  | nil => exact h
  | cons b front => exact .inr rfl

theorem take_append {n : Nat} (h : more.StandsFor (t.drop n)) :
    Text.StandsFor (t.take n ++ more) t := by
  have happend := h.append (t.take n)
  rwa [List.take_append_drop] at happend

theorem take_take_append {n : Nat} (h : more.StandsFor (t.drop n)) :
    (t.take n ++ more).take n = t.take n := by
  rcases Nat.le_total n t.length with hn | hn
  · exact List.take_left' (List.length_take_of_le hn)
  · rw [List.drop_eq_nil_of_le hn] at h
    rw [h.eq_nil, List.append_nil, List.take_take, Nat.min_self]

theorem drop_take_append {n : Nat} (h : more.StandsFor (t.drop n)) :
    (t.take n ++ more).drop n = more := by
  have hsplit := List.take_append_drop n (t.take n ++ more)
  rw [h.take_take_append] at hsplit
  exact List.append_cancel_left hsplit

end Text.StandsFor

namespace Lexer

variable {b : UInt8} {rest more : Text}

theorem run_cons (p : UInt8 → Bool) (b : UInt8) (rest : Text) :
    run p (b :: rest) = if p b then run p rest + 1 else 0 := by
  unfold run
  rw [List.takeWhile_cons]
  split <;> rfl

theorem run_take_append {p : UInt8 → Bool} (h : more.StandsFor (rest.drop (run p rest))) :
    run p (rest.take (run p rest) ++ more) = run p rest := by
  induction rest with
  | nil => rw [h.eq_nil]; rfl
  | cons c rest ih =>
    rw [run_cons] at h ⊢
    cases hc : p c with
    | true =>
      simp only [hc, if_true, List.drop_succ_cons] at h
      simp only [if_true, List.take_succ_cons, List.cons_append, run_cons, hc, ih h]
    | false =>
      -- the run is empty, so `more` starts with `c` if it starts with anything
      simp only [hc, Bool.false_eq_true, if_false, List.drop_zero] at h
      simp only [Bool.false_eq_true, if_false, List.take_zero, List.nil_append]
      cases more with
      | nil => rfl
      | cons d more =>
        obtain rfl : d = c := by simpa [Text.StandsFor] using h
        rw [run_cons, hc, if_neg Bool.false_ne_true]

theorem trivia?_take_append {kind : TriviaKind} {extra : Nat}
    (h : trivia? b rest = some (kind, extra)) (hmore : more.StandsFor (rest.drop extra)) :
    trivia? b (rest.take extra ++ more) = some (kind, extra) := by
  unfold trivia? at h ⊢
  split at h
  · rename_i hblank
    cases h
    rw [if_pos hblank, run_take_append hmore]
  · rename_i hblank
    split at h
    · rename_i hline
      cases h
      rw [if_neg hblank, if_pos hline, run_take_append hmore]
    · rename_i hline
      split at h
      · rename_i hcomment
        cases h
        obtain ⟨rest, rfl⟩ := List.head?_eq_some_iff.mp hcomment.2
        have hslashes : ((0x2F :: rest).take (run (· != Text.newline) (0x2F :: rest)) ++ more).head? =
            some 0x2F := by
          rw [run_cons]
          rfl
        rw [if_neg hblank, if_neg hline, if_pos ⟨hcomment.1, hslashes⟩, run_take_append hmore]
      · cases h

theorem trivia?_standsFor {t : Text} (h : trivia? b rest = none) (ht : t.StandsFor rest) :
    trivia? b t = none := by
  obtain ⟨hblank, hline, hcomment⟩ := trivia?_eq_none h
  have hcomment' : ¬ (b = 0x2F ∧ t.head? = some 0x2F) := by
    rintro ⟨hb, hhead⟩
    rcases ht with rfl | hsame
    · cases hhead
    · exact hcomment ⟨hb, hsame ▸ hhead⟩
  rw [trivia?, hblank, if_neg Bool.false_ne_true, if_neg hline, if_neg hcomment']

theorem literal_cons_of_ne (h : b ≠ 0x5C) (quote : UInt8) (taken : Nat) (rest : Text) :
    literal quote taken (b :: rest) =
      if b = quote then (.string, taken + 1)
      else if b = Text.newline then (.invalid, taken)
      else literal quote (taken + 1) rest := by
  rw [literal.eq_def]
  exact if_neg h

/-- What follows a literal matters only by its first byte. -/
theorem literal_take_append (quote : UInt8) (taken : Nat) (t : Text) :
    ∃ n, (literal quote taken t).2 = taken + n ∧ ∀ more : Text, more.StandsFor (t.drop n) →
      literal quote taken (t.take n ++ more) = literal quote taken t := by
  fun_induction literal quote taken t with
  | case1 taken =>
    refine ⟨0, rfl, fun more h => ?_⟩
    rw [h.eq_nil]
    rfl
  | case2 taken =>
    refine ⟨1, rfl, fun more h => ?_⟩
    rw [h.eq_nil]
    simp [literal]
  | case3 taken c rest ih =>
    obtain ⟨n, hn, ih⟩ := ih
    refine ⟨n + 2, by omega, fun more h => ?_⟩
    simpa [literal] using ih more h
  | case4 taken rest hescape =>
    refine ⟨1, rfl, fun more _ => ?_⟩
    simp [literal_cons_of_ne hescape]
  | case5 taken rest hescape hquote =>
    refine ⟨0, rfl, fun more h => ?_⟩
    cases more with
    | nil => rfl
    | cons c more =>
      obtain rfl : c = Text.newline := by simpa [Text.StandsFor] using h
      simp [literal_cons_of_ne hescape, hquote]
  | case6 taken b rest hescape hquote hline ih =>
    obtain ⟨n, hn, ih⟩ := ih
    refine ⟨n + 1, by omega, fun more h => ?_⟩
    simpa [literal_cons_of_ne hescape, hquote, hline] using ih more h

theorem operators_contains_singleton (b : UInt8) : operators.contains [b] = false := by
  have hlength : ∀ op ∈ operators, op.length = 2 := by decide
  rw [List.contains_eq_mem]
  exact decide_eq_false fun hb => absurd (hlength _ hb) (by simp)

def singleKind (b : UInt8) : TokenKind :=
  if b < 0x20 || 0x7F ≤ b then .invalid else .punct

/-- The classes of tokens, by the first byte and, for operators, the second. -/
inductive TokenAt (b : UInt8) (rest : Text) : TokenKind × Nat → Prop
  | ident : isIdentStart b → TokenAt b rest (.ident, run isIdentContinue rest)
  | number : isIdentStart b = false → Text.isDigit b →
    TokenAt b rest (.number, run isIdentContinue rest)
  | literal : isIdentStart b = false → Text.isDigit b = false → isQuote b →
    TokenAt b rest (literal b 0 rest)
  | operator : isIdentStart b = false → Text.isDigit b = false → isQuote b = false →
    operators.contains (b :: rest.take 1) → TokenAt b rest (.punct, 1)
  | single : isIdentStart b = false → Text.isDigit b = false → isQuote b = false →
    operators.contains (b :: rest.take 1) = false → TokenAt b rest (singleKind b, 0)

theorem token_eq_iff {found : TokenKind × Nat} : token b rest = found ↔ TokenAt b rest found := by
  constructor
  · rintro rfl
    cases hident : isIdentStart b with
    | true => simpa [token, hident] using TokenAt.ident hident
    | false =>
      cases hdigit : Text.isDigit b with
      | true => simpa [token, hident, hdigit] using TokenAt.number hident hdigit
      | false =>
        cases hquote : isQuote b with
        | true => simpa [token, hident, hdigit, hquote] using TokenAt.literal hident hdigit hquote
        | false =>
          cases hoperator : operators.contains (b :: rest.take 1) with
          | true =>
            rw [token, hident, hdigit, hquote, hoperator]
            exact .operator hident hdigit hquote hoperator
          | false =>
            have hsingle : token b rest = (singleKind b, 0) := by
              simp only [token, singleKind, hident, hdigit, hquote, hoperator, Bool.false_eq_true,
                if_false]
              split <;> rfl
            rw [hsingle]
            exact .single hident hdigit hquote hoperator
  · intro h
    cases h with
    | ident hident => simp [token, hident]
    | number hident hdigit => simp [token, hident, hdigit]
    | literal hident hdigit hquote => simp [token, hident, hdigit, hquote]
    | operator hident hdigit hquote hoperator =>
      rw [token, hident, hdigit, hquote, hoperator]
      rfl
    | single hident hdigit hquote hoperator =>
      simp only [token, singleKind, hident, hdigit, hquote, hoperator, Bool.false_eq_true, if_false]
      split <;> rfl

theorem token_take_append (hmore : more.StandsFor (rest.drop (token b rest).2)) :
    token b (rest.take (token b rest).2 ++ more) = token b rest := by
  obtain ⟨found, hfound⟩ : ∃ found, token b rest = found := ⟨_, rfl⟩
  rw [hfound] at hmore ⊢
  rw [token_eq_iff] at hfound ⊢
  cases hfound with
  | ident hident =>
    have h : TokenAt b (rest.take (run isIdentContinue rest) ++ more) _ := .ident hident
    rwa [run_take_append hmore] at h
  | number hident hdigit =>
    have h : TokenAt b (rest.take (run isIdentContinue rest) ++ more) _ := .number hident hdigit
    rwa [run_take_append hmore] at h
  | literal hident hdigit hquote =>
    obtain ⟨n, hn, hliteral⟩ := literal_take_append b 0 rest
    rw [Nat.zero_add] at hn
    rw [hn] at hmore ⊢
    rw [← hliteral more hmore]
    exact .literal hident hdigit hquote
  | operator hident hdigit hquote hoperator =>
    refine .operator hident hdigit hquote ?_
    cases rest with
    | nil =>
      rw [List.take_nil, operators_contains_singleton] at hoperator
      cases hoperator
    | cons c rest => exact hoperator
  | single hident hdigit hquote hoperator =>
    refine .single hident hdigit hquote ?_
    rw [List.take_zero, List.nil_append]
    rcases hmore with rfl | hsame
    · exact operators_contains_singleton b
    · rwa [List.take_one, hsame, ← List.take_one]

end Lexer

namespace Lexeme

variable {b : UInt8} {rest more text : Text}

/-- A lexeme sees one byte behind its end. -/
theorem front_take_append (hmore : more.StandsFor (rest.drop (front b rest).2)) :
    front b (rest.take (front b rest).2 ++ more) = front b rest := by
  unfold front at hmore ⊢
  cases htrivia : Lexer.trivia? b rest with
  | some found =>
    simp only [htrivia] at hmore ⊢
    simp only [Lexer.trivia?_take_append htrivia hmore, hmore.take_take_append]
  | none =>
    simp only [htrivia] at hmore ⊢
    rw [Lexer.trivia?_standsFor htrivia hmore.take_append, Lexer.token_take_append hmore,
      hmore.take_take_append]

theorem scan_append {ls rs : List Lexeme} (h : scan text = ls ++ rs)
    (hmore : more.StandsFor (rs.flatMap Lexeme.text)) :
    scan (ls.flatMap Lexeme.text ++ more) = ls ++ scan more := by
  induction ls generalizing text with
  | nil => rfl
  | cons l ls ih =>
    cases text with
    | nil => simp at h
    | cons b rest =>
      rw [scan_cons, List.cons_append, List.cons.injEq] at h
      obtain ⟨rfl, hrest⟩ := h
      have hdrop : rest.drop (front b rest).2 =
          ls.flatMap Lexeme.text ++ rs.flatMap Lexeme.text := by
        rw [← List.flatMap_append, ← hrest, scan_flatMap_text]
      have hstands : Text.StandsFor (ls.flatMap Lexeme.text ++ more)
          (rest.drop (front b rest).2) := by
        rw [hdrop]
        exact hmore.append _
      rw [List.flatMap_cons, front_text, List.cons_append, List.cons_append, List.append_assoc,
        scan_cons, front_take_append hstands, hstands.drop_take_append, ih hrest, List.cons_append]

/-- The rest of a text is cut as it was inside it. -/
theorem scan_of_eq_append {ls rs : List Lexeme} (h : scan text = ls ++ rs) :
    scan (rs.flatMap Lexeme.text) = rs := by
  induction ls generalizing text with
  | nil => rw [← List.nil_append rs, ← h, scan_flatMap_text]
  | cons l ls ih =>
    cases text with
    | nil => simp at h
    | cons b rest =>
      rw [scan_cons, List.cons_append, List.cons.injEq] at h
      exact ih h.2

theorem scan_left {ls rs : List Lexeme} (h : scan text = ls ++ rs) :
    scan (ls.flatMap Lexeme.text) = ls := by
  have hcut := scan_append h (.inl rfl)
  rwa [List.append_nil, scan_nil, List.append_nil] at hcut

theorem front_bracket (rest : Text) : front 0x5D rest = (.token .punct [0x5D], 0) := by
  have hoperator : Lexer.operators.contains (0x5D :: rest.take 1) = false := by
    have hfirst : ∀ op ∈ Lexer.operators, op.head? ≠ some 0x5D := by decide
    rw [List.contains_eq_mem]
    exact decide_eq_false fun hop => hfirst _ hop rfl
  have htrivia : Lexer.trivia? 0x5D rest = none := by
    simp [Lexer.trivia?, Lexer.isBlank, Text.newline]
  have htoken : Lexer.token 0x5D rest = (.punct, 0) :=
    Lexer.token_eq_iff.mpr (.single (by decide) (by decide) (by decide) hoperator)
  simp [front, htrivia, htoken]

/-- Behind a closing bracket any text may follow. -/
theorem scan_append_of_bracket {ls rs : List Lexeme}
    (h : scan text = ls ++ Lexeme.token .punct [0x5D] :: rs) (more : Text) :
    scan ((ls ++ [Lexeme.token .punct [0x5D]]).flatMap Lexeme.text ++ more) =
      ls ++ Lexeme.token .punct [0x5D] :: scan more := by
  have hcut : scan (ls.flatMap Lexeme.text ++ 0x5D :: more) = ls ++ scan (0x5D :: more) :=
    scan_append h (.inr rfl)
  rw [scan_cons, front_bracket, List.drop_zero] at hcut
  simpa [Lexeme.text] using hcut

end Lexeme

namespace Token

variable {ts ts' : List Token} {text : Text}

theorem lexemes_append_inj {t t' : Token} {ls ls' : List Lexeme}
    (h : t.lexemes ++ ls = t'.lexemes ++ ls') : t.lexemes = t'.lexemes ∧ ls = ls' := by
  obtain ⟨kind, span, text, leading⟩ := t
  obtain ⟨kind', span', text', leading'⟩ := t'
  simp only [lexemes] at h ⊢
  induction leading generalizing leading' with
  | nil =>
    cases leading' with
    | nil => simpa using h
    | cons v' leading' => cases h
  | cons v leading ih =>
    cases leading' with
    | nil => cases h
    | cons v' leading' =>
      rw [List.map_cons, List.map_cons, List.cons_append, List.cons_append, List.cons_append,
        List.cons_append, List.cons.injEq] at h
      obtain ⟨hsame, hrest⟩ := ih leading' h.2
      exact ⟨by rw [List.map_cons, List.map_cons, List.cons_append, List.cons_append, h.1, hsame],
        hrest⟩

theorem lexemes_ne_nil (t : Token) : t.lexemes ≠ [] := by
  simp [lexemes]

/-- Lexemes form tokens in one way, also with trivia left over. -/
theorem map_lexemes_inj {vs : List Trivia}
    (h : ts.flatMap lexemes = ts'.flatMap lexemes ++ vs.map Trivia.lexeme) :
    ts.map lexemes = ts'.map lexemes := by
  induction ts generalizing ts' with
  | nil =>
    cases ts' with
    | nil => rfl
    | cons t' ts' => simp [lexemes_ne_nil] at h
  | cons t ts ih =>
    cases ts' with
    | nil =>
      -- the text of the token would be trivia
      have hmem : Lexeme.token t.kind t.text ∈ (t :: ts).flatMap lexemes :=
        List.mem_flatMap.mpr ⟨t, List.mem_cons_self, List.mem_append_right _ List.mem_cons_self⟩
      rw [h, List.flatMap_nil, List.nil_append] at hmem
      obtain ⟨v, -, hv⟩ := List.mem_map.mp hmem
      cases hv
    | cons t' ts' =>
      rw [List.flatMap_cons, List.flatMap_cons, List.append_assoc] at h
      obtain ⟨hsame, hrest⟩ := lexemes_append_inj h
      rw [List.map_cons, List.map_cons, hsame, ih hrest]

end Token

end MacroRelay
