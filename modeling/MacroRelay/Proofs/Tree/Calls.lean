import MacroRelay.Proofs.Tree.Items

/-!
# The grammar of inline calls

An inline call is a path, `!` and one group of any kind, with nothing behind it. A text is read as a
call exactly if its tokens have this form, and the call is what they say. A group that nothing closes
is told apart from whatever else may be wrong.
-/

namespace MacroRelay

open Token

/-- How tokens split at the `!` behind a path. -/
@[ext] structure CallFront (ts : List Token) where
  path : List Token
  bang : Token
  args : List Token
  tokens_eq : ts = path ++ bang :: args
  isPath : IsPath path
  bang_isPunct : bang.isPunct "!"

namespace CallFront

variable {ts : List Token}

def Opens (f : CallFront ts) : Prop :=
  ∃ (d : Delimiter) (o : Token) (rest : List Token), f.args = o :: rest ∧ o.isPunct d.opening

/-- The arguments are one whole group. -/
def IsClosed (f : CallFront ts) : Prop :=
  ∃ d, IsGroup d f.args

/-- A delimiter is opened, and no group ends anywhere behind it. -/
def IsUnclosed (f : CallFront ts) : Prop :=
  f.Opens ∧ ∀ d front, front <+: f.args → ¬ IsGroup d front

/-- What the call tells of its tokens. Behind it stands at most trivia. -/
structure ReadAs (f : CallFront ts) (trailing text : Text) (call : InlineCall) : Prop where
  name : call.name = bareText f.path
  args : call.args.tokens = f.args
  tokens : call.node.tokens = ts
  text : call.node.text ++ trailing = text

theorem not_continues (f : CallFront ts) : ¬ Continues (f.bang :: f.args) := by
  rintro ⟨colons, next, rest, heq, hcolons, -⟩
  obtain ⟨rfl, -⟩ := List.cons.inj heq
  exact absurd (isPunct_inj f.bang_isPunct hcolons) (by decide)

theorem path_eq (f : CallFront ts) : Token.path ts = (bareText f.path, f.bang :: f.args) := by
  have h := path_append f.isPath f.not_continues
  rwa [← f.tokens_eq] at h

theorem subsingleton : Subsingleton (CallFront ts) := by
  constructor
  intro f g
  obtain ⟨-, hrest⟩ := Prod.mk.inj (f.path_eq.symm.trans g.path_eq)
  obtain ⟨hbang, hargs⟩ := List.cons.inj hrest
  have htokens := f.tokens_eq.symm.trans g.tokens_eq
  rw [hrest] at htokens
  exact CallFront.ext (List.append_cancel_right htokens) hbang hargs

theorem IsClosed.opens {f : CallFront ts} (h : f.IsClosed) : f.Opens := by
  obtain ⟨d, hgroup⟩ := h
  generalize hargs : f.args = args at hgroup
  obtain ⟨ho, -, -⟩ := hgroup
  exact ⟨d, _, _, hargs, ho⟩

theorem name_ne_nil (f : CallFront ts) (hs : Spelled ts) : bareText f.path ≠ [] := by
  have hs' := f.tokens_eq ▸ hs
  exact f.isPath.bareText_ne_nil hs'.left

theorem ofTokens_eq (f : CallFront ts) (hs : Spelled ts) (ho : f.Opens) :
    InlineCall.ofTokens ts = match groupLength? f.args with
      | none => .error (.inlineUnclosed (bareText f.path))
      | some n => if n = f.args.length then
          .ok ⟨Node.of .inlineCall ts, bareText f.path, Node.of .inlineArgs f.args⟩
        else .error (.inlineTrailing (bareText f.path)) := by
  have hne : ts ≠ [] := by
    rw [f.tokens_eq]
    exact List.append_ne_nil_of_right_ne_nil _ (List.cons_ne_nil _ _)
  obtain ⟨d, o, rest, hargs, ho⟩ := ho
  have hopens : o.opens?.isNone = false := by simp [opens?_eq_some.mpr ho]
  have hbang := f.bang_isPunct
  have hname := f.name_ne_nil hs
  have hpath := f.path_eq
  rw [hargs] at hpath ⊢
  rw [InlineCall.ofTokens, if_neg hne, hpath]
  simp only [hopens, hbang, hname, false_or, Bool.true_eq_false, Bool.false_eq_true, if_false]
  cases groupLength? (o :: rest) <;> rfl

theorem ofTokens_closed (f : CallFront ts) (hs : Spelled ts) (h : f.IsClosed) :
    InlineCall.ofTokens ts =
      .ok ⟨Node.of .inlineCall ts, bareText f.path, Node.of .inlineArgs f.args⟩ := by
  have heq := f.ofTokens_eq hs h.opens
  obtain ⟨d, hgroup⟩ := h
  have hlength := groupLength?_append hgroup []
  rw [List.append_nil] at hlength
  simpa [hlength] using heq

theorem groupLength?_eq_none (f : CallFront ts) (ho : f.Opens) :
    groupLength? f.args = none ↔ f.IsUnclosed := by
  constructor
  · rintro hnone
    refine ⟨ho, ?_⟩
    rintro d front ⟨rest, hargs⟩ hgroup
    rw [← hargs, groupLength?_append hgroup] at hnone
    cases hnone
  · rintro ⟨-, hgroups⟩
    obtain ⟨d, o, rest, hargs, ho⟩ := ho
    cases hlength : groupLength? f.args with
    | none => rfl
    | some n =>
      rw [hargs] at hlength
      obtain ⟨group, more, heq, hgroup, -⟩ := groupLength?_sound ho hlength
      exact absurd hgroup (hgroups d group ⟨more, by rw [hargs, heq]⟩)

theorem isClosed_of_length (f : CallFront ts) (ho : f.Opens)
    (h : groupLength? f.args = some f.args.length) : f.IsClosed := by
  obtain ⟨d, o, rest, hargs, ho⟩ := ho
  rw [hargs] at h
  obtain ⟨group, more, heq, hgroup, hlength⟩ := groupLength?_sound ho h
  have hmore : more = [] := by
    have := congrArg List.length heq
    rw [List.length_append] at this
    exact List.length_eq_zero_iff.mp (by omega)
  refine ⟨d, ?_⟩
  rw [hargs, heq, hmore, List.append_nil]
  exact hgroup

end CallFront

namespace InlineCall

variable {ts : List Token}

theorem ofTokens_front (ts : List Token) : (∃ f : CallFront ts, f.Opens) ∨
    ∃ e, ofTokens ts = .error e ∧ e.isUnclosed = false := by
  by_cases hfront : ∃ t more, ts = t :: more ∧ t.isIdent
  · obtain ⟨t, more, rfl, ht⟩ := hfront
    obtain ⟨path, rest, hsplit, hpath, hrest⟩ := exists_path ht more
    have hread := path_append hpath hrest
    rw [← hsplit] at hread
    match rest with
    | [] | [_] =>
      right
      exact ⟨.inlineExpected, by simp [ofTokens, hread], rfl⟩
    | bang :: next :: rest =>
      cases hbang : bang.isPunct "!" with
      | false =>
        right
        exact ⟨.inlineExpected, by simp [ofTokens, hread, hbang], rfl⟩
      | true =>
        cases hopens : next.opens? with
        | some d =>
          left
          refine ⟨⟨path, bang, next :: rest, hsplit, hpath, hbang⟩, d, next, rest, rfl, ?_⟩
          exact opens?_eq_some.mp hopens
        | none =>
          right
          by_cases hname : bareText path = []
          · exact ⟨.inlineExpected, by simp [ofTokens, hread, hname], rfl⟩
          · exact ⟨.inlineUndelimited _, by simp [ofTokens, hread, hname, hbang, hopens]; rfl, rfl⟩
  · right
    have hread : Token.path ts = ([], ts) := path_nameless fun t more heq =>
      Bool.eq_false_iff.mpr fun ht => hfront ⟨t, more, heq, ht⟩
    match ts with
    | [] => exact ⟨.empty, rfl, rfl⟩
    | [_] | _ :: _ :: _ => exact ⟨.inlineExpected, by simp [ofTokens, hread], rfl⟩

theorem ofTokens_isOk (hs : Spelled ts) :
    (∃ call, ofTokens ts = .ok call) ↔ ∃ f : CallFront ts, f.IsClosed := by
  constructor
  · rintro ⟨call, hcall⟩
    rcases ofTokens_front ts with ⟨f, ho⟩ | ⟨e, he, -⟩
    · refine ⟨f, f.isClosed_of_length ho ?_⟩
      rw [f.ofTokens_eq hs ho] at hcall
      split at hcall
      · cases hcall
      · rename_i n hlength
        split at hcall
        · rename_i hn
          rw [hlength, hn]
        · cases hcall
    · cases he.symm.trans hcall
  · rintro ⟨f, hclosed⟩
    exact ⟨_, f.ofTokens_closed hs hclosed⟩

theorem ofTokens_isUnclosed (hs : Spelled ts) :
    (∃ e, ofTokens ts = .error e ∧ e.isUnclosed) ↔ ∃ f : CallFront ts, f.IsUnclosed := by
  constructor
  · rintro ⟨e, he, hunclosed⟩
    rcases ofTokens_front ts with ⟨f, ho⟩ | ⟨e', he', hclosed⟩
    · refine ⟨f, (f.groupLength?_eq_none ho).mp ?_⟩
      rw [f.ofTokens_eq hs ho] at he
      split at he
      · assumption
      · split at he <;> cases he
        cases hunclosed
    · cases he.symm.trans he'
      cases hclosed.symm.trans hunclosed
  · rintro ⟨f, hunclosed⟩
    have hnone := (f.groupLength?_eq_none hunclosed.1).mpr hunclosed
    exact ⟨_, by rw [f.ofTokens_eq hs hunclosed.1, hnone], rfl⟩

/-- A text is read as an inline call exactly if its tokens are a path, `!` and one group. They split
so in one way, and the call is what the parts say; with the trivia at the end its node is the whole
text. A group without an end is reported exactly if one is opened behind a path and `!`. -/
theorem parse_front (file : FileId) (base : Offset) (text : Text) :
    ∃ ts stop, lex file base text = ts ++ [stop] ∧ stop.kind = .eof ∧
      ((∃ call, InlineCall.parse file base text = .ok call) ↔ ∃ f : CallFront ts, f.IsClosed) ∧
      Subsingleton (CallFront ts) ∧
      (∀ (f : CallFront ts) (call : InlineCall), InlineCall.parse file base text = .ok call →
        f.ReadAs stop.leadingText text call) ∧
      ((∃ e, InlineCall.parse file base text = .error e ∧ e.isUnclosed) ↔
        ∃ f : CallFront ts, f.IsUnclosed) := by
  obtain ⟨ts, stop, hlex, hstop, htext, hfront⟩ := lex_eq_concat file base text
  have hs : Spelled ts := fun t ht => Lexeme.text_ne_nil_of_mem_scan (hfront t ht).2
  have hparse : InlineCall.parse file base text = ofTokens ts := by
    simp [InlineCall.parse, beforeEnd, hlex, hstop]
  have hwhole : render ts ++ stop.leadingText = text := by
    have hrender := render_lex file base text
    rw [hlex, render, List.flatMap_append, List.flatMap_singleton, fullText, htext,
      List.append_nil] at hrender
    exact hrender
  rw [hparse]
  refine ⟨ts, stop, hlex, hstop, ofTokens_isOk hs, CallFront.subsingleton, ?_,
    ofTokens_isUnclosed hs⟩
  intro f call hcall
  obtain ⟨g, hclosed⟩ := (ofTokens_isOk hs).mp ⟨call, hcall⟩
  obtain rfl : f = g := CallFront.subsingleton.elim f g
  cases hcall.symm.trans (f.ofTokens_closed hs hclosed)
  refine ⟨rfl, Node.of_tokens .., Node.of_tokens .., ?_⟩
  rw [Node.text, Node.of_tokens]
  exact hwhole

end InlineCall

end MacroRelay
