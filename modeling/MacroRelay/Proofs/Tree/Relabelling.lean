import MacroRelay.Proofs.Tree.Items

/-!
# Parsing does not look at positions

A tree is read off the kinds and texts of the tokens. If every token of a text is moved, the text is
read as the same tree with every node moved alike.
-/

namespace MacroRelay

-- ---------------------------------------------------------------------------
-- Moving
-- ---------------------------------------------------------------------------

abbrev Relabelling := FileSpan → FileSpan

def Trivia.relabel (g : Relabelling) (v : Trivia) : Trivia :=
  { v with span := g v.span }

def Token.relabel (g : Relabelling) (t : Token) : Token :=
  { t with span := g t.span, leading := t.leading.map (Trivia.relabel g) }

/-- The pointer follows the tokens. -/
def Node.relabel (g : Relabelling) (n : Node) : Node :=
  Node.of n.pointer.kind (n.tokens.map (Token.relabel g))

def Attribute.relabel (g : Relabelling) (a : Attribute) : Attribute :=
  { a with node := a.node.relabel g, args := a.args.map (Node.relabel g) }

def Item.relabel (g : Relabelling) (item : Item) : Item :=
  ⟨item.node.relabel g, item.attributes.map (Attribute.relabel g)⟩

def InlineCall.relabel (g : Relabelling) (call : InlineCall) : InlineCall :=
  { call with node := call.node.relabel g, args := call.args.relabel g }

def ParseError.relabel (g : Relabelling) : ParseError → ParseError
  | .attributeUnclosed at_ => .attributeUnclosed (g at_)
  | .attributeUnnamed at_ => .attributeUnnamed (g at_)
  | e => e

def Relabelling.parsed {α : Type} (g : Relabelling) (move : Relabelling → α → α)
    (outcome : Except ParseError α) : Except ParseError α :=
  (outcome.map (move g)).mapError (ParseError.relabel g)

variable {g : Relabelling} {t : Token} {ts rest : List Token} {kind : NodeKind}

@[simp] theorem Relabelling.parsed_ok {α : Type} (move : Relabelling → α → α) (a : α) :
    g.parsed move (.ok a) = .ok (move g a) := rfl

@[simp] theorem Relabelling.parsed_error {α : Type} (move : Relabelling → α → α) (e : ParseError) :
    g.parsed move (.error e) = .error (e.relabel g) := rfl

namespace Token

@[simp] theorem relabel_kind (t : Token) : (t.relabel g).kind = t.kind := rfl

@[simp] theorem relabel_text (t : Token) : (t.relabel g).text = t.text := rfl

@[simp] theorem relabel_span (t : Token) : (t.relabel g).span = g t.span := rfl

@[simp] theorem relabel_isIdent (t : Token) : (t.relabel g).isIdent = t.isIdent := rfl

@[simp] theorem relabel_isPunct (t : Token) (text : Text) :
    (t.relabel g).isPunct text = t.isPunct text := rfl

@[simp] theorem relabel_opens? (t : Token) : (t.relabel g).opens? = t.opens? := rfl

@[simp] theorem relabel_closes (t : Token) (d : Delimiter) :
    (t.relabel g).closes d = t.closes d := rfl

@[simp] theorem relabel_lexemes (t : Token) : (t.relabel g).lexemes = t.lexemes := by
  simp [lexemes, relabel, Trivia.relabel, Trivia.lexeme]

end Token

namespace Node

@[simp] theorem of_kind (kind : NodeKind) (ts : List Token) :
    (Node.of kind ts).pointer.kind = kind := by
  unfold Node.of
  split <;> rfl

@[simp] theorem relabel_of : (Node.of kind ts).relabel g = Node.of kind (ts.map (Token.relabel g)) := by
  rw [relabel, of_kind, of_tokens]

@[simp] theorem relabel_tokens (n : Node) :
    (n.relabel g).tokens = n.tokens.map (Token.relabel g) :=
  of_tokens ..

end Node

-- ---------------------------------------------------------------------------
-- Reading
-- ---------------------------------------------------------------------------

namespace Token

theorem closeCount?_relabel (groups : List Delimiter) (count : Nat) (ts : List Token) :
    closeCount? groups count (ts.map (relabel g)) = closeCount? groups count ts := by
  induction ts generalizing groups count with
  | nil => rfl
  | cons t ts ih =>
    cases ho : t.opens? with
    | some d => simp only [List.map_cons, closeCount?, relabel_opens?, ho, ih]
    | none =>
      cases groups <;>
        simp only [List.map_cons, closeCount?, relabel_opens?, ho, relabel_closes, ih]

@[simp] theorem groupLength?_relabel (ts : List Token) :
    groupLength? (ts.map (relabel g)) = groupLength? ts :=
  closeCount?_relabel [] 0 ts

theorem pathOnto_relabel (name : Text) (ts : List Token) :
    pathOnto name (ts.map (relabel g)) =
      ((pathOnto name ts).1, (pathOnto name ts).2.map (relabel g)) := by
  induction name, ts using pathOnto.induct with
  | case1 => rfl
  | case2 name t ht colons next rest hgo ih =>
    have ht' : (t.relabel g).isIdent = true := ht
    have hgo' : ((colons.relabel g).isPunct "::" && (next.relabel g).isIdent) = true := hgo
    simp only [List.map_cons] at ih ⊢
    rw [pathOnto, if_pos ht', if_pos hgo', pathOnto, if_pos ht, if_pos hgo]
    exact ih
  | case3 name t ht colons next rest hgo =>
    have ht' : (t.relabel g).isIdent = true := ht
    have hgo' : ¬ ((colons.relabel g).isPunct "::" && (next.relabel g).isIdent) = true := hgo
    simp only [List.map_cons]
    rw [pathOnto, if_pos ht', if_neg hgo', pathOnto, if_pos ht, if_neg hgo]
    rfl
  | case4 name t ht rest hshort =>
    have ht' : (t.relabel g).isIdent = true := ht
    have hshort' : ∀ colons next more, rest.map (relabel g) = colons :: next :: more → False := by
      intro colons next more hmore
      obtain ⟨colons', rest', rfl, -, hrest⟩ := List.map_eq_cons_iff.mp hmore
      obtain ⟨next', more', rfl, -, -⟩ := List.map_eq_cons_iff.mp hrest
      exact hshort colons' next' more' rfl
    rw [List.map_cons, pathOnto.eq_3 _ _ _ hshort', if_pos ht', pathOnto.eq_3 _ _ _ hshort,
      if_pos ht]
    rfl
  | case5 name t rest ht =>
    have ht' : ¬ (t.relabel g).isIdent = true := ht
    rw [List.map_cons, pathOnto.eq_def, pathOnto.eq_def name (t :: rest)]
    simp only [if_neg ht', if_neg ht, List.map_cons]

@[simp] theorem path_relabel (ts : List Token) :
    path (ts.map (relabel g)) = ((path ts).1, (path ts).2.map (relabel g)) :=
  pathOnto_relabel [] ts

end Token

namespace Attribute

theorem entriesOnto_relabel (names : List Text) (current : Text) (ts : List Token) :
    entriesOnto names current (ts.map (Token.relabel g)) = entriesOnto names current ts := by
  induction ts generalizing names current with
  | nil => rfl
  | cons t ts ih => simp only [List.map_cons, entriesOnto, Token.relabel_isPunct, Token.relabel_text, ih]

@[simp] theorem relabel_deriveNames (a : Attribute) : (a.relabel g).deriveNames = a.deriveNames := by
  obtain ⟨node, name, args, first, count⟩ := a
  cases args with
  | none => rfl
  | some args =>
    simp only [deriveNames, relabel, Option.map_some, Node.relabel_tokens, List.length_map,
      ← List.map_drop, ← List.map_dropLast, entriesOnto_relabel]

theorem parse_relabel (first : Nat) (hne : ts ≠ []) :
    Attribute.parse first (ts.map (Token.relabel g)) =
      g.parsed Attribute.relabel (Attribute.parse first ts) := by
  have hinner : ((ts.map (Token.relabel g)).drop 2).dropLast =
      (ts.drop 2).dropLast.map (Token.relabel g) := by
    rw [← List.map_drop, List.map_dropLast]
  obtain ⟨t, ts, rfl⟩ := List.exists_cons_of_ne_nil hne
  unfold Attribute.parse
  rw [hinner, Token.path_relabel]
  generalize Token.path ((t :: ts).drop 2).dropLast = found
  obtain ⟨name, rest⟩ := found
  by_cases hname : name = []
  · simp [hname, ParseError.relabel]
  · cases rest with
    | nil => simp [hname, Attribute.relabel]
    | cons next rest =>
      simp only [hname, if_false, List.map_cons, Token.relabel_isPunct]
      cases next.isPunct "(" with
      | false => rfl
      | true =>
        have hlength := Token.groupLength?_relabel (g := g) (next :: rest)
        rw [List.map_cons] at hlength
        simp only [hlength, Bool.not_true, Bool.false_eq_true, if_false]
        cases Token.groupLength? (next :: rest) with
        | none => rfl
        | some n =>
          simp only [List.length_cons, List.length_map]
          split <;> simp [Attribute.relabel, ParseError.relabel]

end Attribute

namespace Item

theorem attributesOnto_relabel (done : List Attribute) (at_ : Nat) (ts : List Token) :
    attributesOnto (done.map (Attribute.relabel g)) at_ (ts.map (Token.relabel g)) =
      g.parsed (fun g => List.map (Attribute.relabel g)) (attributesOnto done at_ ts) := by
  match ts with
  | [] =>
    unfold attributesOnto
    simp only [List.map_nil]
    split <;> rfl
  | [t] =>
    unfold attributesOnto
    simp [List.map_reverse]
  | hash :: bracket :: rest =>
    rw [List.map_cons, List.map_cons, attributesOnto.eq_def, attributesOnto.eq_def done]
    by_cases hopens : (hash.isPunct "#" && bracket.isPunct "[") = true
    · have hopens' : ((hash.relabel g).isPunct "#" && (bracket.relabel g).isPunct "[") = true :=
        hopens
      simp only [if_pos hopens', if_pos hopens]
      rw [← List.map_cons, Token.groupLength?_relabel]
      cases Token.groupLength? (bracket :: rest) with
      | none => rfl
      | some n =>
        have hparse := Attribute.parse_relabel (g := g) at_
          (List.cons_ne_nil hash ((bracket :: rest).take n))
        rw [List.map_cons, List.map_take] at hparse
        simp only [hparse, ← List.map_drop]
        cases Attribute.parse at_ (hash :: (bracket :: rest).take n) with
        | error e => rfl
        | ok a => exact attributesOnto_relabel (a :: done) (at_ + n + 1) ((bracket :: rest).drop n)
    · have hopens' : ¬ ((hash.relabel g).isPunct "#" && (bracket.relabel g).isPunct "[") = true :=
        hopens
      simp only [if_neg hopens', if_neg hopens, Relabelling.parsed_ok, List.map_reverse]
termination_by ts.length
decreasing_by simp only [List.length_drop, List.length_cons]; omega

theorem ofTokens_relabel (ts : List Token) :
    ofTokens (ts.map (Token.relabel g)) = g.parsed Item.relabel (ofTokens ts) := by
  have hattributes := attributesOnto_relabel (g := g) [] 0 ts
  rw [List.map_nil] at hattributes
  rw [ofTokens, ofTokens, hattributes]
  cases attributesOnto [] 0 ts with
  | error e => rfl
  | ok attributes =>
    change Except.ok _ = Except.ok _
    simp [Item.relabel]

theorem relabel_without (item : Item) (a : Attribute) :
    (item.relabel g).without (a.relabel g) = (item.without a).relabel g := by
  simp [Item.without, Item.relabel, Attribute.relabel]

end Item

namespace InlineCall

theorem ofTokens_relabel (ts : List Token) :
    ofTokens (ts.map (Token.relabel g)) = g.parsed InlineCall.relabel (ofTokens ts) := by
  unfold ofTokens
  rw [Token.path_relabel]
  generalize Token.path ts = found
  obtain ⟨name, rest⟩ := found
  by_cases hne : ts = []
  · simp [hne, ParseError.relabel]
  · simp only [hne, List.map_eq_nil_iff, if_false]
    rcases rest with _ | ⟨bang, _ | ⟨next, rest⟩⟩
    case nil | cons.nil => rfl
    case cons.cons =>
      have hlength := Token.groupLength?_relabel (g := g) (next :: rest)
      rw [List.map_cons] at hlength
      simp only [List.map_cons, Token.relabel_isPunct, Token.relabel_opens?, hlength, List.length_map]
      split
      · rfl
      · split
        · rfl
        · cases Token.groupLength? (next :: rest) with
          | none => rfl
          | some n =>
            dsimp only
            split <;> simp [InlineCall.relabel, ParseError.relabel]

end InlineCall

-- ---------------------------------------------------------------------------
-- Into another file
-- ---------------------------------------------------------------------------

/-- Everything stays where it is, but in the one file. -/
def Relabelling.into (file : FileId) : Relabelling := fun s => ⟨file, s.span⟩

variable {file file' : FileId} {base : Offset} {text : Text}

namespace Token

theorem placeOnto_into (done : List Token) (start : Offset) (held : List Trivia) (ls : List Lexeme) :
    placeOnto (done.map (relabel (.into file'))) file' start
        (held.map (Trivia.relabel (.into file'))) ls =
      (placeOnto done file start held ls).map (relabel (.into file')) := by
  induction ls generalizing done start held with
  | nil => simp [placeOnto, relabel, Relabelling.into]
  | cons l ls ih =>
    cases l with
    | «trivia» kind text => exact ih done _ (⟨kind, ⟨file, Span.of start text⟩, text⟩ :: held)
    | token kind text =>
      have hstep := ih (⟨kind, ⟨file, Span.of start text⟩, text, held.reverse⟩ :: done)
        (Span.of start text).stop []
      rw [List.map_cons, relabel, List.map_reverse] at hstep
      exact hstep

theorem lex_into (file file' : FileId) (base : Offset) (text : Text) :
    lex file' base text = (lex file base text).map (relabel (.into file')) :=
  placeOnto_into [] base [] _

theorem beforeEnd_relabel (ts : List Token) :
    beforeEnd (ts.map (relabel g)) = (beforeEnd ts).map (relabel g) := by
  unfold beforeEnd
  rw [List.getLast?_map]
  cases ts.getLast? with
  | none => rfl
  | some last =>
    simp only [Option.map_some, relabel_kind, ← List.map_dropLast]
    split <;> rfl

end Token

theorem Item.parse_into (file file' : FileId) (base : Offset) (text : Text) :
    Item.parse file' base text =
      (Relabelling.into file').parsed Item.relabel (Item.parse file base text) := by
  rw [Item.parse, Token.lex_into file, Token.beforeEnd_relabel, Item.ofTokens_relabel, Item.parse]

theorem InlineCall.parse_into (file file' : FileId) (base : Offset) (text : Text) :
    InlineCall.parse file' base text =
      (Relabelling.into file').parsed InlineCall.relabel (InlineCall.parse file base text) := by
  rw [InlineCall.parse, Token.lex_into file, Token.beforeEnd_relabel, InlineCall.ofTokens_relabel,
    InlineCall.parse]

-- ---------------------------------------------------------------------------
-- Pointers that cover the tokens
-- ---------------------------------------------------------------------------

/-- There are tokens, and the pointer covers them. -/
structure Node.Whole (n : Node) : Prop where
  tokens : n.tokens ≠ []
  pointer : n = Node.of n.pointer.kind n.tokens

theorem Node.whole_of (hne : ts ≠ []) : (Node.of kind ts).Whole := by
  refine ⟨by rwa [Node.of_tokens], ?_⟩
  rw [Node.of_kind, Node.of_tokens]

theorem Node.Whole.span_into {n : Node} (h : n.Whole) (file : FileId) :
    (n.relabel (.into file)).pointer.span = ⟨file, n.pointer.span.span⟩ := by
  obtain ⟨hne, hpointer⟩ := h
  rw [hpointer, Node.relabel_of]
  obtain ⟨t, ts, hts⟩ := List.exists_cons_of_ne_nil hne
  unfold Node.of
  rw [hts, List.head?_map, List.getLast?_map, List.head?_cons]
  cases hlast : (t :: ts).getLast? with
  | none => exact absurd hlast (by simp)
  | some last => rfl

structure Attribute.Whole (a : Attribute) : Prop where
  node : a.node.Whole
  args : ∀ args ∈ a.args, args.Whole

theorem Attribute.parse_whole {first : Nat} {a : Attribute} (hne : ts ≠ [])
    (h : Attribute.parse first ts = .ok a) :
    a.Whole ∧ a.first = first ∧ a.count = ts.length := by
  unfold Attribute.parse at h
  generalize Token.path (ts.drop 2).dropLast = found at h
  obtain ⟨name, rest⟩ := found
  dsimp only at h
  split at h
  · cases h
  · cases rest with
    | nil =>
      cases h
      exact ⟨⟨Node.whole_of hne, nofun⟩, rfl, rfl⟩
    | cons next rest =>
      dsimp only at h
      split at h
      · cases h
      · cases hlength : Token.groupLength? (next :: rest) with
        | none => simp [hlength] at h
        | some n =>
          simp only [hlength] at h
          split at h
          · cases h
            refine ⟨⟨Node.whole_of hne, ?_⟩, rfl, rfl⟩
            rintro args ⟨⟩
            exact Node.whole_of (List.cons_ne_nil next rest)
          · cases h

theorem Item.attributesOnto_whole {done found : List Attribute} {at_ : Nat} {ts : List Token}
    (h : attributesOnto done at_ ts = .ok found)
    (hdone : ∀ a ∈ done, a.Whole ∧ a.first + a.count ≤ at_) :
    ∀ a ∈ found, a.Whole ∧ a.first + a.count < at_ + ts.length := by
  have hstop (hlength : 0 < ts.length) :
      ∀ a ∈ done.reverse, a.Whole ∧ a.first + a.count < at_ + ts.length := fun a ha =>
    have ⟨hwhole, hle⟩ := hdone a (List.mem_reverse.mp ha)
    ⟨hwhole, by omega⟩
  match ts with
  | [] =>
    unfold attributesOnto at h
    split at h <;> cases h
  | [t] =>
    unfold attributesOnto at h
    cases h
    exact hstop (by simp)
  | hash :: bracket :: rest =>
    rw [attributesOnto.eq_def] at h
    dsimp only at h
    split at h
    · cases hlength : Token.groupLength? (bracket :: rest) with
      | none => simp [hlength] at h
      | some n =>
        simp only [hlength] at h
        cases hparse : Attribute.parse at_ (hash :: (bracket :: rest).take n) with
        | error e => simp [hparse, bind, Except.bind] at h
        | ok a =>
          simp only [hparse, bind, Except.bind] at h
          obtain ⟨hwhole, hfirst, hcount⟩ := Attribute.parse_whole (List.cons_ne_nil _ _) hparse
          have hle := Token.groupLength?_le hlength
          have hdone' : ∀ b ∈ a :: done, b.Whole ∧ b.first + b.count ≤ at_ + n + 1 := by
            refine List.forall_mem_cons.mpr ⟨⟨hwhole, ?_⟩, fun b hb => ?_⟩
            · rw [hfirst, hcount, List.length_cons, List.length_take]
              omega
            · exact ⟨(hdone b hb).1, by have := (hdone b hb).2; omega⟩
          intro b hb
          obtain ⟨hbwhole, hblt⟩ := attributesOnto_whole h hdone' b hb
          refine ⟨hbwhole, ?_⟩
          rw [List.length_drop] at hblt
          simp only [List.length_cons] at hblt hle ⊢
          omega
    · cases h
      exact hstop (by simp)
termination_by ts.length
decreasing_by simp only [List.length_drop, List.length_cons]; omega

structure Item.Whole (item : Item) : Prop where
  node : item.node.Whole
  attributes : ∀ a ∈ item.attributes, a.Whole
  without : ∀ a ∈ item.attributes, (item.without a).Whole

theorem Item.parse_whole {item : Item} (h : Item.parse file base text = .ok item) : item.Whole := by
  rw [parse, ofTokens] at h
  generalize Token.beforeEnd (Token.lex file base text) = ts at h
  cases hattributes : attributesOnto [] 0 ts with
  | error e => simp [hattributes, bind, Except.bind] at h
  | ok attributes =>
    simp only [hattributes, bind, Except.bind, pure, Except.pure] at h
    cases h
    have hfound := attributesOnto_whole hattributes fun a ha => absurd ha List.not_mem_nil
    have hne : ts ≠ [] := by
      rintro rfl
      simp [attributesOnto] at hattributes
    refine ⟨Node.whole_of hne, fun a ha => (hfound a ha).1, fun a ha => Node.whole_of fun hnil => ?_⟩
    have hlt := (hfound a ha).2
    have hlength := congrArg List.length hnil
    simp only [Node.of_tokens, List.length_append, List.length_take, List.length_drop,
      List.length_nil] at hlength
    omega

structure InlineCall.Whole (call : InlineCall) : Prop where
  node : call.node.Whole
  args : call.args.Whole

theorem InlineCall.parse_whole {call : InlineCall} (h : InlineCall.parse file base text = .ok call) :
    call.Whole := by
  rw [parse, ofTokens] at h
  generalize Token.beforeEnd (Token.lex file base text) = ts at h
  by_cases hne : ts = []
  · simp [hne] at h
  · rw [if_neg hne] at h
    generalize Token.path ts = found at h
    obtain ⟨name, rest⟩ := found
    match rest with
    | [] | [_] => cases h
    | bang :: next :: rest =>
      dsimp only at h
      repeat' split at h
      all_goals cases h
      exact ⟨Node.whole_of hne, Node.whole_of (List.cons_ne_nil next rest)⟩

end MacroRelay
