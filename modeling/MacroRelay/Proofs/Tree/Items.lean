import MacroRelay.Proofs.Token.Lexing
import MacroRelay.Proofs.Tree.Groups
import MacroRelay.Tree.Parse

/-!
# The grammar of items

An item is a row of attributes and a body. An attribute is `#`, `[`, a path, possibly one group in
parentheses, and `]`. The body is not empty and does not start as an attribute does. A text that is
read as an item has this form in one way only, and every text of this form is read.
-/

namespace MacroRelay

namespace Token

-- ---------------------------------------------------------------------------
-- Paths
-- ---------------------------------------------------------------------------

/-- Identifiers joined by `::`. -/
inductive IsPath : List Token → Prop
  | last : isIdent t → IsPath [t]
  | cons : isIdent t → isPunct colons "::" → IsPath ts → IsPath (t :: colons :: ts)

/-- A path in front of these tokens goes on with them. -/
def Continues (ts : List Token) : Prop :=
  ∃ colons next rest, ts = colons :: next :: rest ∧ colons.isPunct "::" ∧ next.isIdent

def bareText (ts : List Token) : Text :=
  ts.flatMap (·.text)

def Spelled (ts : List Token) : Prop :=
  ∀ t ∈ ts, t.text ≠ []

variable {t hash bracket : Token} {ts rest path group : List Token} {d : Delimiter}

theorem Spelled.left (h : Spelled (ts ++ rest)) : Spelled ts :=
  fun t ht => h t (List.mem_append_left _ ht)

theorem Spelled.right (h : Spelled (ts ++ rest)) : Spelled rest :=
  fun t ht => h t (List.mem_append_right _ ht)

theorem not_isPunct_of_isIdent (h : t.isIdent) (text : Text) : t.isPunct text = false := by
  have hkind : t.kind = .ident := beq_iff_eq.mp h
  simp [isPunct, hkind]

theorem not_isPunct_of_ne {text text' : Text} (h : t.isPunct text) (hne : text ≠ text') :
    t.isPunct text' = false :=
  Bool.eq_false_iff.mpr fun h' => hne (isPunct_inj h h')

theorem IsPath.isIdent_head (h : IsPath ts) : ∃ t rest, ts = t :: rest ∧ t.isIdent := by
  cases h with
  | last ht => exact ⟨_, _, rfl, ht⟩
  | cons ht _ _ => exact ⟨_, _, rfl, ht⟩

theorem IsPath.bareText_ne_nil (h : IsPath ts) (hs : Spelled ts) : bareText ts ≠ [] := by
  obtain ⟨t, rest, rfl, -⟩ := h.isIdent_head
  have ht := hs t List.mem_cons_self
  simp [bareText, ht]

theorem IsPath.inside (h : IsPath ts) : Inside d ts := by
  have hident {t : Token} (ht : t.isIdent) {rest : List Token} (hrest : Inside d rest) :
      Inside d (t :: rest) :=
    .plain (fun e => not_isPunct_of_isIdent ht _) (not_isPunct_of_isIdent ht _) hrest
  induction h with
  | last ht => exact hident ht .nil
  | cons ht hcolons _ ih =>
    refine hident ht (.plain (fun e => ?_) ?_ ih)
    · exact not_isPunct_of_ne hcolons (by cases e <;> decide)
    · exact not_isPunct_of_ne hcolons (by cases d <;> decide)

theorem exists_path {first : Token} (hfirst : first.isIdent) (ts : List Token) :
    ∃ path rest, first :: ts = path ++ rest ∧ IsPath path ∧ ¬ Continues rest := by
  by_cases hgo : Continues ts
  · obtain ⟨colons, next, more, rfl, hcolons, hnext⟩ := hgo
    obtain ⟨path, rest, heq, hpath, hrest⟩ := exists_path hnext more
    exact ⟨first :: colons :: path, rest, by simp [heq], .cons hfirst hcolons hpath, hrest⟩
  · exact ⟨[first], ts, rfl, .last hfirst, hgo⟩
termination_by ts.length
decreasing_by subst_vars; simp only [List.length_cons]; omega

theorem pathOnto_last (ht : t.isIdent) (h : ¬ Continues rest) (name : Text) :
    pathOnto name (t :: rest) = (name ++ t.text, rest) := by
  unfold pathOnto
  rw [if_pos ht]
  split
  · rename_i colons next rest
    refine if_neg fun hgo => h ⟨colons, next, rest, rfl, ?_⟩
    simpa using hgo
  · rfl

theorem pathOnto_append (h : IsPath path) (hrest : ¬ Continues rest) (name : Text) :
    pathOnto name (path ++ rest) = (name ++ bareText path, rest) := by
  induction h generalizing name with
  | last ht => simpa [bareText] using pathOnto_last ht hrest name
  | @cons t colons ts ht hcolons hpath ih =>
    obtain ⟨next, more, rfl, hnext⟩ := hpath.isIdent_head
    have htext : colons.text = Text.ofString "::" := text_of_isPunct hcolons
    have hstep : pathOnto name (t :: colons :: next :: (more ++ rest)) =
        pathOnto (name ++ t.text ++ "::") (next :: (more ++ rest)) := by
      rw [pathOnto, if_pos ht]
      simp only [hcolons, hnext, Bool.and_self, if_true]
    rw [List.cons_append, List.cons_append, List.cons_append, hstep, ← List.cons_append, ih]
    simp [bareText, htext]

theorem path_append (h : IsPath path) (hrest : ¬ Continues rest) :
    Token.path (path ++ rest) = (bareText path, rest) :=
  pathOnto_append h hrest []

theorem path_nameless (h : ∀ t rest, ts = t :: rest → t.isIdent = false) :
    Token.path ts = ([], ts) := by
  cases ts with
  | nil => rfl
  | cons t rest =>
    unfold Token.path pathOnto
    rw [if_neg (Bool.eq_false_iff.mp (h t rest rfl))]

theorem IsGroup.not_continues (h : IsGroup .paren group) : ¬ Continues group := by
  obtain ⟨ho, -, -⟩ := h
  rintro ⟨colons, next, rest, heq, hcolons, -⟩
  obtain ⟨rfl, -⟩ := List.cons.inj heq
  exact absurd (isPunct_inj ho hcolons) (by decide)

theorem not_continues_nil : ¬ Continues [] := by
  rintro ⟨_, _, _, h, -⟩
  cases h

-- ---------------------------------------------------------------------------
-- Attributes
-- ---------------------------------------------------------------------------

def StartsAttribute (ts : List Token) : Prop :=
  ∃ hash bracket rest, ts = hash :: bracket :: rest ∧ hash.isPunct "#" ∧ bracket.isPunct "["

end Token

open Token

@[simp] theorem Node.of_tokens (kind : NodeKind) (ts : List Token) : (Node.of kind ts).tokens = ts := by
  unfold Node.of
  split <;> rfl

/-- The tokens of an attribute, by their parts. -/
@[ext] structure AttributeForm where
  hash : Token
  bracket : Token
  path : List Token
  args : Option (List Token)
  close : Token
  hash_isPunct : hash.isPunct "#"
  bracket_isPunct : bracket.isPunct "["
  isPath : IsPath path
  isGroup : ∀ group, args = some group → IsGroup .paren group
  close_isPunct : close.isPunct "]"

namespace AttributeForm

def inner (a : AttributeForm) : List Token :=
  a.path ++ a.args.getD []

def tokens (a : AttributeForm) : List Token :=
  a.hash :: a.bracket :: (a.inner ++ [a.close])

def name (a : AttributeForm) : Text :=
  bareText a.path

def read (a : AttributeForm) (first : Nat) : Attribute :=
  ⟨Node.of .attribute a.tokens, a.name, a.args.map (Node.of .attributeArgs), first, a.tokens.length⟩

variable (a : AttributeForm)

theorem inside_inner : Inside d a.inner := by
  refine a.isPath.inside.append ?_
  cases hargs : a.args with
  | none => exact .nil
  | some group => exact (a.isGroup group hargs).inside

theorem isGroup_tail : IsGroup .bracket (a.bracket :: (a.inner ++ [a.close])) :=
  .mk a.bracket_isPunct a.inside_inner a.close_isPunct

theorem not_continues_args : ¬ Continues (a.args.getD []) := by
  cases hargs : a.args with
  | none => exact not_continues_nil
  | some group => exact (a.isGroup group hargs).not_continues

theorem path_inner : Token.path a.inner = (a.name, a.args.getD []) :=
  path_append a.isPath a.not_continues_args

theorem parse (hname : a.name ≠ []) (first : Nat) :
    Attribute.parse first a.tokens = .ok (a.read first) := by
  have hinner : (a.tokens.drop 2).dropLast = a.inner := by simp [tokens]
  unfold Attribute.parse
  simp only [hinner, a.path_inner, hname, if_false]
  cases hargs : a.args with
  | none => simp [read, hargs]
  | some group =>
    have hgroup := a.isGroup group hargs
    have hlength := groupLength?_append hgroup []
    rw [List.append_nil] at hlength
    obtain ⟨hopen, -, -⟩ := hgroup
    change isPunct _ "(" at hopen
    simp [hopen, hlength, read, hargs]

theorem append_inj {a b : AttributeForm} {rest rest' : List Token}
    (h : a.tokens ++ rest = b.tokens ++ rest') : a = b ∧ rest = rest' := by
  obtain ⟨hhash, htail⟩ := List.cons.inj h
  obtain ⟨hgroup, hrest⟩ := a.isGroup_tail.append_inj b.isGroup_tail htail
  obtain ⟨hbracket, hinner⟩ := List.cons.inj hgroup
  obtain ⟨hinner, hclose⟩ := List.append_inj' hinner rfl
  have hargs : a.args.getD [] = b.args.getD [] := by
    have hpath := congrArg (fun ts => (Token.path ts).2) hinner
    simpa only [path_inner] using hpath
  have hpath : a.path = b.path := by
    rw [inner, inner, hargs] at hinner
    exact List.append_cancel_right hinner
  refine ⟨AttributeForm.ext hhash hbracket hpath ?_ (List.cons.inj hclose).1, hrest⟩
  cases ha : a.args with
  | none =>
    cases hb : b.args with
    | none => rfl
    | some group =>
      obtain ⟨-, -, -⟩ := b.isGroup group hb
      simp [ha, hb] at hargs
  | some group =>
    cases hb : b.args with
    | none =>
      obtain ⟨-, -, -⟩ := a.isGroup group ha
      simp [ha, hb] at hargs
    | some group' => simpa [ha, hb] using hargs

theorem startsAttribute (rest : List Token) : StartsAttribute (a.tokens ++ rest) :=
  ⟨a.hash, a.bracket, a.inner ++ [a.close] ++ rest, rfl, a.hash_isPunct, a.bracket_isPunct⟩

theorem of_path {hash bracket close : Token} {path rest : List Token} (hhash : hash.isPunct "#")
    (hopen : bracket.isPunct "[") (hclose : close.isPunct "]") (hpath : IsPath path)
    (hrest : ¬ Continues rest) (hname : bareText path ≠ []) (first : Nat) :
    (∃ a : AttributeForm, a.tokens = hash :: bracket :: (path ++ rest ++ [close])) ∨
      ∃ e, Attribute.parse first (hash :: bracket :: (path ++ rest ++ [close])) = .error e ∧
        e.isEmpty = false := by
  have hinner :
      ((hash :: bracket :: (path ++ rest ++ [close])).drop 2).dropLast = path ++ rest := by
    simp
  unfold Attribute.parse
  rw [hinner, path_append hpath hrest]
  simp only [hname, if_false]
  cases rest with
  | nil =>
    left
    -- a path alone
    refine ⟨⟨hash, bracket, path, none, close, hhash, hopen, hpath, ?_, hclose⟩, ?_⟩
    · rintro _ ⟨⟩
    · simp [tokens, inner]
  | cons next rest =>
    dsimp only
    cases hnext : next.isPunct "(" with
    | false => exact .inr ⟨.attributeUnexpected _ next.text, rfl, rfl⟩
    | true =>
      simp only [Bool.not_true, Bool.false_eq_true, if_false]
      cases hlength : groupLength? (next :: rest) with
      | none => exact .inr ⟨.attributeArgsUnclosed (bareText path), rfl, rfl⟩
      | some n =>
        obtain ⟨args, trailing, hargs, hgroup, rfl⟩ :=
          groupLength?_sound (d := .paren) hnext hlength
        rw [hargs]
        cases trailing with
        | nil =>
          left
          refine ⟨⟨hash, bracket, path, some args, close, hhash, hopen, hpath, ?_, hclose⟩, ?_⟩
          · rintro _ ⟨⟩
            exact hgroup
          · simp [tokens, inner]
        | cons more trailing =>
          right
          refine ⟨.attributeTrailing (bareText path), ?_, rfl⟩
          simp only [List.length_append, List.length_cons]
          rw [if_neg (by omega)]

/-- What stands in brackets behind `#` is an attribute, or the error says what is wrong with it. -/
theorem of_brackets {hash : Token} {group : List Token} (hhash : hash.isPunct "#")
    (hgroup : IsGroup .bracket group) (hs : Spelled group) (first : Nat) :
    (∃ a : AttributeForm, a.tokens = hash :: group) ∨
      ∃ e, Attribute.parse first (hash :: group) = .error e ∧ e.isEmpty = false := by
  obtain ⟨hopen, -, hclose⟩ := hgroup
  rename_i bracket inner close
  by_cases hfront : ∃ t ts, inner = t :: ts ∧ t.isIdent
  · obtain ⟨t, ts, rfl, ht⟩ := hfront
    obtain ⟨path, rest, hsplit, hpath, hrest⟩ := exists_path ht ts
    rw [hsplit] at hs ⊢
    have hname : bareText path ≠ [] := hpath.bareText_ne_nil fun t ht => hs t (by simp [ht])
    exact of_path hhash hopen hclose hpath hrest hname first
  · right
    have hnone : ∀ t ts, inner = t :: ts → t.isIdent = false :=
      fun t ts heq => Bool.eq_false_iff.mpr fun ht => hfront ⟨t, ts, heq, ht⟩
    have hinner : ((hash :: bracket :: (inner ++ [close])).drop 2).dropLast = inner := by simp
    unfold Attribute.parse
    rw [hinner, path_nameless hnone]
    exact ⟨_, rfl, rfl⟩

structure ReadAs (attr : Attribute) : Prop where
  name : attr.name = a.name
  args : attr.args.map (·.tokens) = a.args
  tokens : attr.node.tokens = a.tokens
  count : attr.count = a.tokens.length

theorem readAs_read (first : Nat) : a.ReadAs (a.read first) where
  name := rfl
  args := by cases hargs : a.args <;> simp [read, hargs, Node.of_tokens]
  tokens := Node.of_tokens ..
  count := rfl

theorem name_ne_nil (hs : Spelled a.tokens) : a.name ≠ [] := by
  refine a.isPath.bareText_ne_nil fun t ht => hs t ?_
  simp [tokens, inner, ht]

def readFrom : Nat → List AttributeForm → List Attribute
  | _, [] => []
  | first, a :: forms => a.read first :: readFrom (first + a.tokens.length) forms

theorem forall_readAs (first : Nat) (forms : List AttributeForm) :
    List.Forall₂ ReadAs forms (readFrom first forms) := by
  induction forms generalizing first with
  | nil => exact .nil
  | cons a forms ih => exact .cons (a.readAs_read first) (ih _)

theorem first_readFrom {first k : Nat} {forms : List AttributeForm} {attr : Attribute}
    (h : (readFrom first forms)[k]? = some attr) :
    attr.first = first + ((forms.take k).flatMap (·.tokens)).length := by
  induction forms generalizing first k with
  | nil => cases h
  | cons a forms ih =>
    cases k with
    | zero =>
      cases h
      rfl
    | succ k =>
      rw [ih h, List.take_succ_cons, List.flatMap_cons, List.length_append]
      omega

theorem range_readFrom {first : Nat} {forms : List AttributeForm} {attr : Attribute}
    (front rest : List Token) (hfront : front.length = first)
    (h : attr ∈ readFrom first forms) :
    ((front ++ (forms.flatMap (·.tokens) ++ rest)).drop attr.first).take attr.count =
      attr.node.tokens := by
  induction forms generalizing first front with
  | nil => cases h
  | cons a forms ih =>
    rw [List.flatMap_cons, List.append_assoc]
    rcases List.mem_cons.mp h with rfl | h
    · subst hfront
      simp [read, Node.of_tokens]
    · rw [← List.append_assoc]
      exact ih (front ++ a.tokens) (by rw [List.length_append, hfront]) h

end AttributeForm

-- ---------------------------------------------------------------------------
-- Rows of attributes
-- ---------------------------------------------------------------------------

namespace Token

def Bare (ts : List Token) : Prop :=
  ∀ (a : AttributeForm) rest, ts ≠ a.tokens ++ rest

theorem bare_of_plain (h : ¬ StartsAttribute ts) : Bare ts := by
  rintro a rest rfl
  exact h (a.startsAttribute rest)

theorem exists_forms (ts : List Token) :
    ∃ (forms : List AttributeForm) (rest : List Token),
      ts = forms.flatMap (·.tokens) ++ rest ∧ Bare rest := by
  by_cases hbare : Bare ts
  · exact ⟨[], ts, rfl, hbare⟩
  · simp only [Bare, not_forall, not_not] at hbare
    obtain ⟨a, more, rfl⟩ := hbare
    obtain ⟨forms, rest, hmore, hrest⟩ := exists_forms more
    exact ⟨a :: forms, rest, by rw [hmore, List.flatMap_cons, List.append_assoc], hrest⟩
termination_by ts.length
decreasing_by
  subst_vars
  simp only [AttributeForm.tokens, List.length_append, List.length_cons]
  omega

theorem forms_inj {forms forms' : List AttributeForm} {rest rest' : List Token} (hrest : Bare rest)
    (hrest' : Bare rest')
    (h : forms.flatMap (·.tokens) ++ rest = forms'.flatMap (·.tokens) ++ rest') :
    forms = forms' ∧ rest = rest' := by
  induction forms generalizing forms' with
  | nil =>
    cases forms' with
    | nil => exact ⟨rfl, h⟩
    | cons b forms' =>
      rw [List.flatMap_cons, List.append_assoc] at h
      exact absurd h (hrest b _)
  | cons a forms ih =>
    rw [List.flatMap_cons, List.append_assoc] at h
    cases forms' with
    | nil => exact absurd h.symm (hrest' a _)
    | cons b forms' =>
      rw [List.flatMap_cons, List.append_assoc] at h
      obtain ⟨rfl, hmore⟩ := AttributeForm.append_inj h
      obtain ⟨rfl, hsame⟩ := ih hmore
      exact ⟨rfl, hsame⟩

end Token

namespace Item

variable {ts rest body : List Token} {forms : List AttributeForm}

theorem attributesOnto_form (a : AttributeForm) (hname : a.name ≠ []) (done : List Attribute)
    (at_ : Nat) (rest : List Token) : attributesOnto done at_ (a.tokens ++ rest) =
      attributesOnto (a.read at_ :: done) (at_ + a.tokens.length) rest := by
  have hlength := groupLength?_append a.isGroup_tail rest
  have hsplit : a.tokens ++ rest = a.hash :: a.bracket :: (a.inner ++ [a.close] ++ rest) := rfl
  have htokens : a.hash :: a.bracket :: (a.inner ++ [a.close]) = a.tokens := rfl
  rw [hsplit, attributesOnto.eq_def]
  simp only [a.hash_isPunct, a.bracket_isPunct, Bool.and_self, if_true]
  rw [← List.cons_append, hlength]
  simp only [List.take_left, List.drop_left, htokens, a.parse hname]
  rfl

theorem attributesOnto_forms (forms : List AttributeForm)
    (hs : Spelled (forms.flatMap (·.tokens))) (done : List Attribute) (at_ : Nat)
    (rest : List Token) : attributesOnto done at_ (forms.flatMap (·.tokens) ++ rest) =
      attributesOnto ((AttributeForm.readFrom at_ forms).reverse ++ done)
        (at_ + (forms.flatMap (·.tokens)).length) rest := by
  induction forms generalizing done at_ with
  | nil => rfl
  | cons a forms ih =>
    rw [List.flatMap_cons] at hs
    rw [List.flatMap_cons, List.append_assoc, attributesOnto_form a (a.name_ne_nil hs.left),
      ih hs.right, List.length_append, Nat.add_assoc]
    simp [AttributeForm.readFrom]

theorem attributesOnto_plain (hne : body ≠ []) (hplain : ¬ StartsAttribute body)
    (done : List Attribute) (at_ : Nat) : attributesOnto done at_ body = .ok done.reverse := by
  unfold attributesOnto
  split
  · exact absurd rfl hne
  · rfl
  · rename_i hash bracket rest
    refine if_neg fun h => hplain ⟨hash, bracket, rest, rfl, ?_⟩
    simpa using h

/-- What starts as an attribute does and is none is not taken for a missing item. -/
theorem attributesOnto_stuck (hbare : Bare ts) (hstarts : StartsAttribute ts) (hs : Spelled ts)
    (done : List Attribute) (at_ : Nat) :
    ∃ e, attributesOnto done at_ ts = .error e ∧ e.isEmpty = false := by
  obtain ⟨hash, bracket, rest, rfl, hhash, hbracket⟩ := hstarts
  unfold attributesOnto
  simp only [hhash, hbracket, Bool.and_self, if_true]
  cases hlength : groupLength? (bracket :: rest) with
  | none => exact ⟨.attributeUnclosed hash.span, rfl, rfl⟩
  | some n =>
    obtain ⟨group, more, heq, hgroup, rfl⟩ := groupLength?_sound (d := .bracket) hbracket hlength
    have hs' : Spelled group := fun t ht => hs t (by simp [heq, ht])
    simp only [heq, List.take_left, List.drop_left]
    -- an attribute in these brackets would stand in front of the tokens
    rcases AttributeForm.of_brackets hhash hgroup hs' at_ with ⟨a, ha⟩ | ⟨e, he, hempty⟩
    · refine absurd ?_ (hbare a more)
      rw [ha, heq, List.cons_append]
    · rw [he]
      exact ⟨e, rfl, hempty⟩

end Item

-- ---------------------------------------------------------------------------
-- Items
-- ---------------------------------------------------------------------------

/-- How tokens split into attributes and a body. -/
@[ext] structure ItemForm (ts : List Token) where
  attributes : List AttributeForm
  body : List Token
  tokens_eq : ts = attributes.flatMap (·.tokens) ++ body
  body_ne_nil : body ≠ []
  body_plain : ¬ StartsAttribute body

namespace ItemForm

variable {ts : List Token}

/-- The item has the attributes of the form in the same order, each over the tokens where it is. -/
structure ReadAs (f : ItemForm ts) (item : Item) : Prop where
  tokens : item.node.tokens = ts
  attributes : List.Forall₂ AttributeForm.ReadAs f.attributes item.attributes
  range : ∀ k attr, item.attributes[k]? = some attr →
    attr.first = ((f.attributes.take k).flatMap (·.tokens)).length ∧
      (item.node.tokens.drop attr.first).take attr.count = attr.node.tokens

theorem subsingleton : Subsingleton (ItemForm ts) := by
  constructor
  rintro f g
  have h := f.tokens_eq.symm.trans g.tokens_eq
  obtain ⟨hattributes, hbody⟩ :=
    forms_inj (bare_of_plain f.body_plain) (bare_of_plain g.body_plain) h
  exact ItemForm.ext hattributes hbody

theorem parse (f : ItemForm ts) (hs : Spelled ts) :
    ∃ item, Item.ofTokens ts = .ok item ∧ f.ReadAs item := by
  obtain ⟨forms, body, rfl, hne, hplain⟩ := f
  refine ⟨⟨Node.of .item (forms.flatMap (·.tokens) ++ body), AttributeForm.readFrom 0 forms⟩,
    ?_, ?_⟩
  · rw [Item.ofTokens, Item.attributesOnto_forms forms hs.left,
      Item.attributesOnto_plain hne hplain]
    simp
  · constructor
    · exact Node.of_tokens ..
    · exact AttributeForm.forall_readAs 0 forms
    · intro k attr h
      constructor
      · rw [AttributeForm.first_readFrom h, Nat.zero_add]
      · rw [Node.of_tokens]
        exact AttributeForm.range_readFrom [] body rfl (List.mem_of_getElem? h)

theorem ReadAs.exists_form {f : ItemForm ts} {item : Item} {k : Nat} {attr : Attribute}
    (h : f.ReadAs item) (hk : item.attributes[k]? = some attr) :
    ∃ a, f.attributes[k]? = some a ∧ a.ReadAs attr := by
  obtain ⟨hlt, rfl⟩ := List.getElem?_eq_some_iff.mp hk
  have hlt' : k < f.attributes.length := by rwa [h.attributes.length_eq]
  exact ⟨f.attributes[k], List.getElem?_eq_getElem hlt', h.attributes.get hlt' hlt⟩

end ItemForm

namespace Token

theorem lex_eq_beforeEnd (file : FileId) (base : Offset) (text : Text) : ∃ last,
    lex file base text = beforeEnd (lex file base text) ++ [last] ∧
      (∀ t ∈ beforeEnd (lex file base text), t.text ≠ []) ∧
      Lexeme.scan text =
        (beforeEnd (lex file base text)).flatMap lexemes ++ last.leading.map Trivia.lexeme := by
  obtain ⟨front, last, hlex, hkind, htext, hfront⟩ := lex_eq_concat file base text
  have hbefore : beforeEnd (lex file base text) = front := by
    simp [beforeEnd, hlex, hkind]
  have hscan := lex_lexemes file base text
  rw [hlex, List.flatMap_append, List.flatMap_singleton, lexemes, ← List.append_assoc] at hscan
  rw [hbefore]
  exact ⟨last, hlex, fun t ht => Lexeme.text_ne_nil_of_mem_scan (hfront t ht).2,
    (List.append_inj' hscan rfl).1.symm⟩

end Token

namespace Item

variable {ts : List Token}

theorem ofTokens_forms (forms : List AttributeForm) (hs : Spelled (forms.flatMap (·.tokens))) :
    ∃ e, ofTokens (forms.flatMap (·.tokens)) = .error e ∧ e.isEmpty := by
  have hread := attributesOnto_forms forms hs [] 0 []
  rw [List.append_nil] at hread
  rw [ofTokens, hread]
  unfold attributesOnto
  split
  · exact ⟨.empty, rfl, rfl⟩
  · exact ⟨.attributesOnly, rfl, rfl⟩

theorem ofTokens_stuck {forms : List AttributeForm} {rest : List Token} (hbare : Bare rest)
    (hstarts : StartsAttribute rest) (hs : Spelled (forms.flatMap (·.tokens) ++ rest)) :
    ∃ e, ofTokens (forms.flatMap (·.tokens) ++ rest) = .error e ∧ e.isEmpty = false := by
  rw [ofTokens, attributesOnto_forms forms hs.left]
  obtain ⟨e, he, hempty⟩ := attributesOnto_stuck hbare hstarts hs.right _ _
  exact ⟨e, by rw [he]; rfl, hempty⟩

/-- Tokens are an item, or attributes without one, or attributes in front of a broken one. -/
theorem form_cases (ts : List Token) : Nonempty (ItemForm ts) ∨
    (∃ forms : List AttributeForm, ts = forms.flatMap (·.tokens)) ∨
      ∃ (forms : List AttributeForm) (rest : List Token),
        ts = forms.flatMap (·.tokens) ++ rest ∧ Bare rest ∧ StartsAttribute rest := by
  obtain ⟨forms, rest, rfl, hbare⟩ := exists_forms ts
  by_cases hnil : rest = []
  · subst hnil
    exact .inr (.inl ⟨forms, List.append_nil _⟩)
  · by_cases hstarts : StartsAttribute rest
    · exact .inr (.inr ⟨forms, rest, rfl, hbare, hstarts⟩)
    · exact .inl ⟨⟨forms, rest, rfl, hnil, hstarts⟩⟩

theorem exists_form {item : Item} (hs : Spelled ts) (h : ofTokens ts = .ok item) :
    Nonempty (ItemForm ts) := by
  rcases form_cases ts with hform | ⟨forms, rfl⟩ | ⟨forms, rest, rfl, hbare, hstarts⟩
  · exact hform
  · obtain ⟨e, he, -⟩ := ofTokens_forms forms hs
    cases h.symm.trans he
  · obtain ⟨e, he, -⟩ := ofTokens_stuck hbare hstarts hs
    cases h.symm.trans he

theorem parse_readAs {file : FileId} {base : Offset} {text : Text} {item : Item}
    (h : parse file base text = .ok item) :
    ∃ f : ItemForm (beforeEnd (lex file base text)),
      f.ReadAs item ∧ Spelled (beforeEnd (lex file base text)) := by
  obtain ⟨-, -, hs, -⟩ := lex_eq_beforeEnd file base text
  obtain ⟨f⟩ := exists_form hs h
  obtain ⟨read, hread, hform⟩ := f.parse hs
  obtain rfl : read = item := Except.ok.inj (hread.symm.trans h)
  exact ⟨f, hform, hs⟩

theorem isEmpty_iff (hs : Spelled ts) : (∃ e, ofTokens ts = .error e ∧ e.isEmpty) ↔
    ts = [] ∨ ∃ forms : List AttributeForm, forms ≠ [] ∧ ts = forms.flatMap (·.tokens) := by
  constructor
  · rintro ⟨e, he, hempty⟩
    rcases form_cases ts with ⟨⟨f⟩⟩ | ⟨forms, rfl⟩ | ⟨forms, rest, rfl, hbare, hstarts⟩
    · obtain ⟨item, hitem, -⟩ := f.parse hs
      cases he.symm.trans hitem
    · cases forms with
      | nil => exact .inl rfl
      | cons a forms => exact .inr ⟨a :: forms, List.cons_ne_nil a forms, rfl⟩
    · obtain ⟨e', he', hempty'⟩ := ofTokens_stuck hbare hstarts hs
      cases he.symm.trans he'
      rw [hempty] at hempty'
      cases hempty'
  · rintro (rfl | ⟨forms, -, rfl⟩)
    · exact ofTokens_forms [] hs
    · exact ofTokens_forms forms hs

/-- A text is read as an item exactly if its tokens have the form of one, which they have in one
way; the item is what the form says. Without an item, and with no broken attribute, the text is
reported as empty. -/
theorem parse_grammar (file : FileId) (base : Offset) (text : Text) :
    ∃ ts stop, lex file base text = ts ++ [stop] ∧ stop.kind = .eof ∧
      ((∃ item, Item.parse file base text = .ok item) ↔ Nonempty (ItemForm ts)) ∧
      Subsingleton (ItemForm ts) ∧
      (∀ (f : ItemForm ts) (item : Item), Item.parse file base text = .ok item → f.ReadAs item) ∧
      ((∃ e, Item.parse file base text = .error e ∧ e.isEmpty) ↔
        ts = [] ∨ ∃ forms : List AttributeForm, forms ≠ [] ∧ ts = forms.flatMap (·.tokens)) := by
  obtain ⟨ts, stop, hlex, hstop, -, hfront⟩ := lex_eq_concat file base text
  have hs : Spelled ts := fun t ht => Lexeme.text_ne_nil_of_mem_scan (hfront t ht).2
  have hparse : Item.parse file base text = ofTokens ts := by
    simp [Item.parse, beforeEnd, hlex, hstop]
  rw [hparse]
  refine ⟨ts, stop, hlex, hstop, ⟨?_, ?_⟩, ItemForm.subsingleton, ?_, isEmpty_iff hs⟩
  · rintro ⟨item, hitem⟩
    exact exists_form hs hitem
  · rintro ⟨f⟩
    obtain ⟨item, hitem, -⟩ := f.parse hs
    exact ⟨item, hitem⟩
  · intro f item hitem
    obtain ⟨item', hitem', hread⟩ := f.parse hs
    cases hitem.symm.trans hitem'
    exact hread

end Item

end MacroRelay
