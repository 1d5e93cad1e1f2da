import MacroRelay.Proofs.Token.Relexing
import MacroRelay.Proofs.Tree.Relabelling
import Mathlib.Algebra.GroupWithZero.Nat
import Mathlib.Data.List.InsertIdx

/-!
# Removing an attribute

What is left of an item when an attribute is removed is a text of its own, cut and read again when it
is expanded. Every attribute ends in a closing bracket, so the tokens on both sides of the hole stay
what they were, and the text is read as the item without the attribute.
-/

namespace MacroRelay

-- ---------------------------------------------------------------------------
-- What an item says
-- ---------------------------------------------------------------------------

structure Attribute.Spelling where
  name : Text
  args : Option (List (List Lexeme))
  derives : List Text
  tokens : List (List Lexeme)
deriving DecidableEq

def Attribute.spelling (a : Attribute) : Spelling where
  name := a.name
  args := a.args.map (·.tokens.map Token.lexemes)
  derives := a.deriveNames
  tokens := a.node.tokens.map Token.lexemes

def Item.body (item : Item) : List Token :=
  item.node.tokens.drop (item.attributes.map (·.count)).sum

section Relabel

variable {g : Relabelling}

theorem Token.map_relabel_lexemes (ts : List Token) :
    (ts.map (relabel g)).map lexemes = ts.map lexemes := by
  rw [List.map_map]
  exact List.map_congr_left fun t _ => t.relabel_lexemes

@[simp] theorem Attribute.relabel_spelling (a : Attribute) : (a.relabel g).spelling = a.spelling := by
  rw [spelling, relabel_deriveNames]
  obtain ⟨node, name, args, first, count⟩ := a
  cases args <;> simp [spelling, relabel, Node.relabel_tokens, -List.map_map, Token.map_relabel_lexemes]

theorem Item.relabel_spellings (item : Item) :
    (item.relabel g).attributes.map Attribute.spelling = item.attributes.map Attribute.spelling := by
  rw [Item.relabel, List.map_map]
  exact List.map_congr_left fun a _ => a.relabel_spelling

theorem Item.relabel_body (item : Item) :
    (item.relabel g).body.map Token.lexemes = item.body.map Token.lexemes := by
  have hcounts : (item.relabel g).attributes.map (·.count) = item.attributes.map (·.count) := by
    rw [Item.relabel, List.map_map]
    rfl
  rw [body, body, hcounts, Item.relabel, Node.relabel_tokens, ← List.map_drop,
    Token.map_relabel_lexemes]

end Relabel

def Lexeme.placedAt (s : FileSpan) : Lexeme → Trivia
  | .trivia kind text => ⟨kind, s, text⟩
  | .token _ _ => default

theorem Token.relabel_eq_of_lexemes {t t' : Token} (s : FileSpan) (h : t.lexemes = t'.lexemes) :
    t.relabel (fun _ => s) = t'.relabel (fun _ => s) := by
  obtain ⟨kind, span, text, leading⟩ := t
  obtain ⟨kind', span', text', leading'⟩ := t'
  obtain ⟨hleading, hlast⟩ := List.append_inj' h rfl
  have hmove : Trivia.relabel (fun _ => s) = Lexeme.placedAt s ∘ Trivia.lexeme := rfl
  simp only [List.cons.injEq, Lexeme.token.injEq, and_true] at hlast
  simp only [relabel, hmove, ← List.map_map, hleading, hlast]

theorem Token.map_relabel_eq {ts ts' : List Token} (s : FileSpan)
    (h : ts.map lexemes = ts'.map lexemes) :
    ts.map (relabel fun _ => s) = ts'.map (relabel fun _ => s) := by
  induction ts generalizing ts' with
  | nil => rw [List.map_eq_nil_iff.mp h.symm]
  | cons t ts ih =>
    cases ts' with
    | nil => cases h
    | cons t' ts' =>
      rw [List.map_cons, List.map_cons, List.cons.injEq] at h
      rw [List.map_cons, List.map_cons, relabel_eq_of_lexemes s h.1, ih h.2]

theorem Item.ofTokens_alike {ts ts' : List Token} {item : Item}
    (h : ts'.map Token.lexemes = ts.map Token.lexemes) (hitem : ofTokens ts = .ok item) :
    ∃ item', ofTokens ts' = .ok item' ∧
      item'.attributes.map Attribute.spelling = item.attributes.map Attribute.spelling ∧
      item'.body.map Token.lexemes = item.body.map Token.lexemes := by
  have hsame := Token.map_relabel_eq default h
  have hmoved := ofTokens_relabel (g := fun _ => default) ts
  rw [← hsame, ofTokens_relabel, hitem] at hmoved
  cases hread : ofTokens ts' with
  | error e =>
    rw [hread] at hmoved
    cases hmoved
  | ok item' =>
    rw [hread] at hmoved
    have hequal : item'.relabel (fun _ => default) = item.relabel (fun _ => default) :=
      Except.ok.inj hmoved
    refine ⟨item', rfl, ?_, ?_⟩
    · rw [← item'.relabel_spellings, hequal, item.relabel_spellings]
    · rw [← item'.relabel_body, hequal, item.relabel_body]

-- ---------------------------------------------------------------------------
-- Forms
-- ---------------------------------------------------------------------------

theorem Attribute.deriveNames_congr {a a' : Attribute} (hname : a.name = a'.name)
    (hargs : a.args.map (·.tokens) = a'.args.map (·.tokens)) : a.deriveNames = a'.deriveNames := by
  unfold deriveNames
  rw [hname]
  cases ha : a.args with
  | none =>
    cases ha' : a'.args with
    | none => rfl
    | some args' => simp [ha, ha'] at hargs
  | some args =>
    cases ha' : a'.args with
    | none => simp [ha, ha'] at hargs
    | some args' =>
      rw [ha, ha', Option.map_some, Option.map_some, Option.some.injEq] at hargs
      simp only [hargs]

namespace AttributeForm

theorem ReadAs.spelling {a : AttributeForm} {attr : Attribute} (h : a.ReadAs attr) :
    attr.spelling = (a.read 0).spelling := by
  have hread := a.readAs_read 0
  have hname : attr.name = (a.read 0).name := h.name.trans hread.name.symm
  have hargs : attr.args.map (·.tokens) = (a.read 0).args.map (·.tokens) :=
    h.args.trans hread.args.symm
  have htexts (attr : Attribute) : attr.args.map (·.tokens.map Token.lexemes) =
      (attr.args.map (·.tokens)).map (·.map Token.lexemes) := by
    rw [Option.map_map]
    rfl
  rw [Attribute.spelling, Attribute.spelling, Attribute.deriveNames_congr hname hargs, hname, htexts,
    htexts, hargs, h.tokens, hread.tokens]

theorem flatMap_tokens_cases (forms : List AttributeForm) : forms.flatMap (·.tokens) = [] ∨
    ∃ front close, forms.flatMap (·.tokens) = front ++ [close] ∧ close.isPunct "]" := by
  rcases List.eq_nil_or_concat forms with rfl | ⟨forms, a, rfl⟩
  · exact .inl rfl
  · refine .inr ⟨forms.flatMap (·.tokens) ++ a.hash :: a.bracket :: a.inner, a.close, ?_,
      a.close_isPunct⟩
    simp [tokens]

end AttributeForm

namespace Token

theorem render_congr {ts ts' : List Token} (h : ts.map lexemes = ts'.map lexemes) :
    render ts = render ts' := by
  simp only [render_eq, List.flatMap_def, h]

theorem render_cons (t : Token) (ts : List Token) : render (t :: ts) = t.fullText ++ render ts :=
  List.flatMap_cons

theorem render_append (ts ts' : List Token) : render (ts ++ ts') = render ts ++ render ts' :=
  List.flatMap_append

theorem take_append_drop_hole {ts pre mid post : List Token} (h : ts = pre ++ mid ++ post) :
    ts.take pre.length ++ ts.drop (pre.length + mid.length) = pre ++ post := by
  subst h
  rw [← List.length_append, List.drop_left, List.append_assoc, List.take_left]

theorem render_flatMap_tokens (forms : List AttributeForm) : render (forms.flatMap (·.tokens)) =
    (forms.map fun a => render a.tokens).flatten := by
  rw [render, List.flatMap_assoc, List.flatMap_def]
  rfl

end Token

open Token

namespace ItemForm

variable {ts : List Token} {f : ItemForm ts} {item : Item}

theorem ReadAs.map_eq {β : Type} {p : Attribute → β} {q : AttributeForm → β} (h : f.ReadAs item)
    (hpq : ∀ a attr, a.ReadAs attr → p attr = q a) : item.attributes.map p = f.attributes.map q := by
  have hall := h.attributes
  generalize f.attributes = forms at hall
  generalize item.attributes = attributes at hall
  induction hall with
  | nil => rfl
  | cons ha _ ih => rw [List.map_cons, List.map_cons, hpq _ _ ha, ih]

theorem ReadAs.spellings (h : f.ReadAs item) :
    item.attributes.map Attribute.spelling = f.attributes.map fun a => (a.read 0).spelling :=
  h.map_eq fun _ _ ha => ha.spelling

theorem ReadAs.texts (h : f.ReadAs item) :
    item.attributes.map (·.node.text) = f.attributes.map fun a => Token.render a.tokens :=
  h.map_eq fun _ _ ha => congrArg Token.render ha.tokens

theorem ReadAs.body (h : f.ReadAs item) : item.body = f.body := by
  have hcounts : (item.attributes.map (·.count)).sum = (f.attributes.flatMap (·.tokens)).length := by
    rw [h.map_eq fun _ _ ha => ha.count, List.length_flatMap]
  rw [Item.body, hcounts, h.tokens]
  conv_lhs =>
    rhs
    rw [f.tokens_eq]
  rw [List.drop_left]

def before (f : ItemForm ts) (i : Nat) : List Token :=
  (f.attributes.take i).flatMap (·.tokens)

def after (f : ItemForm ts) (i : Nat) : List Token :=
  (f.attributes.drop (i + 1)).flatMap (·.tokens) ++ f.body

theorem ReadAs.before_text (h : f.ReadAs item) (i : Nat) :
    (item.attributes.take i).flatMap (·.node.text) = render (f.before i) := by
  rw [before, render_flatMap_tokens, List.flatMap_def, List.map_take, List.map_take, h.texts]

theorem ReadAs.after_text (h : f.ReadAs item) (i : Nat) :
    (item.attributes.drop (i + 1)).flatMap (·.node.text) ++ render item.body =
      render (f.after i) := by
  rw [after, render_append, render_flatMap_tokens, List.flatMap_def, List.map_drop, List.map_drop,
    h.texts, h.body]

/-- Tokens with one attribute cut out have the form without it. -/
def without (f : ItemForm ts) (i : Nat) : ItemForm (f.before i ++ f.after i) :=
  ⟨f.attributes.eraseIdx i, f.body, by
    rw [List.eraseIdx_eq_take_drop_succ, List.flatMap_append, List.append_assoc, before, after],
    f.body_ne_nil, f.body_plain⟩

theorem ReadAs.tokens_eq {i : Nat} {a : Attribute} (h : f.ReadAs item)
    (ha : item.attributes[i]? = some a) :
    ts = f.before i ++ a.node.tokens ++ f.after i ∧ a.first = (f.before i).length ∧
      a.count = a.node.tokens.length := by
  obtain ⟨form, hi, hform⟩ := h.exists_form ha
  obtain ⟨hlt, rfl⟩ := List.getElem?_eq_some_iff.mp hi
  have hsplit : f.attributes = f.attributes.take i ++ f.attributes[i] :: f.attributes.drop (i + 1) := by
    rw [← List.drop_eq_getElem_cons, List.take_append_drop]
  refine ⟨?_, (h.range i _ ha).1, by rw [hform.count, hform.tokens]⟩
  conv_lhs => rw [f.tokens_eq, hsplit]
  simp only [before, after, hform.tokens, List.flatMap_append, List.flatMap_cons, List.append_assoc]

end ItemForm

-- ---------------------------------------------------------------------------
-- The hole
-- ---------------------------------------------------------------------------

namespace Token

variable {pre mid post : List Token} {text : Text}

/-- Behind a closing bracket a text may be cut out, and nothing else changes. -/
theorem scan_render_append {ls : List Lexeme}
    (h : Lexeme.scan text = (pre ++ mid ++ post).flatMap lexemes ++ ls)
    (hpre : pre = [] ∨ ∃ front close, pre = front ++ [close] ∧ close.isPunct "]") :
    Lexeme.scan (render pre ++ render post) = (pre ++ post).flatMap lexemes := by
  have hpost : Lexeme.scan (render post) = post.flatMap lexemes := by
    rw [List.flatMap_append, List.append_assoc] at h
    have hrest := Lexeme.scan_of_eq_append h
    rw [render_eq]
    exact Lexeme.scan_left hrest
  rcases hpre with rfl | ⟨front, close, rfl, hclose⟩
  · simpa [render] using hpost
  · have hbracket : close.kind = .punct ∧ close.text = [0x5D] := by
      simp only [isPunct, Bool.and_eq_true, beq_iff_eq] at hclose
      exact hclose
    have hlexemes : (front ++ [close]).flatMap lexemes =
        front.flatMap lexemes ++ close.leading.map Trivia.lexeme ++ [Lexeme.token .punct [0x5D]] := by
      simp [lexemes, hbracket]
    rw [List.append_assoc, List.flatMap_append, hlexemes, List.append_assoc, List.append_assoc] at h
    rw [List.flatMap_append, hlexemes, render_eq (front ++ [close]), hlexemes,
      Lexeme.scan_append_of_bracket h, hpost]
    simp

theorem beforeEnd_lexemes (file : FileId) (base : Offset) {ts : List Token}
    (h : Lexeme.scan text = ts.flatMap lexemes) :
    (beforeEnd (lex file base text)).map lexemes = ts.map lexemes := by
  obtain ⟨last, -, -, hscan⟩ := lex_eq_beforeEnd file base text
  exact (map_lexemes_inj (h.symm.trans hscan)).symm

end Token

namespace Item

variable {file : FileId} {base : Offset} {text : Text} {item : Item} {i : Nat} {a : Attribute}

/-- An item without one of its attributes reads as its text with the attribute cut out. Parsing that
text again, under any number and at any offset, gives the other attributes and the same body. -/
theorem parse_without (h : parse file base text = .ok item) (ha : item.attributes[i]? = some a)
    (file' : FileId) (base' : Offset) :
    let before := (item.attributes.take i).flatMap (·.node.text)
    let after := (item.attributes.drop (i + 1)).flatMap (·.node.text) ++ Token.render item.body
    item.node.text = before ++ a.node.text ++ after ∧ (item.without a).text = before ++ after ∧
      ∃ item', parse file' base' (before ++ after) = .ok item' ∧
        item'.attributes.map Attribute.spelling =
          (item.attributes.map Attribute.spelling).eraseIdx i ∧
        item'.body.map Token.lexemes = item.body.map Token.lexemes := by
  obtain ⟨last, -, -, hscan⟩ := Token.lex_eq_beforeEnd file base text
  obtain ⟨f, hform, hs⟩ := parse_readAs h
  obtain ⟨hts, hfirst, hcount⟩ := hform.tokens_eq ha
  have hleft : (item.without a).tokens = f.before i ++ f.after i := by
    rw [without, Node.of_tokens, hform.tokens, hfirst, hcount, take_append_drop_hole hts]
  have hbefore := hform.before_text i
  have hafter := hform.after_text i
  intro before after
  have hsides : before ++ after = render (f.before i) ++ render (f.after i) :=
    congrArg₂ (· ++ ·) hbefore hafter
  refine ⟨?_, ?_, ?_⟩
  · rw [Node.text, hform.tokens, hts, render_append, render_append, ← hbefore, ← hafter]
    rfl
  · rw [Node.text, hleft, render_append, hsides]
  · -- the tokens on both sides of the hole are cut as before, so they are read by the form without it
    have hcut := scan_render_append (hts ▸ hscan) (AttributeForm.flatMap_tokens_cases _)
    rw [hsides]
    have hs' : Spelled (f.before i ++ f.after i) := by
      intro t ht
      refine hs t (hts ▸ ?_)
      simp only [List.mem_append] at ht ⊢
      exact ht.imp_left .inl
    obtain ⟨rest, hrest, hrestForm⟩ := (f.without i).parse hs'
    obtain ⟨item', hitem', hspellings, hbody⟩ :=
      ofTokens_alike (beforeEnd_lexemes file' base' hcut) hrest
    refine ⟨item', hitem', ?_, ?_⟩
    · rw [hspellings, hrestForm.spellings, hform.spellings, List.eraseIdx_map]
      rfl
    · rw [hbody, hrestForm.body, hform.body]
      rfl

/-- Three attributes, with a comment between the last two. -/
def adorned : Text := "#[a]\n#[derive(B)] // c\n#[d]fn f;"

def adornedItem : Item :=
  (parse 1 0 adorned).toOption.getD default

theorem parse_without_adorned :
    parse 1 0 adorned = .ok adornedItem ∧ adornedItem.attributes[1]?.isSome ∧
      (adornedItem.without adornedItem.attributes[1]!).text =
        Text.ofString "#[a] // c\n#[d]fn f;" ∧
      ∃ item', parse 2 5 (adornedItem.without adornedItem.attributes[1]!).text = .ok item' ∧
        item'.attributes.map (·.name) = [Text.ofString "a", "d"] ∧
        Token.render item'.body = Text.ofString "fn f;" := by
  have hparse : parse 1 0 adorned = .ok adornedItem := by decide +kernel
  have hattribute : adornedItem.attributes[1]? = some adornedItem.attributes[1]! := by decide +kernel
  obtain ⟨-, htext, item', hitem', hspellings, hbody⟩ := parse_without hparse hattribute 2 5
  have hnames := congrArg (List.map Attribute.Spelling.name) hspellings
  rw [List.map_map] at hnames
  refine ⟨hparse, by rw [hattribute]; rfl, by decide +kernel, item', by rwa [htext], ?_, ?_⟩
  · exact hnames.trans (by decide +kernel)
  · exact (Token.render_congr hbody).trans (by decide +kernel)

end Item

end MacroRelay
