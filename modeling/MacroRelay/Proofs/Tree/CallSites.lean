import MacroRelay.Proofs.Token.Grammar
import MacroRelay.Proofs.Tree.Nodes
import MacroRelay.Proofs.Tree.Removal
import MacroRelay.Proofs.Wire.Messages

/-!
# Where nodes stand

A node stands behind the text of the tokens in front of it, and its span covers it without the trivia
at its start. So the span cuts the node out of the source, the spans of attributes follow one another
inside the item and in front of its body, and arguments are inside the node that they belong to.
-/

namespace MacroRelay

open Token

/-- A letter or an underscore, and digits as well behind it. -/
def Lexer.IsName (t : Text) : Prop :=
  ∃ b rest, t = b :: rest ∧ isIdentStart b ∧ ∀ c ∈ rest, isIdentContinue c

theorem Token.isName_of_isIdent {file : FileId} {base : Offset} {source : Text} {t : Token}
    (h : t ∈ lex file base source) (hident : t.isIdent) : Lexer.IsName t.text := by
  have hkind : t.kind = .ident := beq_iff_eq.mp hident
  obtain ⟨front, behind, hlex⟩ := List.append_of_mem h
  obtain ⟨-, hrule⟩ := rule_of_lex hlex (by rw [hkind]; nofun)
  rw [hkind] at hrule
  generalize t.text = s at hrule ⊢
  cases hrule with
  | ident hb hlongest =>
    exact ⟨_, _, rfl, hb, fun c hc => hlongest.all c (List.mem_cons_of_mem _ hc)⟩

-- ---------------------------------------------------------------------------
-- Runs of tokens in their places
-- ---------------------------------------------------------------------------

theorem Token.place_of_lex {file : FileId} {base : Offset} {source : Text} {front behind : List Token}
    {t : Token} (h : lex file base source = front ++ t :: behind)
    (hbound : base.toNat + source.length < 2 ^ 32) : t.span.file = file ∧
      t.span.span.start.toNat = base.toNat + (render front).length + t.leadingText.length ∧
      t.span.span.stop.toNat = base.toNat + (render front).length + t.fullText.length := by
  have hsource := congrArg List.length (render_lex file base source)
  rw [h, render_append, render_cons, fullText] at hsource
  simp only [List.length_append] at hsource
  have hstart : (base.advance (Width.of (render front ++ t.leadingText))).toNat =
      base.toNat + (render front).length + t.leadingText.length := by
    rw [Offset.toNat_advance] <;> rw [List.length_append] <;> omega
  rw [span_of_lex h]
  refine ⟨rfl, hstart, ?_⟩
  rw [Span.stop_of, Offset.toNat_advance (by omega), hstart, fullText, List.length_append]
  omega

namespace Node

/-- The trivia in front of the node, which its span leaves out. -/
def leadingText (n : Node) : Text :=
  n.tokens.head?.elim [] Token.leadingText

theorem Whole.first {n : Node} {t : Token} {ts : List Token} (h : n.Whole) (hts : n.tokens = t :: ts) :
    n.pointer.span.file = t.span.file ∧ n.span.start = t.span.span.start := by
  rw [span, h.pointer, hts, Node.of, List.head?_cons, List.getLast?_cons]
  exact ⟨rfl, rfl⟩

theorem Whole.last {n : Node} {t : Token} {ts : List Token} (h : n.Whole)
    (hts : n.tokens = ts ++ [t]) : n.span.stop = t.span.span.stop := by
  rw [span, h.pointer, hts, Node.of, List.getLast?_concat]
  cases ts <;> rfl

def slice (base : Offset) (source : Text) (n : Node) : Text :=
  source.extract (n.span.start.toNat - base.toNat) (n.span.stop.toNat - base.toNat)

/-- The tokens of the node stand in the source between those in front and those behind. -/
structure Stands (file : FileId) (base : Offset) (source : Text) (front : List Token) (n : Node)
    (behind : List Token) : Prop where
  tokens_eq : beforeEnd (lex file base source) = front ++ n.tokens ++ behind
  whole : n.Whole
  bound : base.toNat + source.length < 2 ^ 32

namespace Stands

variable {file : FileId} {base : Offset} {source : Text} {front behind pre post : List Token}
  {n m : Node}

theorem source_eq (h : n.Stands file base source front behind) :
    ∃ rest, source = render front ++ n.text ++ rest := by
  obtain ⟨stop, hlex, -, -⟩ := lex_eq_beforeEnd file base source
  have hrender := render_lex file base source
  rw [hlex, h.tokens_eq, render_append, render_append, render_append, List.append_assoc] at hrender
  exact ⟨_, hrender.symm⟩

theorem start_eq (h : n.Stands file base source front behind) : n.pointer.span.file = file ∧
    n.span.start.toNat = base.toNat + (render front).length + n.leadingText.length := by
  obtain ⟨t, ts, hts⟩ := List.exists_cons_of_ne_nil h.whole.tokens
  obtain ⟨stop, hlex, -, -⟩ := lex_eq_beforeEnd file base source
  rw [h.tokens_eq, hts, List.append_assoc, List.append_assoc, List.cons_append] at hlex
  obtain ⟨hfile, hstart, -⟩ := place_of_lex hlex h.bound
  obtain ⟨hfirst, hspan⟩ := h.whole.first hts
  refine ⟨hfirst.trans hfile, ?_⟩
  rw [hspan, hstart, leadingText, hts]
  rfl

theorem stop_eq (h : n.Stands file base source front behind) :
    n.span.stop.toNat = base.toNat + (render front).length + n.text.length := by
  rcases List.eq_nil_or_concat n.tokens with hnil | ⟨ts, t, hts⟩
  · exact absurd hnil h.whole.tokens
  · obtain ⟨stop, hlex, -, -⟩ := lex_eq_beforeEnd file base source
    rw [List.concat_eq_append] at hts
    rw [h.tokens_eq, hts, ← List.append_assoc, List.append_assoc, List.append_assoc,
      List.singleton_append] at hlex
    obtain ⟨-, -, hstop⟩ := place_of_lex hlex h.bound
    rw [h.whole.last hts, hstop, Node.text, hts, render_append, render_append, render_cons]
    simp only [List.length_append, render, List.flatMap_nil, List.length_nil]
    omega

theorem slice_eq (h : n.Stands file base source front behind) {t : Token} {ts : List Token}
    (hts : n.tokens = t :: ts) : n.slice base source = t.text ++ render ts := by
  obtain ⟨rest, hsource⟩ := h.source_eq
  have hlead : n.leadingText = t.leadingText := by
    rw [leadingText, hts]
    rfl
  have htext : n.text = t.leadingText ++ (t.text ++ render ts) := by
    rw [Node.text, hts, render_cons, fullText, List.append_assoc]
  have hfrom : n.span.start.toNat - base.toNat = (render front ++ t.leadingText).length := by
    rw [h.start_eq.2, hlead, List.length_append]
    omega
  have hto : n.span.stop.toNat - base.toNat =
      (render front ++ t.leadingText).length + (t.text ++ render ts).length := by
    rw [h.stop_eq, htext]
    simp only [List.length_append]
    omega
  rw [slice, hfrom, hto, hsource, htext, ← List.append_assoc (render front)]
  generalize render front ++ t.leadingText = before
  generalize t.text ++ render ts = bare
  simp

/-- The span cuts the node out of the source, without the trivia at its start. -/
theorem text_eq (h : n.Stands file base source front behind) :
    n.text = n.leadingText ++ n.slice base source := by
  obtain ⟨t, ts, hts⟩ := List.exists_cons_of_ne_nil h.whole.tokens
  rw [h.slice_eq hts, Node.text, leadingText, hts, render_cons, fullText, List.append_assoc]
  rfl

theorem part (h : n.Stands file base source front behind) (hm : m.Whole)
    (hsplit : n.tokens = pre ++ m.tokens ++ post) :
    m.Stands file base source (front ++ pre) (post ++ behind) := by
  refine ⟨?_, hm, h.bound⟩
  rw [h.tokens_eq, hsplit]
  simp only [List.append_assoc]

theorem start_lt (h : n.Stands file base source front behind) : n.span.start < n.span.stop := by
  obtain ⟨t, ts, hts⟩ := List.exists_cons_of_ne_nil h.whole.tokens
  obtain ⟨-, -, hs, -⟩ := lex_eq_beforeEnd file base source
  have ht : t.text ≠ [] := by
    refine hs t ?_
    rw [h.tokens_eq, hts]
    simp
  have hpos := List.length_pos_iff.mpr ht
  rw [UInt32.lt_iff_toNat_lt, h.start_eq.2, h.stop_eq, h.text_eq, h.slice_eq hts, List.length_append,
    List.length_append]
  omega

theorem stop_le (h : n.Stands file base source front behind)
    (hm : m.Stands file base source (front ++ n.tokens ++ pre) post) : n.span.stop ≤ m.span.start := by
  rw [UInt32.le_iff_toNat_le, h.stop_eq, hm.start_eq.2, render_append, render_append]
  simp only [List.length_append, Node.text]
  omega

theorem contains_part (h : n.Stands file base source front behind) (hm : m.Whole)
    (hsplit : n.tokens = pre ++ m.tokens ++ post) : n.span.contains m.span := by
  have hpart := h.part hm hsplit
  have hlead : n.leadingText.length ≤ (render pre).length + m.leadingText.length := by
    cases pre with
    | nil =>
      obtain ⟨t, ts, hts⟩ := List.exists_cons_of_ne_nil hm.tokens
      rw [leadingText, leadingText, hsplit, hts]
      exact Nat.le_add_left _ _
    | cons t pre =>
      rw [leadingText, hsplit, render_cons, fullText]
      simp only [List.cons_append, List.head?_cons, Option.elim, List.length_append]
      omega
  have htext : n.text.length = (render pre).length + m.text.length + (render post).length := by
    rw [Node.text, hsplit, render_append, render_append, List.length_append, List.length_append]
    rfl
  rw [Span.contains_iff, h.start_eq.2, h.stop_eq, hpart.start_eq.2, hpart.stop_eq, render_append,
    List.length_append]
  omega

end Stands

/-- The span of the node is inside the source and cuts out the text of the node, all but the trivia at
its start. The call site of the node has this span, in diagnostics and for who reads it off the wire. -/
structure Sited (file : FileId) (base : Offset) (source : Text) (n : Node) : Prop where
  base_le : base ≤ n.span.start
  start_lt : n.span.start < n.span.stop
  stop_le : n.span.stop.toNat ≤ base.toNat + source.length
  text_eq : n.text = n.leadingText ++ n.slice base source
  primary : CallSite.of n = ⟨file, n.span⟩
  wire : Span.codec.decode? (Span.codec.write (CallSite.of n).span) = some n.span

theorem Stands.sited {file : FileId} {base : Offset} {source : Text} {front behind : List Token}
    {n : Node} (h : n.Stands file base source front behind) : n.Sited file base source where
  base_le := by
    rw [UInt32.le_iff_toNat_le, h.start_eq.2]
    omega
  start_lt := h.start_lt
  stop_le := by
    obtain ⟨rest, hsource⟩ := h.source_eq
    rw [h.stop_eq, hsource]
    simp only [List.length_append]
    omega
  text_eq := h.text_eq
  primary := by
    rw [CallSite.of, ← h.start_eq.1]
    rfl
  wire := n.span.codec_returns.decode

end Node

-- ---------------------------------------------------------------------------
-- Items
-- ---------------------------------------------------------------------------

/-- The attribute is cut out from `#` to `]`, and its arguments are inside. -/
structure Attribute.Sited (base : Offset) (source : Text) (a : Attribute) : Prop where
  brackets : ∃ inner, a.node.slice base source = Text.ofString "#" ++ inner ++ Text.ofString "]"
  args : ∀ args ∈ a.args, a.node.span.contains args.span

/-- The attributes stand one behind the other inside the item, and the rest of it is a body that is not
empty. -/
structure Item.Sited (file : FileId) (base : Offset) (source : Text) (item : Item) : Prop where
  nodes : ∀ n ∈ item.nodes, n.Sited file base source
  attributes : ∀ a ∈ item.attributes, a.Sited base source ∧ item.node.span.contains a.node.span
  ordered : item.attributes.Pairwise fun a b =>
    a.node.span.start < b.node.span.start ∧ a.node.span.stop ≤ b.node.span.start
  body_ne_nil : item.body ≠ []
  body : (Node.of .tokens item.body).Sited file base source ∧
    (Node.of .tokens item.body).span.stop = item.node.span.stop ∧
    ∀ a ∈ item.attributes, a.node.span.stop ≤ (Node.of .tokens item.body).span.start

theorem Node.Stands.slice_between {file : FileId} {base : Offset} {source : Text}
    {front behind ts : List Token} {n : Node} {first last : Token}
    (h : n.Stands file base source front behind) (hts : n.tokens = first :: (ts ++ [last])) :
    ∃ inner, n.slice base source = first.text ++ inner ++ last.text := by
  refine ⟨render ts ++ last.leadingText, ?_⟩
  rw [h.slice_eq hts, render_append, render_cons, fullText]
  simp [render]

theorem Node.sited_of_within {file : FileId} {base : Offset} {source : Text} {n : Node}
    (h : n.tokens <:+: beforeEnd (lex file base source)) (hwhole : n.Whole)
    (hbound : base.toNat + source.length < 2 ^ 32) : n.Sited file base source := by
  obtain ⟨front, behind, hsplit⟩ := h
  exact Stands.sited ⟨hsplit.symm, hwhole, hbound⟩

theorem Item.Whole.of_mem_nodes {item : Item} {n : Node} (h : item.Whole) (hn : n ∈ item.nodes) :
    n.Whole := by
  rcases List.mem_cons.mp hn with rfl | hn
  · exact h.node
  · obtain ⟨a, ha, hn⟩ := List.mem_flatMap.mp hn
    rcases List.mem_cons.mp hn with rfl | hn
    · exact (h.attributes a ha).node
    · exact (h.attributes a ha).args n (Option.mem_toList.mp hn)

namespace ItemForm.ReadAs

variable {file : FileId} {base : Offset} {source : Text} {item : Item} {a : Attribute} {i j : Nat}
  {f : ItemForm (beforeEnd (lex file base source))}

theorem before_of_lt (h : f.ReadAs item) (ha : item.attributes[i]? = some a) (hij : i < j) :
    ∃ between, f.before j = f.before i ++ a.node.tokens ++ between := by
  obtain ⟨form, hi, hread⟩ := h.exists_form ha
  obtain ⟨k, rfl⟩ := Nat.exists_eq_add_of_lt hij
  refine ⟨((f.attributes.drop (i + 1)).take k).flatMap (·.tokens), ?_⟩
  rw [before, before, Nat.add_right_comm, List.take_add, List.take_add_one, hi, hread.tokens]
  simp

theorem attribute_stands (h : f.ReadAs item) (hwhole : item.Whole)
    (hbound : base.toNat + source.length < 2 ^ 32) (ha : item.attributes[i]? = some a) :
    a.node.Stands file base source (f.before i) (f.after i) :=
  ⟨(h.tokens_eq ha).1, (hwhole.attributes a (List.mem_of_getElem? ha)).node, hbound⟩

theorem attribute_sited (h : f.ReadAs item) (hwhole : item.Whole)
    (hbound : base.toNat + source.length < 2 ^ 32) (ha : item.attributes[i]? = some a) :
    a.Sited base source := by
  obtain ⟨form, -, hread⟩ := h.exists_form ha
  have hstands := h.attribute_stands hwhole hbound ha
  constructor
  · have htokens : a.node.tokens = form.hash :: ((form.bracket :: form.inner) ++ [form.close]) :=
      hread.tokens
    rw [← text_of_isPunct form.hash_isPunct, ← text_of_isPunct form.close_isPunct]
    exact hstands.slice_between htokens
  · intro args hargs
    have hgroup := hread.args
    rw [hargs, Option.map_some] at hgroup
    obtain ⟨pre, post, hsplit⟩ := AttributeForm.args_within hgroup.symm
    exact hstands.contains_part ((hwhole.attributes a (List.mem_of_getElem? ha)).args args hargs)
      (hread.tokens.trans hsplit.symm)

theorem body_stands (h : f.ReadAs item) (hbound : base.toNat + source.length < 2 ^ 32) :
    (Node.of .tokens item.body).Stands file base source (f.before f.attributes.length) [] := by
  refine ⟨?_, Node.whole_of (h.body ▸ f.body_ne_nil), hbound⟩
  rw [Node.of_tokens, List.append_nil, h.body, before, List.take_length]
  exact f.tokens_eq

end ItemForm.ReadAs

section

variable {file : FileId} {base : Offset} {source : Text} {item : Item} {call : InlineCall}

theorem Item.sited (h : Item.parse file base source = .ok item)
    (hbound : base.toNat + source.length < 2 ^ 32) : item.Sited file base source := by
  obtain ⟨f, hform, -⟩ := Item.parse_readAs h
  have hwhole := Item.parse_whole h
  have hitem : item.node.Stands file base source [] [] :=
    ⟨by rw [hform.tokens, List.nil_append, List.append_nil], hwhole.node, hbound⟩
  have hbody := hform.body_stands hbound
  constructor
  case nodes => exact fun n hn => Node.sited_of_within (nodes_within h hn) (hwhole.of_mem_nodes hn) hbound
  case attributes =>
    intro a ha
    obtain ⟨i, hi⟩ := List.mem_iff_getElem?.mp ha
    have hsplit : item.node.tokens = f.before i ++ a.node.tokens ++ f.after i :=
      hform.tokens.trans (hform.tokens_eq hi).1
    exact ⟨hform.attribute_sited hwhole hbound hi,
      hitem.contains_part (hwhole.attributes a ha).node hsplit⟩
  case ordered =>
    rw [List.pairwise_iff_getElem]
    intro i j hi hj hij
    have hfirst := hform.attribute_stands hwhole hbound (List.getElem?_eq_getElem hi)
    have hsecond := hform.attribute_stands hwhole hbound (List.getElem?_eq_getElem hj)
    obtain ⟨between, hbetween⟩ := hform.before_of_lt (List.getElem?_eq_getElem hi) hij
    rw [hbetween] at hsecond
    have hle := hfirst.stop_le hsecond
    exact ⟨UInt32.lt_of_lt_of_le hfirst.start_lt hle, hle⟩
  case body_ne_nil => exact hform.body ▸ f.body_ne_nil
  case body =>
    refine ⟨hbody.sited, ?_, ?_⟩
    · have htext : item.node.text =
          render (f.before f.attributes.length) ++ (Node.of .tokens item.body).text := by
        have htokens := hform.tokens.trans hbody.tokens_eq
        rw [Node.text, htokens, List.append_nil, render_append]
        rfl
      rw [← UInt32.toNat_inj, hbody.stop_eq, hitem.stop_eq, htext, List.length_append]
      simp only [render, List.flatMap_nil, List.length_nil]
      omega
    · intro a ha
      obtain ⟨i, hi⟩ := List.mem_iff_getElem?.mp ha
      have hlt : i < f.attributes.length := by
        rw [hform.attributes.length_eq]
        exact (List.getElem?_eq_some_iff.mp hi).1
      obtain ⟨between, hbetween⟩ := hform.before_of_lt hi hlt
      rw [hbetween] at hbody
      exact (hform.attribute_stands hwhole hbound hi).stop_le hbody

/-- The call is cut out from a name to a closing delimiter, and its arguments are inside. -/
structure InlineCall.Sited (file : FileId) (base : Offset) (source : Text) (call : InlineCall) :
    Prop where
  nodes : ∀ n ∈ call.nodes, n.Sited file base source
  ends : ∃ name inner d, Lexer.IsName name ∧
    call.node.slice base source = name ++ inner ++ Delimiter.closing d
  args : call.node.span.contains call.args.span

theorem InlineCall.sited (h : InlineCall.parse file base source = .ok call)
    (hbound : base.toNat + source.length < 2 ^ 32) : call.Sited file base source := by
  have hwhole := InlineCall.parse_whole h
  obtain ⟨f, ⟨d, hgroup⟩, hcall⟩ := exists_front h
  have htokens : call.node.tokens = f.path ++ f.bang :: f.args := by
    rw [hcall, Node.of_tokens]
    exact f.tokens_eq
  have hargs : call.args.tokens = f.args := by
    rw [hcall, Node.of_tokens]
  have hcallNode : call.node.Stands file base source [] [] := by
    refine ⟨?_, hwhole.node, hbound⟩
    rw [List.nil_append, List.append_nil, hcall, Node.of_tokens]
  constructor
  case nodes =>
    intro n hn
    refine Node.sited_of_within (nodes_within h hn) ?_ hbound
    simp only [nodes, List.mem_cons, List.not_mem_nil, or_false] at hn
    rcases hn with rfl | rfl
    · exact hwhole.node
    · exact hwhole.args
  case ends =>
    obtain ⟨first, more, hpath, hident⟩ := f.isPath.isIdent_head
    obtain ⟨bracket, body, close, hparts, hclose⟩ := hgroup.exists_close
    have hbetween : call.node.tokens =
        first :: ((more ++ f.bang :: bracket :: body) ++ [close]) := by
      rw [htokens, hpath, hparts]
      simp
    obtain ⟨inner, hslice⟩ := hcallNode.slice_between hbetween
    rw [text_of_isPunct hclose] at hslice
    have hfirst : first ∈ lex file base source := by
      obtain ⟨stop, hlex, -, -⟩ := lex_eq_beforeEnd file base source
      rw [hlex, f.tokens_eq, hpath]
      simp
    exact ⟨first.text, inner, d, isName_of_isIdent hfirst hident, hslice⟩
  case args =>
    have hsplit : call.node.tokens = (f.path ++ [f.bang]) ++ call.args.tokens ++ [] := by
      rw [htokens, hargs]
      simp
    exact hcallNode.contains_part hwhole.args hsplit

/-- In a text that ends before the last offset, the call site of every node that is read from it is
where the node stands. -/
theorem Node.call_sites_exact (hbound : base.toNat + source.length < 2 ^ 32) :
    (∀ item, Item.parse file base source = .ok item → item.Sited file base source) ∧
      ∀ call, InlineCall.parse file base source = .ok call → call.Sited file base source :=
  ⟨fun _ hitem => Item.sited hitem hbound, fun _ hcall => InlineCall.sited hcall hbound⟩

end

def commentedText : Text := "\n  // c\n  mac!(x)"

def commentedCall : InlineCall :=
  (InlineCall.parse 7 20 commentedText).toOption.getD default

def spacedText : Text := " #[a (b)] // c\n#[d]\tf"

def spacedItem : Item :=
  (Item.parse 7 20 spacedText).toOption.getD default

theorem Node.call_sites_exact_spaced :
    commentedCall.nodes.map (·.span) = [⟨30, 37⟩, ⟨34, 37⟩] ∧
      commentedCall.Sited 7 20 commentedText ∧
      spacedItem.nodes.map (·.span) = [⟨21, 41⟩, ⟨21, 29⟩, ⟨25, 28⟩, ⟨35, 39⟩] ∧
      spacedItem.nodes.map (·.slice 20 spacedText) =
        [Text.ofString "#[a (b)] // c\n#[d]\tf", "#[a (b)]", "(b)", "#[d]"] ∧
      spacedItem.Sited 7 20 spacedText := by
  have hcall : InlineCall.parse 7 20 commentedText = .ok commentedCall := by decide +kernel
  have hitem : Item.parse 7 20 spacedText = .ok spacedItem := by decide +kernel
  exact ⟨by decide +kernel, (call_sites_exact (by decide +kernel)).2 commentedCall hcall,
    by decide +kernel, by decide +kernel, (call_sites_exact (by decide +kernel)).1 spacedItem hitem⟩

end MacroRelay
