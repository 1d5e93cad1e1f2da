import MacroRelay.Expansion.Stream
import MacroRelay.Proofs.Token.Relexing
import MacroRelay.Proofs.Tree.Calls

/-!
# Nodes of a text

Every node that is read from a text is a run of its tokens. A run that is rendered and cut again gives
the same tokens, wherever it was taken from, so who receives the text of a node sees the tokens that
it was made of.
-/

namespace MacroRelay

open Token

-- ---------------------------------------------------------------------------
-- Nodes
-- ---------------------------------------------------------------------------

def Attribute.nodes (a : Attribute) : List Node :=
  a.node :: a.args.toList

def Item.nodes (item : Item) : List Node :=
  item.node :: item.attributes.flatMap Attribute.nodes

def InlineCall.nodes (call : InlineCall) : List Node :=
  [call.node, call.args]

section

variable {file : FileId} {base : Offset} {text : Text} {item : Item} {call : InlineCall} {n : Node}

theorem AttributeForm.args_within {a : AttributeForm} {group : List Token} (h : a.args = some group) :
    group <:+: a.tokens := by
  refine ⟨a.hash :: a.bracket :: a.path, [a.close], ?_⟩
  simp [tokens, inner, h]

theorem Item.nodes_within (h : Item.parse file base text = .ok item) (hn : n ∈ item.nodes) :
    n.tokens <:+: beforeEnd (lex file base text) := by
  obtain ⟨f, hform, -⟩ := Item.parse_readAs h
  rcases List.mem_cons.mp hn with rfl | hn
  · exact hform.tokens ▸ List.infix_rfl
  · obtain ⟨a, ha, hn⟩ := List.mem_flatMap.mp hn
    obtain ⟨k, hk⟩ := List.mem_iff_getElem?.mp ha
    obtain ⟨form, -, hread⟩ := hform.exists_form hk
    have hattribute : a.node.tokens <:+: beforeEnd (lex file base text) := by
      rw [← (hform.range k a hk).2, hform.tokens]
      exact (List.take_prefix ..).isInfix.trans (List.drop_suffix ..).isInfix
    rcases List.mem_cons.mp hn with rfl | hn
    · exact hattribute
    · have hargs := hread.args
      rw [Option.mem_toList.mp hn, Option.map_some] at hargs
      rw [hread.tokens] at hattribute
      exact (AttributeForm.args_within hargs.symm).trans hattribute

theorem InlineCall.exists_front (h : InlineCall.parse file base text = .ok call) :
    ∃ f : CallFront (beforeEnd (lex file base text)), f.IsClosed ∧
      call = ⟨Node.of .inlineCall (beforeEnd (lex file base text)), bareText f.path,
        Node.of .inlineArgs f.args⟩ := by
  obtain ⟨-, -, hs, -⟩ := lex_eq_beforeEnd file base text
  obtain ⟨f, hclosed⟩ := (InlineCall.ofTokens_isOk hs).mp ⟨call, h⟩
  exact ⟨f, hclosed, Except.ok.inj (h.symm.trans (f.ofTokens_closed hs hclosed))⟩

theorem InlineCall.nodes_within (h : InlineCall.parse file base text = .ok call)
    (hn : n ∈ call.nodes) : n.tokens <:+: beforeEnd (lex file base text) := by
  obtain ⟨f, -, rfl⟩ := exists_front h
  simp only [nodes, List.mem_cons, List.not_mem_nil, or_false] at hn
  rcases hn with rfl | rfl
  · exact Node.of_tokens _ _ ▸ List.infix_rfl
  · rw [Node.of_tokens]
    conv_rhs => rw [f.tokens_eq]
    exact ⟨f.path ++ [f.bang], [], by simp⟩

end

-- ---------------------------------------------------------------------------
-- Cutting again
-- ---------------------------------------------------------------------------

namespace Token

variable {file : FileId} {base : Offset} {text : Text} {ts : List Token}

/-- Under any number and at any offset, the text is cut into these tokens, each with its trivia, and
has nothing behind them. -/
def CutsInto (text : Text) (ts : List Token) : Prop :=
  ∀ (file : FileId) (base : Offset), ∃ again stop, lex file base text = again ++ [stop] ∧
    again.map lexemes = ts.map lexemes ∧ stop.kind = .eof ∧ stop.text = [] ∧ stop.leading = []

theorem stop_of_lex {stop : Token} (h : lex file base text = ts ++ [stop]) :
    stop.kind = .eof ∧ stop.text = [] := by
  obtain ⟨front, last, hlex, hkind, htext, -⟩ := lex_eq_concat file base text
  obtain ⟨-, hlast⟩ := List.append_inj' (h.symm.trans hlex) rfl
  obtain rfl : stop = last := by simpa using hlast
  exact ⟨hkind, htext⟩

theorem cutsInto_of_scan (h : Lexeme.scan text = ts.flatMap lexemes) : CutsInto text ts := by
  intro file base
  obtain ⟨stop, hlex, -, hscan⟩ := lex_eq_beforeEnd file base text
  obtain ⟨hkind, htext⟩ := stop_of_lex hlex
  have hsame := map_lexemes_inj (h.symm.trans hscan)
  refine ⟨_, stop, hlex, hsame.symm, hkind, htext, ?_⟩
  -- the tokens use up the text, so no trivia is left
  rw [h, List.flatMap_def, List.flatMap_def, hsame, List.self_eq_append_right] at hscan
  exact List.map_eq_nil_iff.mp hscan

theorem cutsInto_of_within (h : ts <:+: beforeEnd (lex file base text)) : CutsInto (render ts) ts := by
  obtain ⟨stop, -, -, hscan⟩ := lex_eq_beforeEnd file base text
  obtain ⟨front, behind, hts⟩ := h
  rw [← hts, List.flatMap_append, List.flatMap_append, List.append_assoc, List.append_assoc] at hscan
  refine cutsInto_of_scan ?_
  rw [render_eq]
  exact Lexeme.scan_left (Lexeme.scan_of_eq_append hscan)

theorem within_beforeEnd (h : ts <:+: lex file base text) (hkind : ∀ t ∈ ts, t.kind ≠ .eof) :
    ts <:+: beforeEnd (lex file base text) := by
  obtain ⟨stop, hlex, -, -⟩ := lex_eq_beforeEnd file base text
  obtain ⟨front, behind, hts⟩ := h
  rw [hlex] at hts
  rcases List.eq_nil_or_concat behind with rfl | ⟨behind, last, rfl⟩
  · rcases List.eq_nil_or_concat ts with rfl | ⟨ts, last, rfl⟩
    · exact List.nil_infix
    · rw [List.append_nil, List.concat_eq_append, ← List.append_assoc] at hts
      obtain ⟨-, hlast⟩ := List.append_inj' hts rfl
      obtain rfl : last = stop := by simpa using hlast
      exact absurd (stop_of_lex hlex).1 (hkind last (by simp))
  · rw [List.concat_eq_append, ← List.append_assoc] at hts
    exact ⟨front, behind, (List.append_inj' hts rfl).1⟩

end Token

theorem Gen2.Stream.text_ofNode (files : Option FileSet) (n : Node) (edition : Text) :
    (ofNode files n edition).text = n.text := by
  have htoken (t : Token) : (tokensOf t).flatMap (·.content) = t.fullText := by
    unfold tokensOf Token.fullText Token.leadingText
    split <;> simp [List.flatMap_map, *]
  rw [ofNode, text, Sequence.items, Option.getD_some, List.flatMap_assoc]
  simp only [htoken]
  rfl

/-- Who is sent the node as text cuts it into the tokens of the node. -/
def Node.ReadsBack (n : Node) : Prop :=
  ∀ (files : Option FileSet) (edition : Text),
    CutsInto (Gen2.Stream.ofNode files n edition).downgrade.value n.tokens

theorem Node.readsBack {file : FileId} {base : Offset} {text : Text} {n : Node}
    (h : n.tokens <:+: beforeEnd (lex file base text)) : n.ReadsBack := by
  intro files edition
  rw [Gen2.Stream.downgrade, Gen2.Stream.text_ofNode]
  exact cutsInto_of_within h

/-- Tokens that stand together in a text are cut from their own text as they are, and so are the tokens
of every node that is read from it. -/
theorem Token.lex_stable (file : FileId) (base : Offset) (text : Text) :
    (∀ ts, ts <:+: lex file base text → (∀ t ∈ ts, t.kind ≠ .eof) → CutsInto (render ts) ts) ∧
    (∀ item, Item.parse file base text = .ok item → ∀ n ∈ item.nodes, n.ReadsBack) ∧
    ∀ call, InlineCall.parse file base text = .ok call → ∀ n ∈ call.nodes, n.ReadsBack :=
  ⟨fun _ hts hkind => cutsInto_of_within (within_beforeEnd hts hkind),
    fun _ hitem _ hn => Node.readsBack (Item.nodes_within hitem hn),
    fun _ hcall _ hn => Node.readsBack (InlineCall.nodes_within hcall hn)⟩

/-- A literal that a line feed leaves open, behind a comment and in front of half an operator. -/
def torn : Text := "f // c\n 'u\n = >x"

def tornRun : List Token := ((Token.lex 0 0 torn).drop 1).take 2

def bracketedItem : Item :=
  (Item.parse 1 0 "#[d(\"]\")] f").toOption.getD default

def escapedCall : InlineCall :=
  (InlineCall.parse 1 0 "m!['\\']']").toOption.getD default

theorem Token.lex_stable_torn :
    tornRun.map (·.text) = [Text.ofString "'u", "="] ∧
      render tornRun = Text.ofString " // c\n 'u\n =" ∧ CutsInto (render tornRun) tornRun ∧
      bracketedItem.nodes.map (·.text) =
        [Text.ofString "#[d(\"]\")] f", "#[d(\"]\")]", "(\"]\")"] ∧
      (∀ n ∈ bracketedItem.nodes, n.ReadsBack) ∧
      escapedCall.args.text = Text.ofString "['\\']']" ∧ escapedCall.args.ReadsBack := by
  have hrun : tornRun <:+: lex 0 0 torn :=
    (List.take_prefix ..).isInfix.trans (List.drop_suffix ..).isInfix
  have hitem : Item.parse 1 0 "#[d(\"]\")] f" = .ok bracketedItem := by decide +kernel
  have hcall : InlineCall.parse 1 0 "m!['\\']']" = .ok escapedCall := by decide +kernel
  exact ⟨by decide +kernel, by decide +kernel,
    (lex_stable 0 0 torn).1 tornRun hrun (by decide +kernel), by decide +kernel,
    (lex_stable 1 0 _).2.1 bracketedItem hitem, by decide +kernel,
    (lex_stable 1 0 _).2.2 escapedCall hcall _ (by simp [InlineCall.nodes])⟩

end MacroRelay
