import MacroRelay.Proofs.Session.Generations
import MacroRelay.Proofs.Tree.Nodes
import Mathlib.Data.List.Flatten

/-!
# Streams show the source

The tokens of a node stand in the source in the same order, maybe with a gap where an attribute was
taken out. So a stream of the node has the text of the node, and every token of it is what its span
cuts out of the source.
-/

namespace MacroRelay

-- ---------------------------------------------------------------------------
-- Pieces in order
-- ---------------------------------------------------------------------------

namespace Piece

variable {file : FileId} {base : Offset} {ls : List Lexeme}

theorem stop_le_of_mem_row {p : Piece} (hp : p ∈ row file base ls)
    (h : base.toNat + (ls.flatMap Lexeme.text).length < 2 ^ 32) :
    p.stop.toNat ≤ base.toNat + (ls.flatMap Lexeme.text).length ∧
      p.stop.toNat = p.start.toNat + p.text.length := by
  obtain ⟨before, after, htext, hspan⟩ := mem_row hp
  rw [htext] at h ⊢
  simp only [List.length_append] at h ⊢
  have hstart : p.start.toNat = base.toNat + before.length := by
    rw [start, hspan, Span.of, Offset.toNat_advance (by omega)]
  have hstop : p.stop.toNat = p.start.toNat + p.text.length := by
    rw [hstart, stop, hspan, Span.of, Offset.toNat_advance (by rw [Offset.toNat_advance] <;> omega),
      Offset.toNat_advance (by omega)]
  omega

/-- No piece starts before the end of an earlier one. -/
theorem row_pairwise (h : base.toNat + (ls.flatMap Lexeme.text).length < 2 ^ 32) :
    (row file base ls).Pairwise fun p q => p.stop ≤ q.start := by
  induction ls generalizing base with
  | nil => exact List.pairwise_singleton _ _
  | cons l ls ih =>
    rw [List.flatMap_cons, List.length_append] at h
    have hstop : (Span.of base l.text).stop.toNat = base.toNat + l.text.length := by
      rw [Span.stop_of, Offset.toNat_advance (by omega)]
    have hrest : (Span.of base l.text).stop.toNat + (ls.flatMap Lexeme.text).length < 2 ^ 32 := by
      omega
    rw [row_cons]
    exact .cons (fun q hq => (cutFrom_of_mem_row hq hrest).base_le) (ih hrest)

def streamToken (p : Piece) : Gen2.StreamToken := ⟨p.text, p.span.span⟩

end Piece

-- ---------------------------------------------------------------------------
-- Nodes of a text
-- ---------------------------------------------------------------------------

/-- The tokens of the node are tokens of the text, in its order. -/
def Node.From (file : FileId) (base : Offset) (text : Text) (n : Node) : Prop :=
  n.tokens.Sublist (Token.beforeEnd (Token.lex file base text))

section Nodes

variable {file : FileId} {base : Offset} {text : Text} {item : Item} {a : Attribute}

theorem Item.node_from (h : Item.parse file base text = .ok item) : item.node.From file base text :=
  (nodes_within h List.mem_cons_self).sublist

theorem Item.without_from (h : item.node.From file base text) (a : Attribute) :
    (item.without a).From file base text := by
  refine .trans ?_ h
  rw [Item.without, Node.of_tokens]
  conv_rhs => rw [← List.take_append_drop a.first item.node.tokens]
  refine (List.Sublist.refl _).append ?_
  rw [← List.drop_drop]
  exact List.drop_sublist ..

theorem Item.args_from (h : Item.parse file base text = .ok item) (ha : a ∈ item.attributes)
    {args : Node} (hargs : a.args = some args) : args.From file base text := by
  refine (nodes_within h ?_).sublist
  refine List.mem_cons_of_mem _ (List.mem_flatMap.mpr ⟨a, ha, List.mem_cons_of_mem _ ?_⟩)
  exact Option.mem_toList.mpr hargs

theorem InlineCall.args_from {call : InlineCall} (h : InlineCall.parse file base text = .ok call) :
    call.args.From file base text :=
  (nodes_within h (List.mem_cons_of_mem _ List.mem_cons_self)).sublist

end Nodes

-- ---------------------------------------------------------------------------
-- Streams of nodes
-- ---------------------------------------------------------------------------

namespace Gen2

/-- The stream has the text of the node. Its tokens are stretches of the source in their order: each
is what its span cuts out of the source, none is empty, and no two have a byte in common. -/
structure Stream.Shows (base : Offset) (source : Text) (n : Node) (s : Stream) : Prop where
  text : s.text = n.text
  downgrade : s.downgrade.value = n.text
  filled : ∀ t ∈ s.tokens.items, t.content ≠ []
  cut : ∀ t ∈ s.tokens.items, base ≤ t.span.start ∧ t.span.start < t.span.stop ∧
    t.span.stop.toNat ≤ base.toNat + source.length ∧
    t.content = source.extract (t.span.start.toNat - base.toNat) (t.span.stop.toNat - base.toNat)
  ordered : s.tokens.items.Pairwise fun t t' =>
    t.span.start < t'.span.start ∧ t.span.stop ≤ t'.span.start

theorem Stream.tokensOf_eq {t : Token} (h : t.text ≠ []) :
    tokensOf t = t.pieces.map Piece.streamToken := by
  simp [tokensOf, h, Token.pieces, Piece.streamToken, Trivia.piece]

end Gen2

namespace Node.From

variable {file : FileId} {base : Offset} {text : Text} {n : Node}

theorem mem_lex (h : n.From file base text) {t : Token} (ht : t ∈ n.tokens) :
    t ∈ Token.lex file base text ∧ t.text ≠ [] := by
  obtain ⟨last, hlex, hs, -⟩ := Token.lex_eq_beforeEnd file base text
  exact ⟨hlex ▸ List.mem_append_left _ (h.subset ht), hs t (h.subset ht)⟩

theorem pieces (h : n.From file base text) :
    (n.tokens.flatMap Token.pieces).Sublist (Piece.row file base (Lexeme.scan text)) := by
  obtain ⟨last, hlex, -, -⟩ := Token.lex_eq_beforeEnd file base text
  rw [← Token.lex_pieces, hlex, List.flatMap_append]
  exact (List.Sublist.flatMap h _).trans (List.sublist_append_left _ _)

theorem text_ne_nil (h : n.From file base text) {p : Piece}
    (hp : p ∈ n.tokens.flatMap Token.pieces) : p.text ≠ [] := by
  obtain ⟨t, ht, hp⟩ := List.mem_flatMap.mp hp
  obtain ⟨hlex, hne⟩ := h.mem_lex ht
  rcases List.mem_append.mp hp with hp | hp
  · obtain ⟨v, hv, rfl⟩ := List.mem_map.mp hp
    exact Lexeme.text_ne_nil_of_mem_scan (Token.trivia_mem_scan hlex hv)
  · rw [List.mem_singleton.mp hp]
    exact hne

theorem items_ofNode (h : n.From file base text) (files : Option FileSet) (edition : Text) :
    (Gen2.Stream.ofNode files n edition).tokens.items =
      (n.tokens.flatMap Token.pieces).map Piece.streamToken := by
  rw [Gen2.Stream.ofNode, Sequence.items, Option.getD_some, List.map_flatMap]
  exact List.flatMap_congr fun t ht => Gen2.Stream.tokensOf_eq (h.mem_lex ht).2

theorem shows (h : n.From file base text) (hbound : base.toNat + text.length < 2 ^ 32)
    (files : Option FileSet) (edition : Text) :
    (Gen2.Stream.ofNode files n edition).Shows base text n := by
  have htext := Gen2.Stream.text_ofNode files n edition
  have hrow : base.toNat + ((Lexeme.scan text).flatMap Lexeme.text).length < 2 ^ 32 := by
    rwa [Lexeme.scan_flatMap_text]
  have hfilled (p : Piece) (hp : p ∈ n.tokens.flatMap Token.pieces) : p.start < p.stop := by
    obtain ⟨-, hlength⟩ := Piece.stop_le_of_mem_row (h.pieces.subset hp) hrow
    have hpos := List.length_pos_iff.mpr (h.text_ne_nil hp)
    rw [UInt32.lt_iff_toNat_lt]
    omega
  constructor
  case text => exact htext
  case downgrade => exact htext
  case filled =>
    rw [h.items_ofNode, List.forall_mem_map]
    exact fun p hp => h.text_ne_nil hp
  case cut =>
    rw [h.items_ofNode, List.forall_mem_map]
    intro p hp
    have hcut := Piece.cutFrom_of_mem_row (h.pieces.subset hp) hrow
    have hstop := (Piece.stop_le_of_mem_row (h.pieces.subset hp) hrow).1
    rw [Lexeme.scan_flatMap_text] at hcut hstop
    exact ⟨hcut.base_le, hfilled p hp, hstop, hcut.text_eq⟩
  case ordered =>
    rw [h.items_ofNode, List.pairwise_map]
    refine .imp_of_mem (fun hp _ hle => ?_) ((Piece.row_pairwise hrow).sublist h.pieces)
    exact ⟨UInt32.lt_of_lt_of_le (hfilled _ hp) hle, hle⟩

end Node.From

-- ---------------------------------------------------------------------------
-- Requests
-- ---------------------------------------------------------------------------

def PluginJob.ReadFrom (file : FileId) (base : Offset) (text : Text) : PluginJob → Prop
  | .onItem item => Item.parse file base text = .ok item
  | .onCall call => InlineCall.parse file base text = .ok call

/-- Without parentheses an attribute has empty arguments. -/
def Item.argsOf (item : Item) (a : Attribute) : Node :=
  a.args.getD ⟨⟨.attributeArgs, item.node.file, 0, 0⟩, []⟩

/-- The streams of the request show the nodes of the job that they stand for. -/
def Expansion.Shows (base : Offset) (text : Text) (job : PluginJob) : Expansion → Prop
  | .attribute r => ∃ item a, job = .onItem item ∧ a ∈ item.attributes ∧ r.attr = a.name ∧
    r.args.Shows base text (item.argsOf a) ∧ r.item.Shows base text (item.without a)
  | .derive r => ∃ item, job = .onItem item ∧ r.item.Shows base text item.node
  | .inline r => ∃ call, job = .onCall call ∧ r.name = call.name ∧ r.args.Shows base text call.args

theorem Item.argsOf_from {file : FileId} {base : Offset} {text : Text} {item : Item} {a : Attribute}
    (h : Item.parse file base text = .ok item) (ha : a ∈ item.attributes) :
    (item.argsOf a).From file base text := by
  unfold argsOf
  cases hargs : a.args with
  | none => exact List.nil_sublist _
  | some args => exact args_from h ha hargs

namespace PluginJob

variable {file : FileId} {base : Offset} {text : Text} {job : PluginJob} {e : Expansion}

theorem shows_of_request (h : job.ReadFrom file base text)
    (hbound : base.toNat + text.length < 2 ^ 32) (p : Package) (c : PluginContext)
    (he : e ∈ job.request? p c) : e.Shows base text job := by
  rw [Option.mem_def] at he
  cases job with
  | onItem item =>
    have hitem := Item.node_from h
    simp only [request?] at he
    split at he
    · rename_i a ha
      cases he
      have hmem := List.mem_of_find?_eq_some ha
      exact ⟨item, a, rfl, hmem, rfl, (Item.argsOf_from h hmem).shows hbound _ _,
        (Item.without_from hitem a).shows hbound _ _⟩
    · split at he
      · cases he
        exact ⟨item, rfl, hitem.shows hbound _ _⟩
      · cases he
  | onCall call =>
    cases he
    exact ⟨call, rfl, rfl, (InlineCall.args_from h).shows hbound _ _⟩

end PluginJob

end MacroRelay
