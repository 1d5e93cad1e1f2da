import MacroRelay.Proofs.Catalogue
import MacroRelay.Proofs.Expansion.Streams
import MacroRelay.Proofs.Session.Posts
import MacroRelay.Proofs.Tree.Removal

/-!
# Source text as a server receives it

No name and no stream of a request is longer than the text that the job was parsed from. So the request
fits the wire, and a server of either generation reads it, and in it the source, out of its message.
-/

namespace MacroRelay

variable {file : FileId} {base : Offset} {text : Text} {item : Item} {a : Attribute}

-- ---------------------------------------------------------------------------
-- Names are not longer than the text
-- ---------------------------------------------------------------------------

theorem Token.length_bareText_le {ts ts' : List Token} (h : ts.Sublist ts') :
    (bareText ts).length ≤ (render ts').length := by
  refine Nat.le_trans ?_ (List.Sublist.flatMap h fullText).length_le
  clear h
  induction ts with
  | nil => exact Nat.le_refl _
  | cons t ts ih =>
    simp only [bareText, fullText, List.flatMap_cons, List.length_append] at ih ⊢
    omega

theorem Node.From.length_text {n : Node} (h : n.From file base text) : n.text.length ≤ text.length := by
  obtain ⟨last, hlex, -⟩ := Token.lex_eq_beforeEnd file base text
  have htokens : n.tokens.Sublist (Token.lex file base text) := by
    rw [hlex]
    exact List.Sublist.trans h (List.sublist_append_left ..)
  calc n.text.length ≤ (Token.render (Token.lex file base text)).length :=
        (List.Sublist.flatMap htokens _).length_le
    _ = text.length := by rw [Token.render_lex]

namespace Attribute

variable {names : List Text}

theorem entriesOnto_ne_nil (h : ∀ name ∈ names, name ≠ []) (current : Text) (ts : List Token) :
    ∀ name ∈ entriesOnto names current ts, name ≠ [] := by
  have hpush {current : Text} {names : List Text} (h : ∀ name ∈ names, name ≠ []) :
      ∀ name ∈ (if current = [] then names else current :: names), name ≠ [] := by
    split
    · exact h
    · exact List.forall_mem_cons.mpr ⟨‹_›, h⟩
  induction ts generalizing names current with
  | nil =>
    simp only [entriesOnto, List.mem_reverse]
    exact hpush h
  | cons t rest ih =>
    rw [entriesOnto]
    split
    · exact ih (hpush h) []
    · exact ih h _

theorem length_entriesOnto (names : List Text) (current : Text) (ts : List Token) :
    (entriesOnto names current ts).flatten.length ≤
      names.flatten.length + current.length + (Token.bareText ts).length := by
  have hpush (current : Text) (names : List Text) :
      (if current = [] then names else current :: names).flatten.length =
        names.flatten.length + current.length := by
    split <;> simp [*, Nat.add_comm]
  induction ts generalizing names current with
  | nil =>
    have hreverse (names : List Text) : names.reverse.flatten.length = names.flatten.length := by
      simp [List.length_flatten]
    rw [entriesOnto, hreverse, hpush]
    exact Nat.le_add_right ..
  | cons t rest ih =>
    have htail : (Token.bareText (t :: rest)).length = t.text.length + (Token.bareText rest).length := by
      simp [Token.bareText]
    rw [entriesOnto, htail]
    split
    · refine (ih _ _).trans ?_
      rw [hpush, List.length_nil]
      omega
    · refine (ih _ _).trans ?_
      rw [List.length_append]
      omega

theorem deriveNames_ne_nil (a : Attribute) : ∀ name ∈ a.deriveNames, name ≠ [] := by
  unfold deriveNames
  split
  · split
    · exact entriesOnto_ne_nil (List.forall_mem_nil _) [] _
    · simp
  · simp

theorem length_deriveNames {form : AttributeForm} (h : form.ReadAs a) :
    a.deriveNames.flatten.length ≤ a.node.text.length := by
  unfold deriveNames
  split
  · rename_i args hargs
    split
    · have hform : some args.tokens = form.args := by rw [← h.args, hargs, Option.map_some]
      have hinner : ((args.tokens.drop 1).dropLast).Sublist a.node.tokens := by
        rw [h.tokens]
        exact ((List.dropLast_sublist _).trans (List.drop_sublist ..)).trans
          (AttributeForm.args_within hform.symm).sublist
      have hnames := length_entriesOnto [] [] (args.tokens.drop 1).dropLast
      rw [List.flatten_nil, List.length_nil, Nat.zero_add] at hnames
      exact hnames.trans (Token.length_bareText_le hinner)
    · exact Nat.zero_le _
  · exact Nat.zero_le _

end Attribute

namespace Item

theorem length_name (h : Item.parse file base text = .ok item) (ha : a ∈ item.attributes) :
    a.name.length ≤ text.length := by
  obtain ⟨f, hform, -⟩ := Item.parse_readAs h
  obtain ⟨k, hk⟩ := List.mem_iff_getElem?.mp ha
  obtain ⟨form, -, hread⟩ := hform.exists_form hk
  have hnode : a.node.From file base text :=
    (nodes_within h (List.mem_cons_of_mem _ (List.mem_flatMap.mpr ⟨a, ha, List.mem_cons_self⟩))).sublist
  have hpath : form.path.Sublist a.node.tokens := by
    rw [hread.tokens, AttributeForm.tokens, AttributeForm.inner, List.append_assoc]
    exact ((List.sublist_append_left ..).cons _).cons _
  rw [hread.name]
  exact (Token.length_bareText_le hpath).trans hnode.length_text

theorem length_deriveNames (h : Item.parse file base text = .ok item) :
    (item.attributes.flatMap Attribute.deriveNames).flatten.length ≤ text.length := by
  obtain ⟨f, hform, -⟩ := Item.parse_readAs h
  have hnames : ∀ attributes forms, List.Forall₂ AttributeForm.ReadAs forms attributes →
      (attributes.flatMap Attribute.deriveNames).flatten.length ≤
        (Token.render (forms.flatMap (·.tokens))).length := by
    intro attributes forms hall
    induction hall with
    | nil => exact Nat.le_refl _
    | @cons form a forms attributes ha hall ih =>
      have hfirst := Attribute.length_deriveNames ha
      rw [Node.text, ha.tokens] at hfirst
      simp only [List.flatMap_cons, List.flatten_append, List.length_append, Token.render_append]
      omega
  refine (hnames _ _ hform.attributes).trans (Nat.le_trans ?_ (Item.node_from h).length_text)
  rw [Node.text, hform.tokens]
  conv_rhs => rw [f.tokens_eq]
  rw [Token.render_append, List.length_append]
  exact Nat.le_add_right ..

end Item

theorem InlineCall.length_name {call : InlineCall} (h : InlineCall.parse file base text = .ok call) :
    call.name.length ≤ text.length := by
  have hnode : call.node.From file base text := (nodes_within h List.mem_cons_self).sublist
  obtain ⟨f, -, rfl⟩ := exists_front h
  refine (Token.length_bareText_le ?_).trans hnode.length_text
  rw [Node.of_tokens]
  conv_rhs => rw [f.tokens_eq]
  simp

-- ---------------------------------------------------------------------------
-- Requests fit
-- ---------------------------------------------------------------------------

/-- What a context adds to the requests of a package is short enough for the wire. -/
structure PluginContext.Fits (c : PluginContext) (p : Package) : Prop where
  component : ∀ file, (c.scope file p.name).component.length < 2 ^ 32
  path : ∀ file, (c.files.filePath file).length < 2 ^ 32
  edition : c.edition.length < 2 ^ 32

section

variable {c : PluginContext} {p : Package} {n : Node}

theorem PluginContext.fits_of_no_files {edition : Text} (hname : p.name.length < 2 ^ 32)
    (hedition : edition.length < 2 ^ 32) : PluginContext.Fits ⟨.empty, .byPackage, edition⟩ p :=
  ⟨fun _ => hname, fun _ => Nat.two_pow_pos 32, hedition⟩

theorem Node.From.length_stream (h : n.From file base text) (htext : text.length < 2 ^ 32)
    (c : PluginContext) : (c.stream n).text.length < 2 ^ 32 := by
  rw [PluginContext.stream, Gen2.Stream.text_ofNode]
  exact Nat.lt_of_le_of_lt h.length_text htext

theorem Node.From.stream_fits (h : n.From file base text) (htext : text.length < 2 ^ 32)
    (hc : c.Fits p) : (c.stream n).Fits := by
  have hrendered := h.length_stream htext c
  have hfilled : ∀ t ∈ (c.stream n).tokens.items, t.content ≠ [] := by
    rw [PluginContext.stream, h.items_ofNode, List.forall_mem_map]
    exact fun p hp => h.text_ne_nil hp
  constructor
  case tokens => exact Nat.lt_of_le_of_lt (length_le_flatMap hfilled) hrendered
  case contents =>
    exact fun t ht => Nat.lt_of_le_of_lt (length_le_of_mem_flatMap (·.content) ht) hrendered
  case path => exact hc.path n.file
  case fileId => exact n.file.length_decimal
  case edition => exact hc.edition

theorem Package.derivesOn_sublist (p : Package) (item : Item) :
    (p.derivesOn item).1.Sublist (item.attributes.flatMap Attribute.deriveNames) := by
  refine (firsts_sublist _).trans ?_
  have hnamed : (item.attributes.flatMap fun a => a.deriveNames.map fun name => (name, a)).map (·.1) =
      item.attributes.flatMap Attribute.deriveNames := by
    simp [List.map_flatMap, Function.comp_def]
  exact hnamed ▸ List.filter_sublist.map _

theorem Item.derives_fit (h : Item.parse file base text = .ok item) (htext : text.length < 2 ^ 32)
    {names : List Text} (hnames : names.Sublist (item.attributes.flatMap Attribute.deriveNames)) :
    names.length < 2 ^ 32 ∧ ∀ name ∈ names, name.length < 2 ^ 32 := by
  have hflat : (names.flatMap id).length ≤ text.length := by
    rw [List.flatMap_id]
    exact (List.Sublist.flatten hnames).length_le.trans (length_deriveNames h)
  have hfilled : ∀ name ∈ names, id name ≠ [] := by
    intro name hname
    obtain ⟨a, -, ha⟩ := List.mem_flatMap.mp (hnames.subset hname)
    exact a.deriveNames_ne_nil name ha
  have hcount := length_le_flatMap hfilled
  refine ⟨by omega, fun name hname => ?_⟩
  have hlength := length_le_of_mem_flatMap id hname
  rw [id_eq] at hlength
  omega

/-- The requests for what is written in a text can be sent. -/
theorem PluginJob.sendable_of_request {job : PluginJob} {e : Expansion}
    (h : job.ReadFrom file base text) (htext : text.length < 2 ^ 32) (hc : c.Fits p)
    (he : e ∈ job.request? p c) : e.Sendable := by
  have hstream {n : Node} (hn : n.From file base text) : (c.stream n).Fits :=
    hn.stream_fits htext hc
  have hrendered {n : Node} (hn : n.From file base text) : (c.stream n).text.length < 2 ^ 32 :=
    hn.length_stream htext c
  rw [Option.mem_def] at he
  cases job with
  | onItem item =>
    have hitem := Item.node_from h
    simp only [request?] at he
    split at he
    · rename_i a ha
      cases he
      have hmem := List.mem_of_find?_eq_some ha
      have hargs := Item.argsOf_from h hmem
      have hrest := Item.without_from hitem a
      have hname := Nat.lt_of_le_of_lt (Item.length_name h hmem) htext
      refine ⟨⟨?_, ?_⟩, Nat.two_pow_pos 32⟩
      · simp only [Key.Fits, Expansion.key, Key.texts, List.forall_mem_cons]
        exact ⟨hc.component _, hname, hrendered hargs, hrendered hrest, List.forall_mem_nil _⟩
      · simp only [Expansion.streams, List.forall_mem_cons]
        exact ⟨hstream hargs, hstream hrest, List.forall_mem_nil _⟩
    · split at he
      · rename_i names a hderives
        cases he
        have hnames := p.derivesOn_sublist item
        rw [hderives] at hnames
        obtain ⟨hcount, hlengths⟩ := Item.derives_fit h htext hnames
        refine ⟨⟨?_, ?_⟩, ?_⟩
        · simp only [Key.Fits, Expansion.key, Key.texts, List.forall_mem_append, List.forall_mem_cons]
          refine ⟨⟨hc.component _, hrendered hitem, List.forall_mem_nil _⟩, ?_⟩
          rw [Gen2.DeriveRequest.key, Sequence.items_ite]
          exact hlengths
        · simp only [Expansion.streams, List.forall_mem_cons]
          exact ⟨hstream hitem, List.forall_mem_nil _⟩
        · simp only [Expansion.input, Expansion.key, MacroInput.ofKey, MacroInput.derives]
          rw [Gen2.DeriveRequest.key, Sequence.items_ite]
          exact hcount
      · cases he
  | onCall call =>
    cases he
    have hargs := InlineCall.args_from h
    have hname := Nat.lt_of_le_of_lt (InlineCall.length_name h) htext
    refine ⟨⟨?_, ?_⟩, Nat.two_pow_pos 32⟩
    · simp only [Key.Fits, Expansion.key, Key.texts, List.forall_mem_cons]
      exact ⟨hc.component _, hname, hrendered hargs, List.forall_mem_nil _⟩
    · simp only [Expansion.streams, List.forall_mem_cons]
      exact ⟨hstream hargs, List.forall_mem_nil _⟩

end

-- ---------------------------------------------------------------------------
-- What is received
-- ---------------------------------------------------------------------------

/-- Keeps the messages that it gets, and has nothing to say. -/
def Workspace.listening : Caller (List Text) Unit :=
  fun heard _ _ message => (heard ++ [message], .ok none)

/-- Connected to a server that has heard nothing, and without caches. -/
def Workspace.unheard : Workspace (List Text) Unit :=
  { cell := some (.connected ()), files := FileTree.empty "/", remote := [] }

namespace PluginJob

variable {job : PluginJob}

/-- What a server of either generation gets for an item or a call is the source it was parsed from. It
gets nothing else. -/
theorem request_shows (h : job.ReadFrom file base text)
    (hbound : base.toNat + text.length < 2 ^ 32) (p : Package) (c : PluginContext) :
    (∀ e ∈ job.request? p c, e.Shows base text job ∧
      (c.Fits p → ∀ {σ κ : Type} (call : Caller σ κ) (w : Workspace σ κ),
        let out := w.perform call p c job
        ∃ answer, Workspace.Posted call w p.generation e out.1 answer ∧
          out.2 = answer.elim {} fun r => job.conclude p r)) ∧
      (job.request? p c = none → ∀ {σ κ : Type} (call : Caller σ κ) (w : Workspace σ κ),
        w.perform call p c job = (w, {})) := by
  refine ⟨fun e he => ⟨shows_of_request h hbound p c he, fun hc σ κ call w => ?_⟩,
    fun hnone σ κ call w => Workspace.perform_of_none hnone w⟩
  have hsendable : e.Sendable := sendable_of_request h (by omega) hc he
  exact Workspace.perform_posted call he hsendable w

/-- The attribute in the middle is expanded. -/
def spread : Text := "#[a] #[m(x)]// c\nfn f;"

def spreadItem : Item :=
  (Item.parse 1 3 spread).toOption.getD default

def spreadPackage (g : Generation) : Package := ⟨"pkg", some ["m"], none, none, none, g⟩

def spreadContext : PluginContext := ⟨.empty, .byPackage, "2024_07"⟩

def spreadRequest : Gen2.AttributeRequest :=
  (spreadPackage .second).attributeRequest spreadContext spreadItem spreadItem.attributes[1]!

theorem request_shows_spread :
    let heard (g : Generation) := (Workspace.unheard.perform Workspace.listening (spreadPackage g)
      spreadContext (.onItem spreadItem)).1.remote
    (Expansion.attribute spreadRequest).Shows 3 spread (.onItem spreadItem) ∧
      (∃ message, heard .first = [message] ∧
        (Gen1.AttributeRequest.codec.decode? message).map (fun r => (r.attr, r.args.value, r.item.value)) =
          some (Text.ofString "m", Text.ofString "(x)", Text.ofString "#[a]// c\nfn f;")) ∧
      ∃ message, heard .second = [message] ∧
        (Gen2.AttributeRequest.codec.decode? message).map (fun r => (r.args.tokens.items,
            r.item.tokens.items.map fun t => (t.content, t.span.start))) =
          some ([⟨"(", ⟨11, 12⟩⟩, ⟨"x", ⟨12, 13⟩⟩, ⟨")", ⟨13, 14⟩⟩],
            [(Text.ofString "#", 3), ("[", 4), ("a", 5), ("]", 6), ("// c", 15), ("\n", 19), ("fn", 20),
              (" ", 22), ("f", 23), (";", 24)]) := by
  have hread : (onItem spreadItem).ReadFrom 1 3 spread :=
    (by decide +kernel : Item.parse 1 3 spread = .ok spreadItem)
  have hrequest (g : Generation) : (onItem spreadItem).request? (spreadPackage g) spreadContext =
      some (.attribute spreadRequest) := by
    have hfind : spreadItem.attributes.find? (spreadPackage g).handlesAttribute =
        some spreadItem.attributes[1]! := by cases g <;> decide +kernel
    simp only [request?, hfind]
    rfl
  have hfits (g : Generation) : spreadContext.Fits (spreadPackage g) :=
    PluginContext.fits_of_no_files (by cases g <;> decide) (by decide)
  have hheard (g : Generation) : ∃ message,
      (Workspace.unheard.perform Workspace.listening (spreadPackage g) spreadContext
        (.onItem spreadItem)).1.remote = [message] ∧
      (Expansion.attribute spreadRequest).ReadIn g message := by
    obtain ⟨hshows, -⟩ := request_shows hread (by decide) (spreadPackage g) spreadContext
    obtain ⟨-, hposted⟩ := hshows _ (hrequest g)
    obtain ⟨answer, hposted, -⟩ := hposted (hfits g) Workspace.listening Workspace.unheard
    obtain ⟨message, hread, hremote, -⟩ :=
      hposted.message rfl (Workspace.cached?_of_no_caches rfl rfl)
    exact ⟨message, hremote, hread⟩
  obtain ⟨hshows, -⟩ := request_shows hread (by decide) (spreadPackage .second) spreadContext
  refine ⟨(hshows _ (hrequest .second)).1, ?_, ?_⟩
  · obtain ⟨message, hmessage, hdecode⟩ := hheard .first
    exact ⟨message, hmessage, by rw [hdecode]; decide +kernel⟩
  · obtain ⟨message, hmessage, hdecode⟩ := hheard .second
    exact ⟨message, hmessage, by rw [hdecode]; decide +kernel⟩

end PluginJob

end MacroRelay
