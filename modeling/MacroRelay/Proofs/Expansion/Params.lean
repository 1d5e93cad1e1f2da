import MacroRelay.Proofs.Expansion.Request

/-!
# What a macro is given

A server reads a component, a name or derives, and texts out of the parameters of a request. They
are the same in either generation, and the key of the request has all of them.
-/

namespace MacroRelay

inductive MacroInput where
  | «attribute» (component name args item : Text)
  | «derive» (component : Text) (names : List Text) (item : Text)
  | «inline» (component name args : Text)
deriving DecidableEq

namespace MacroInput

def derives : MacroInput → List Text
  | .derive _ names _ => names
  | _ => []

def ofKey : Key → MacroInput
  | .attribute k => .attribute k.context.component k.attr k.args k.item
  | .derive k => .derive k.context.component k.derives.items k.item
  | .inline k => .inline k.context.component k.name k.args

def ofParams? : Generation → Shape → Text → Option MacroInput
  | .first, .attribute, t => (Gen1.AttributeRequest.codec.decode? t).map fun r =>
    .attribute r.context.component r.attr r.args.value r.item.value
  | .first, .derive, t => (Gen1.DeriveRequest.codec.decode? t).map fun r =>
    .derive r.context.component r.derives.items r.item.value
  | .first, .inline, t => (Gen1.InlineRequest.codec.decode? t).map fun r =>
    .inline r.context.component r.name r.args.value
  | .second, .attribute, t => (Gen2.AttributeRequest.codec.decode? t).map fun r =>
    .attribute r.context.component r.attr r.args.text r.item.text
  | .second, .derive, t => (Gen2.DeriveRequest.codec.decode? t).map fun r =>
    .derive r.context.component r.derives.items r.item.text
  | .second, .inline, t => (Gen2.InlineRequest.codec.decode? t).map fun r =>
    .inline r.context.component r.name r.args.text

end MacroInput

namespace Expansion

def input (e : Expansion) : MacroInput :=
  .ofKey e.key

/-- Nothing in the request is too long for the wire, the list of derives included. -/
structure Sendable (e : Expansion) : Prop where
  fits : e.Fits
  derives : e.input.derives.length < 2 ^ 32

end Expansion

open Codec MacroRelay.Field

/-- An empty list of derives counts as none in the key and in the first generation. -/
theorem Sequence.items_ite (names : Sequence Text) :
    Sequence.items (if names.items = [] then none else names) = names.items := by
  split
  · rename_i h
    exact h.symm
  · rfl

-- ---------------------------------------------------------------------------
-- Requests of the first generation
-- ---------------------------------------------------------------------------

theorem Gen1.Stream.codec_returns {s : Gen1.Stream} (h : s.Fits) : Gen1.Stream.codec.Returns s s :=
  record_returns (by decide) (.of (text_returns h.value) (.of (record_returns (by decide)
    (.text_unlessZero h.path rfl (.text_unlessZero h.fileId rfl .nil))) .nil))

namespace Gen2

theorem Stream.Fits.downgrade_returns {s : Stream} (h : s.Fits) (htext : s.text.length < 2 ^ 32) :
    Gen1.Stream.codec.Returns s.downgrade s.downgrade :=
  Gen1.Stream.codec_returns ⟨htext, h.path, h.fileId⟩

theorem AttributeRequest.downgrade_returns {r : AttributeRequest}
    (h : (Expansion.attribute r).Fits) :
    Gen1.AttributeRequest.codec.Returns r.downgrade r.downgrade := by
  obtain ⟨hkey, hstreams⟩ := h
  simp only [Key.Fits, Expansion.key, Key.texts, List.forall_mem_cons] at hkey
  simp only [Expansion.streams, List.forall_mem_cons] at hstreams
  obtain ⟨hcontext, hattr, hargs, hitem, -⟩ := hkey
  exact record_returns (by decide) (.of (Scope.codec_returns hcontext)
    (.of (text_returns hattr) (.of (hstreams.1.downgrade_returns hargs)
      (.of (hstreams.2.1.downgrade_returns hitem) .nil))))

theorem InlineRequest.codec_returns {r : InlineRequest} (h : (Expansion.inline r).Fits) :
    InlineRequest.codec.Returns r r ∧
      Gen1.InlineRequest.codec.Returns r.downgrade r.downgrade := by
  obtain ⟨hkey, hstreams⟩ := h
  simp only [Key.Fits, Expansion.key, Key.texts, List.forall_mem_cons] at hkey
  simp only [Expansion.streams, List.forall_mem_cons] at hstreams
  obtain ⟨hcontext, hname, hargs, -⟩ := hkey
  constructor
  · exact record_returns (by decide) (.of (Scope.codec_returns hcontext)
      (.of (text_returns hname) (.of (Stream.codec_returns hstreams.1)
        (.of r.callSite.codec_returns .nil))))
  · exact record_returns (by decide) (.of (Scope.codec_returns hcontext)
      (.of (text_returns hname) (.of (hstreams.1.downgrade_returns hargs) .nil)))

theorem DeriveRequest.codec_returns {r : DeriveRequest} (h : (Expansion.derive r).Sendable) :
    DeriveRequest.codec.Returns r r ∧
      Gen1.DeriveRequest.codec.Returns r.downgrade r.downgrade := by
  obtain ⟨⟨hkey, hstreams⟩, hderives⟩ := h
  simp only [Key.Fits, Expansion.key, Key.texts, List.forall_mem_append,
    List.forall_mem_cons] at hkey
  simp only [Expansion.streams, List.forall_mem_cons] at hstreams
  obtain ⟨⟨hcontext, hitem, -⟩, hnames⟩ := hkey
  constructor
  · simp only [Expansion.input, Expansion.key, MacroInput.ofKey, MacroInput.derives] at hderives
    simp only [DeriveRequest.key, Sequence.items_ite] at hnames hderives
    exact record_returns (by decide) (.of (Scope.codec_returns hcontext)
      (.of (texts_returns hderives hnames) (.of (Stream.codec_returns hstreams.1)
        (.of r.callSite.codec_returns .nil))))
  · exact record_returns (by decide) (.of (Scope.codec_returns hcontext)
      (.of (texts_returns hderives hnames) (.of (hstreams.1.downgrade_returns hitem) .nil)))

end Gen2

-- ---------------------------------------------------------------------------
-- What the message says
-- ---------------------------------------------------------------------------

namespace Expansion

/-- A server of the generation decodes the message to the request; one of the first to what that
steps down to. -/
def ReadIn : Expansion → Generation → Text → Prop
  | .attribute r, .first, t => Gen1.AttributeRequest.codec.decode? t = some r.downgrade
  | .derive r, .first, t => Gen1.DeriveRequest.codec.decode? t = some r.downgrade
  | .inline r, .first, t => Gen1.InlineRequest.codec.decode? t = some r.downgrade
  | .attribute r, .second, t => Gen2.AttributeRequest.codec.decode? t = some r
  | .derive r, .second, t => Gen2.DeriveRequest.codec.decode? t = some r
  | .inline r, .second, t => Gen2.InlineRequest.codec.decode? t = some r

variable {e : Expansion}

theorem params_readIn (h : e.Sendable) (g : Generation) : e.ReadIn g (e.params g) := by
  cases e with
  | «attribute» r =>
    cases g with
    | first => exact (Gen2.AttributeRequest.downgrade_returns h.fits).decode
    | second => exact (Gen2.AttributeRequest.codec_returns h.fits).decode
  | «derive» r =>
    obtain ⟨hsecond, hfirst⟩ := Gen2.DeriveRequest.codec_returns h
    cases g with
    | first => exact hfirst.decode
    | second => exact hsecond.decode
  | «inline» r =>
    obtain ⟨hsecond, hfirst⟩ := Gen2.InlineRequest.codec_returns h.fits
    cases g with
    | first => exact hfirst.decode
    | second => exact hsecond.decode

theorem ReadIn.input {g : Generation} {message : Text} (h : e.ReadIn g message) :
    MacroInput.ofParams? g e.shape message = some e.input := by
  cases e with
  | «derive» r =>
    cases g with
    | first => exact congrArg (Option.map _) h
    | second =>
      have hitems : r.key.derives.items = r.derives.items := Sequence.items_ite r.derives
      refine (congrArg (Option.map _) h).trans ?_
      simp [input, Expansion.key, MacroInput.ofKey, hitems]
      exact ⟨rfl, rfl⟩
  | _ => cases g <;> exact congrArg (Option.map _) h

end Expansion

end MacroRelay
