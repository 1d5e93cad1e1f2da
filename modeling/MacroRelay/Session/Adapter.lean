import MacroRelay.Catalogue
import MacroRelay.Expansion.Generated
import MacroRelay.Session.Basic
import MacroRelay.Suite
import MacroRelay.Tree.Parse

/-!
# Plugins of a package

A package handles annotated items with one plugin and all of its inline calls with another.
Both turn source into a request and the answer into generated code; a request that degrades
leaves nothing.
-/

namespace MacroRelay

abbrev ScopeResolver := FileId → Text → Scope

/-- The component is the package. -/
def ScopeResolver.byPackage : ScopeResolver := fun _ package => ⟨package⟩

structure PluginContext where
  files : FileSet
  scope : ScopeResolver := ScopeResolver.byPackage
  edition : Text := []

namespace PluginContext

def stream (c : PluginContext) (n : Node) : Gen2.Stream :=
  Gen2.Stream.ofNode (some c.files) n c.edition

end PluginContext

namespace Package

def handlesAttribute (p : Package) (a : Attribute) : Bool :=
  p.declaredAttributes.contains a.name

def attributeRequest (p : Package) (c : PluginContext) (item : Item) (a : Attribute) :
    Gen2.AttributeRequest where
  context := c.scope item.node.file p.name
  attr := a.name
  args := c.stream (a.args.getD ⟨⟨.attributeArgs, item.node.file, 0, 0⟩, []⟩)
  item := c.stream (item.without a)
  callSite := (CallSite.of a.node).span

/-- The derives of this package on an item, each once, with the attribute that names the first
one. -/
def derivesOn (p : Package) (item : Item) : List Text × Option Attribute :=
  let named := item.attributes.flatMap fun a => a.deriveNames.map fun name => (name, a)
  let mine := named.filter fun (name, _) => p.derives.items.contains name
  (firsts (mine.map (·.1)), mine.head?.map (·.2))

def deriveRequest (p : Package) (c : PluginContext) (item : Item) (names : List Text) (a : Attribute) :
    Gen2.DeriveRequest where
  context := c.scope item.node.file p.name
  derives := some names
  item := c.stream item.node
  callSite := (CallSite.of a.node).span

def inlineRequest (p : Package) (c : PluginContext) (call : InlineCall) : Gen2.InlineRequest where
  context := c.scope call.node.file p.name
  name := call.name
  args := c.stream call.args
  callSite := (CallSite.of call.node).span

end Package

namespace Workspace

variable {σ κ : Type}

/-- The answer in host space. Dropped mappings leave a trace. -/
def generated (w : Workspace σ κ) (name : Text) (r : Gen2.Result) (site : CallSite) :
    Workspace σ κ × Generated :=
  let (g, dropped) := Generated.ofAnswer name r site
  if dropped = 0 then (w, g)
  else ({ w with trace := w.trace.point Trace.Scope.request "mappings:dropped" (Text.decimal dropped) }, g)

def expandAttribute (call : Caller σ κ) (w : Workspace σ κ) (p : Package) (c : PluginContext)
    (item : Item) (a : Attribute) : Workspace σ κ × Generated :=
  match w.expand call p.generation (.attribute (p.attributeRequest c item a)) with
  | (w, none) => (w, {})
  | (w, some r) =>
    let (w, g) := w.generated ("proc_macro_" ++ a.name) r (CallSite.of a.node)
    let tag (f : GeneratedFile) : GeneratedFile :=
      { f with executable := if p.isExecutable a.name then some a.name else none }
    (w, { g with code := g.code.map tag, removesItem := true })

def expandDerives (call : Caller σ κ) (w : Workspace σ κ) (p : Package) (c : PluginContext)
    (item : Item) (names : List Text) (a : Attribute) : Workspace σ κ × Generated :=
  match w.expand call p.generation (.derive (p.deriveRequest c item names a)) with
  | (w, none) => (w, {})
  | (w, some r) => w.generated "proc_macro_derive" r (CallSite.of a.node)

/-- Expands the first attribute that the package declares; without one, its derives. -/
def expandItem (call : Caller σ κ) (w : Workspace σ κ) (p : Package) (c : PluginContext)
    (item : Item) : Workspace σ κ × Generated :=
  match item.attributes.find? p.handlesAttribute with
  | some a => w.expandAttribute call p c item a
  | none =>
    match p.derivesOn item with
    | (names, some a) => w.expandDerives call p c item names a
    | (_, none) => (w, {})

/-- An inline call that expands to nothing without an error is itself an error. -/
def expandInline (call : Caller σ κ) (w : Workspace σ κ) (p : Package) (c : PluginContext)
    (inline : InlineCall) : Workspace σ κ × Generated :=
  let site := CallSite.of inline.node
  match w.expand call p.generation (.inline (p.inlineRequest c inline)) with
  | (w, none) => (w, {})
  | (w, some r) =>
    let (w, g) := w.generated "inline_proc_macro" r site
    if g.code.isNone && !Diagnostic.hasErrors g.diagnostics then
      (w, { g with diagnostics := g.diagnostics ++ [Generated.nothingError inline.name site] })
    else (w, g)

end Workspace

/-- The plugins of a package name the package that they work for. -/
abbrev PackageSuite := Suite Package Package

/-- One item plugin, and one inline plugin for all inline names. A name that the package lists
twice is bound once. -/
def Package.suite (p : Package) : Except SuiteFault PackageSuite :=
  let items : PackageSuite :=
    Suite.addPlugin {} ⟨p.declaredAttributes, p.derives.items, p.executables.items, p⟩
  p.inlineMacros.items.foldlM (fun suite name =>
    if (suite.inline? name).isSome then .ok suite else suite.bindInline name p) items

def Catalogue.suites (c : Catalogue) : Except SuiteFault (List (Text × PackageSuite)) :=
  c.packages.mapM fun p => do return (p.name, ← p.suite)

def Workspace.buildSuites (w : Workspace σ κ) (c : Catalogue) :
    Workspace σ κ × Except SuiteFault (List (Text × PackageSuite)) :=
  let (trace, work) := w.trace.start Trace.Scope.session "build-suites" 0
  let (trace, work) := trace.attach work "packages" (Text.decimal c.packages.length)
  ({ w with trace := trace.finish work [] }, c.suites)

end MacroRelay
