import MacroRelay.Relay.Basic

/-!
# Expanding files

Every file holds one item or one inline call. Files are expanded one after another and
reported in order; the first file that fails ends the run.
-/

namespace MacroRelay

inductive ExpandMode where
  | attr
  | derive
  | inline
deriving DecidableEq

def ExpandMode.name : ExpandMode → Text
  | .attr => "attr"
  | .derive => "derive"
  | .inline => "inline"

structure ExpandOptions where
  mode : ExpandMode
  /-- The only package to consult; empty for all. -/
  package : Text := []
  edition : Text := []

structure FileReport where
  path : Text
  file : FileId
  code : List GeneratedFile
  diagnostics : List Diagnostic
deriving DecidableEq

inductive ExpandError where
  | unreadable (fault : FileFault)
  | unparsed (e : ParseError)
  | unknownPackage (name : Text)
  | noAttribute
  | carriesAttribute (name : Text)
  | noInline (name : Text)
deriving DecidableEq

def ExpandError.message : ExpandError → Text
  | .unreadable fault => fault.message
  | .unparsed e => e.message
  | .unknownPackage name => "unknown macro package " ++ name.quoted
  | .noAttribute => "no macro attribute on the item"
  | .carriesAttribute name => "item carries macro attribute #[" ++ name ++ "]; use `expand attr`"
  | .noInline name => "no package provides inline macro " ++ name.quoted

structure BatchError where
  path : Text
  cause : ExpandError
deriving DecidableEq

def BatchError.message (e : BatchError) : Text :=
  e.path ++ ": " ++ e.cause.message

def Diagnostic.unknownDerive (a : Attribute) (name : Text) : Diagnostic where
  severity := Severity.warning
  code := DiagnosticCode.unknownDerive
  message := "derive " ++ name ++ " is not provided by any macro package"
  primary := a.node.pointer.span

namespace Relay

variable {σ κ : Type}

def consulted (suites : List (Text × PackageSuite)) (package : Text) :
    Except ExpandError (List PackageSuite) :=
  if package = [] then .ok (suites.map (·.2))
  else match suites.lookup package with
    | some suite => .ok [suite]
    | none => .error (.unknownPackage package)

/-- The suite for the first attribute that any of the suites declares; of several suites the
first. -/
def attributeSuite? (suites : List PackageSuite) (item : Item) : Option PackageSuite :=
  item.attributes.findSome? fun a => suites.find? (·.recognizes a.name)

def runPlugins (call : Caller σ κ) (suite : PackageSuite) (c : PluginContext) (item : Item)
    (w : Workspace σ κ) : Workspace σ κ × List Generated :=
  suite.plugins.foldl (fun (w, made) p =>
    let (w, g) := w.expandItem call p.handler c item
    (w, made ++ [g])) (w, [])

def expandAttribute (call : Caller σ κ) (suites : List PackageSuite) (c : PluginContext) (item : Item)
    (w : Workspace σ κ) : Workspace σ κ × Except ExpandError (List Generated) :=
  match attributeSuite? suites item with
  | none => (w, .error .noAttribute)
  | some suite =>
    let (w, made) := runPlugins call suite c item w
    (w, .ok made)

/-- Runs the plugins of every suite, up to one that declares an attribute of the item. -/
def runDerives (call : Caller σ κ) (c : PluginContext) (item : Item) :
    List PackageSuite → Workspace σ κ → Workspace σ κ × Except ExpandError (List Generated)
  | [], w => (w, .ok [])
  | suite :: rest, w =>
    match item.attributes.find? fun a => suite.recognizes a.name with
    | some a => (w, .error (.carriesAttribute a.name))
    | none =>
      let (w, made) := runPlugins call suite c item w
      match runDerives call c item rest w with
      | (w, .ok more) => (w, .ok (made ++ more))
      | (w, .error e) => (w, .error e)

/-- A warning for every derive that no suite declares. -/
def derivesUnknownTo (suites : List PackageSuite) (item : Item) : List Diagnostic :=
  item.attributes.flatMap fun a =>
    (a.deriveNames.filter fun name => !suites.any (·.declaredDerives.contains name)).map
      (Diagnostic.unknownDerive a)

def expandDerives (call : Caller σ κ) (suites : List PackageSuite) (c : PluginContext) (item : Item)
    (w : Workspace σ κ) : Workspace σ κ × Except ExpandError (List Generated) :=
  match runDerives call c item suites w with
  | (w, .ok made) => (w, .ok (made ++ [{ diagnostics := derivesUnknownTo suites item }]))
  | (w, .error e) => (w, .error e)

/-- The first suite that binds the name expands the call. -/
def expandInline (call : Caller σ κ) (suites : List PackageSuite) (c : PluginContext)
    (inline : InlineCall) (w : Workspace σ κ) : Workspace σ κ × Except ExpandError (List Generated) :=
  match suites.findSome? (·.inline? inline.name) with
  | none => (w, .error (.noInline inline.name))
  | some p =>
    let (w, g) := w.expandInline call p c inline
    (w, .ok [g])

def expandText (call : Caller σ κ) (o : ExpandOptions) (suites : List (Text × PackageSuite))
    (sources : FileSet) (id : FileId) (text : Text) (w : Workspace σ κ) :
    Workspace σ κ × Except ExpandError (List Generated) :=
  let c : PluginContext := { files := sources, edition := o.edition }
  match o.mode with
  | .inline =>
    match InlineCall.parse id 0 text, consulted suites o.package with
    | .error e, _ => (w, .error (.unparsed e))
    | _, .error e => (w, .error e)
    | .ok inline, .ok suites => expandInline call suites c inline w
  | mode =>
    match Item.parse id 0 text, consulted suites o.package with
    | .error e, _ => (w, .error (.unparsed e))
    | _, .error e => (w, .error e)
    | .ok item, .ok suites =>
      if mode = .attr then expandAttribute call suites c item w
      else expandDerives call suites c item w

def expandFile (call : Caller σ κ) (o : ExpandOptions) (r : Relay σ κ) (path : Text) :
    Relay σ κ × Except ExpandError FileReport :=
  match r.sources.load r.workspace.files path with
  | .error fault => (r, .error (.unreadable fault))
  | .ok (sources, id) =>
    let text := ((sources.get? id).map (·.content)).getD []
    let (workspace, made) := expandText call o r.suites sources id text r.workspace
    ({ r with sources, workspace }, match made with
      | .error e => .error e
      | .ok made => .ok ⟨path, id, made.filterMap (·.code), made.flatMap (·.diagnostics)⟩)

/-- One report for every file, or the first failure. -/
def expandFiles (call : Caller σ κ) (o : ExpandOptions) : List Text → Relay σ κ →
    Relay σ κ × Except BatchError (List FileReport)
  | [], r => (r, .ok [])
  | path :: rest, r =>
    let (timer, handle) := r.timer.start ("expand " ++ path) 0
    let (r, done) := expandFile call o { r with timer } path
    let r := { r with timer := r.timer.finish handle o.mode.name 0 }
    match done with
    | .error cause => (r, .error ⟨path, cause⟩)
    | .ok report =>
      match expandFiles call o rest r with
      | (r, .ok reports) => (r, .ok (report :: reports))
      | (r, .error e) => (r, .error e)

end Relay

end MacroRelay
