import MacroRelay.Relay.Batch
import MacroRelay.Trial.Network

/-!
# A session on the bench

A workbench puts a session together with a trial server, files in memory and the suites of a
catalogue, and runs it command by command.
-/

namespace MacroRelay

structure Workbench where
  catalogue : Catalogue
  fresh : Session
  workspace : Workspace Network Nat
  sources : FileSet := .empty
  suites : List (Text × PackageSuite) := []
  /-- Puts the path of the file into the scope of its requests. -/
  scopedByFile : Bool := false

/-- Source that is put into a new virtual file and expanded for a package. -/
structure Exercise where
  package : Text
  path : Text
  base : Offset
  text : Text
  edition : Text
  /-- How many callers ask for it. -/
  callers : Nat

inductive BenchCommand where
  | connect
  | crash
  | suspend
  | item (x : Exercise)
  | inline (x : Exercise)
  | clearMemo
  | setFingerprint (t : Text)
  | reopen
  /-- The server drops its connections. -/
  | kill
  | damage (bytes : Text)
  /-- Puts a plain file where the disk cache wants a directory. -/
  | block
  | clearDisk

inductive BenchAnswer where
  | nothing
  | took (effect : Bool)
  | items (made : List Generated) (same : Bool)
  | inline (made : Generated) (same : Bool)
  | unparsed (e : ParseError)
  | noPackage
  | noInlinePlugin
  | fault (e : SuiteFault)

namespace Workbench

def build (b : Workbench) : Workbench × BenchAnswer :=
  match b.workspace.buildSuites b.catalogue with
  | (workspace, .ok suites) => ({ b with workspace, suites }, .nothing)
  | (workspace, .error e) => ({ b with workspace }, .fault e)

def withFiles (b : Workbench) (files : FileTree) : Workbench :=
  { b with workspace := { b.workspace with files } }

def setStatus (b : Workbench) (next : Status Nat) : Workbench × BenchAnswer :=
  let (cell, effect) := StatusCell.set b.workspace.cell next
  ({ b with workspace := { b.workspace with cell } }, .took effect)

/-- The bench with the source of an exercise, the new file, and where plugins run. -/
def place (b : Workbench) (x : Exercise) : Workbench × FileId × PluginContext :=
  let (sources, id) := b.sources.addVirtual x.path x.text
  let scope : ScopeResolver := if b.scopedByFile
    then fun file package => ⟨sources.filePath file ++ [0x23] ++ package⟩ else ScopeResolver.byPackage
  ({ b with sources }, id, ⟨sources, scope, x.edition⟩)

def ask [DecidableEq α] (b : Workbench) (callers : Nat)
    (step : Workspace Network Nat → Workspace Network Nat × α) : Workbench × α × Bool :=
  let (workspace, first) := step b.workspace
  let (workspace, same) := (List.range (callers - 1)).foldl (fun (w, same) _ =>
    let (w, next) := step w
    (w, same && decide (next = first))) (workspace, true)
  ({ b with workspace }, first, same)

def expandItem (b : Workbench) (x : Exercise) : Workbench × BenchAnswer :=
  match b.suites.lookup x.package with
  | none => (b, .noPackage)
  | some suite =>
    let (b, id, c) := b.place x
    match Item.parse id x.base x.text with
    | .error e => (b, .unparsed e)
    | .ok item =>
      let (b, made, same) := b.ask x.callers (Relay.runPlugins Network.call suite c item)
      (b, .items made same)

def expandInline (b : Workbench) (x : Exercise) : Workbench × BenchAnswer :=
  match b.suites.lookup x.package with
  | none => (b, .noPackage)
  | some suite =>
    let (b, id, c) := b.place x
    match InlineCall.parse id x.base x.text with
    | .error e => (b, .unparsed e)
    | .ok call =>
      match suite.inline? call.name with
      | none => (b, .noInlinePlugin)
      | some p =>
        let (b, made, same) := b.ask x.callers fun w => w.expandInline Network.call p c call
        (b, .inline made same)

def cacheDir? (b : Workbench) : Option Text :=
  b.fresh.disk.map (·.dir)

def run (b : Workbench) : BenchCommand → Workbench × BenchAnswer
  | .connect =>
    let (remote, link) := b.workspace.remote.dial 0
    { b with workspace := { b.workspace with remote } }.setStatus (.connected link)
  | .crash => b.setStatus .crashed
  | .suspend => b.setStatus .pending
  | .item x => b.expandItem x
  | .inline x => b.expandInline x
  | .clearMemo => ({ b with workspace := { b.workspace with session := b.workspace.session.clear } }, .nothing)
  | .setFingerprint t => ({ b with workspace := { b.workspace with fingerprint := t } }, .nothing)
  | .reopen => { b with workspace := { b.workspace with session := b.fresh } }.build
  | .kill => ({ b with workspace := { b.workspace with remote := b.workspace.remote.kill 0 } }, .nothing)
  | .damage bytes =>
    let files := b.workspace.files
    let damaged := fun | (path, FileEntry.file _) => (path, FileEntry.file bytes) | other => other
    (b.withFiles { files with entries := files.entries.map damaged }, .nothing)
  | .block =>
    match b.cacheDir? with
    | none => (b, .nothing)
    | some dir =>
      let path := Path.join [dir, "expand"]
      (b.withFiles ((b.workspace.files.removeAll path).set path (.file [])), .nothing)
  | .clearDisk =>
    match b.fresh.disk with
    | none => (b, .nothing)
    | some disk => (b.withFiles ((disk.clear b.workspace.files).toOption.getD b.workspace.files), .nothing)

def received (b : Workbench) : List Request :=
  (b.workspace.remote.servers.head?.map (·.received.toList)).getD []

end Workbench

end MacroRelay
