import MacroRelay.Relay.Host
import MacroRelay.Session.Adapter
import MacroRelay.Timer

/-!
# The relay

A relay is a session with everything around it: a server under supervision, the catalogue with
its suites, and the sources. Without a server every request degrades.
-/

namespace MacroRelay

structure Relay (σ κ : Type) where
  workspace : Workspace σ κ
  supervisor : Option (Supervisor κ) := none
  catalogue : Catalogue := ⟨[]⟩
  suites : List (Text × PackageSuite) := []
  sources : FileSet := .empty
  timer : Timer := []

inductive RelayError where
  | connection (e : ConnectionError)
  | crashed (c : Crash)
  | disk (e : DiskError)
  | catalogue (e : CatalogueError)
  | noCatalogue
  | fetch (e : CallError)
  | suites (e : SuiteFault)
deriving DecidableEq

def RelayError.message : RelayError → Text
  | .connection e => e.message
  | .crashed c => c.message
  | .disk e => e.message
  | .catalogue e => e.message
  | .noCatalogue => "no [server] command and no catalogue configured"
  | .fetch e => "fetch catalogue: " ++ e.message
  | .suites e => e.message

def applicationName : Text := "macrobridge"

def DiskCache.ofSettings (tree : FileTree) (home : CacheHome) (s : CacheSettings) :
    Except DiskError (FileTree × DiskCache) := do
  let dir ← if s.dir = [] then home.directory applicationName else pure s.dir
  DiskCache.openAt tree dir

namespace Relay

variable {σ κ : Type}

/-- A step of opening may fail; what it has done by then stays. -/
abbrev Opening (σ κ : Type) := EStateM RelayError (Relay σ κ)

def phase (name : Text) : Opening σ κ Nat :=
  modifyGet fun r =>
    let (timer, handle) := r.timer.start name 0
    (handle, { r with timer })

def endPhase (handle : Nat) (note : Text) : Opening σ κ Unit :=
  modify fun r => { r with timer := r.timer.finish handle note 0 }

def connect (h : Host σ κ) (c : ServerCommand) (policy : RestartPolicy) : Opening σ κ Unit := do
  let handle ← phase "connect"
  modify fun r =>
    let (remote, s) := h.bringUp r.workspace.files c policy r.workspace.trace r.workspace.remote
    { r with
      supervisor := some s
      workspace := { r.workspace with
        remote
        cell := s.cell
        trace := s.trace
        fingerprint := s.handshake.fingerprint } }
  let r ← get
  endPhase handle r.workspace.cell.load.name
  match r.supervisor.bind (·.crash) with
  | some crash => throw (.crashed crash)
  | none => return

def openDisk (home : CacheHome) (s : CacheSettings) : Opening σ κ (Option DiskCache) := do
  if !s.disk then return none
  match DiskCache.ofSettings (← get).workspace.files home s with
  | .error e => throw (.disk e)
  | .ok (files, disk) =>
    modify fun r => { r with workspace := { r.workspace with files } }
    return some disk

def fetchCatalogue (h : Host σ κ) (client : κ) : Opening σ κ Gen2.CatalogueResult := do
  let method := Method.catalogue.name
  let r ← get
  let (remote, outcome) := h.call r.workspace.remote client method
    (Gen2.CatalogueRequest.codec.write {})
  set { r with workspace := { r.workspace with remote } }
  match outcome with
  | .error e => throw (.fetch e)
  | .ok none => return {}
  | .ok (some raw) =>
    match Gen2.CatalogueResult.codec.decode? raw with
    | some answer => return answer
    | none => throw (.fetch (.undecodable method))

/-- A configured catalogue goes before the one of the server. -/
def loadCatalogue (h : Host σ κ) (s : ServerSettings) : Opening σ κ Catalogue := do
  let w := (← get).workspace
  let loaded ← if s.catalogue ≠ [] then pure (Catalogue.load w.files s.catalogue)
    else match w.cell.load.client? with
      | none => throw .noCatalogue
      | some client => do pure (Catalogue.ofWire (← fetchCatalogue h client))
  match loaded with
  | .ok c => return c
  | .error e => throw (.catalogue e)

def buildSuites (c : Catalogue) : Opening σ κ Unit := do
  let r ← get
  match r.workspace.buildSuites c with
  | (workspace, .ok suites) => set { r with workspace, suites, catalogue := c }
  | (workspace, .error e) =>
    set { r with workspace, catalogue := c }
    throw (.suites e)

/-- Here a memo of size zero means none. -/
def memoSize (s : CacheSettings) : Int :=
  if s.memoSize = 0 then -1 else s.memoSize

def opening (h : Host σ κ) (home : CacheHome) (s : Settings) : Opening σ κ Unit := do
  let times ← match s.connection.times with
    | .ok times => pure times
    | .error e => throw (.connection e)
  match s.server.startCommand? with
  | none => pure ()
  | some c => connect h c ⟨s.connection.maxRestarts, times.backoff, times.maxBackoff⟩
  let disk ← openDisk home s.cache
  modify fun r =>
    { r with workspace := { r.workspace with session := Session.ofOptions (memoSize s.cache) disk } }
  let handle ← phase "catalogue"
  let c ← loadCatalogue h s.server
  endPhase handle (Text.decimal c.packages.length ++ " packages")
  buildSuites c

def close (h : Host σ κ) (r : Relay σ κ) : Relay σ κ :=
  match r.supervisor with
  | none => r
  | some s =>
    let s := { s with trace := r.workspace.trace }.stop
    let remote := s.closed.foldl h.close r.workspace.remote
    { r with supervisor := some s, workspace := { r.workspace with remote, trace := s.trace } }

/-- Opens a relay in its workspace. One that could not be opened is closed again. -/
def start (h : Host σ κ) (home : CacheHome) (s : Settings) (w : Workspace σ κ) :
    Relay σ κ × Option RelayError :=
  match opening h home s { workspace := w } with
  | .ok _ r => (r, none)
  | .error e r => (r.close h, some e)

end Relay

end MacroRelay
