import MacroRelay.Cache.Disk
import MacroRelay.Cache.Memo
import MacroRelay.Client.Basic
import MacroRelay.Expansion.Request
import MacroRelay.Status
import MacroRelay.Trace.Tracer

/-!
# Sessions

A session answers requests from its memo, from disk or from the server, in this order. If the
server cannot be used or its answer fails, the request degrades: it has no answer, and the
caches stay as they were.
-/

namespace MacroRelay

structure SessionStats where
  calls : Nat := 0
  memoHits : Nat := 0
  diskHits : Nat := 0
  degraded : Nat := 0
deriving DecidableEq

structure Session where
  memo : Option (Memo Digest Gen2.Result) := none
  disk : Option DiskCache := none
  stats : SessionStats := {}

inductive SessionError where
  | noStatus
deriving DecidableEq

def SessionError.message : SessionError → Text
  | .noStatus => "procmacro: session needs a status cell"

namespace Session

def defaultMemoSize : Nat := 1024

/-- A negative memo size means no memo, zero the default. -/
def ofOptions (memoSize : Int) (disk : Option DiskCache) : Session where
  memo := if memoSize < 0 then none
    else some { capacity := if memoSize = 0 then defaultMemoSize else memoSize.toNat }
  disk

/-- A session cannot do without a cell to read the status from. -/
def attach (cell : Option (StatusCell κ)) (s : Session) : Except SessionError (StatusCell κ × Session) :=
  match cell with
  | some cell => .ok (cell, s)
  | none => .error .noStatus

def clear (s : Session) : Session :=
  { s with memo := s.memo.map Memo.clear }

def lookUp (s : Session) (d : Digest) : Session × Option Gen2.Result :=
  match s.memo >>= (·.get? d) with
  | some (r, memo) => ({ s with memo := some memo }, some r)
  | none => (s, none)

def remember (s : Session) (d : Digest) (r : Gen2.Result) : Session :=
  { s with memo := s.memo.map (·.insert d r) }

end Session

/-- What a session works in. Calls go over connections named by `κ` to a world `σ`. -/
structure Workspace (σ κ : Type) where
  session : Session := {}
  cell : StatusCell κ := none
  files : FileTree
  trace : Trace.Recorder := {}
  /-- Tells one set of loaded macros from another. -/
  fingerprint : Text := []
  remote : σ

abbrev Caller (σ κ : Type) := σ → κ → Text → Text → σ × Outcome

namespace Workspace

variable {σ κ : Type}

def count (w : Workspace σ κ) (f : SessionStats → SessionStats) : Workspace σ κ :=
  { w with session := { w.session with stats := f w.session.stats } }

def failed (w : Workspace σ κ) (name message : Text) : Workspace σ κ :=
  { w with trace := w.trace.fail Trace.Scope.request name message }

/-- An entry that cannot be read is reported and counts as missing. -/
def fetch (w : Workspace σ κ) (d : Digest) : Workspace σ κ × Option Gen2.Result :=
  match w.session.disk with
  | none => (w, none)
  | some disk =>
    match disk.get w.files d with
    | .ok found => (w, found)
    | .error e => (w.failed "cache:read" e.message, none)

/-- A failure to write is reported and otherwise ignored. -/
def store (w : Workspace σ κ) (d : Digest) (r : Gen2.Result) : Workspace σ κ :=
  match w.session.disk with
  | none => w
  | some disk =>
    match disk.put w.files d r with
    | .ok files => { w with files }
    | .error e => w.failed "cache:write" e.message

def request (call : Caller σ κ) (w : Workspace σ κ) (client : κ) (g : Generation) (e : Expansion) :
    Workspace σ κ × Except CallError Gen2.Result :=
  let w := w.count fun s => { s with calls := s.calls + 1 }
  let method := (e.method g).name
  let (remote, outcome) := call w.remote client method (e.params g)
  ({ w with remote }, match outcome with
    | .error e => .error e
    | .ok raw => match Expansion.answer? g raw with
      | some r => .ok r
      | none => .error (.undecodable method))

/-- What the leader among callers for one digest does: it looks into the memo once more, then
on disk, and then asks the server. -/
def flight (call : Caller σ κ) (w : Workspace σ κ) (client : κ) (d : Digest) (g : Generation)
    (e : Expansion) : Workspace σ κ × Except CallError Gen2.Result :=
  match w.session.lookUp d with
  | (session, some r) => ({ w with session }, .ok r)
  | (_, none) =>
    match w.fetch d with
    | (w, some r) =>
      let w := w.count fun s => { s with diskHits := s.diskHits + 1 }
      ({ w with session := w.session.remember d r }, .ok r)
    | (w, none) =>
      match w.request call client g e with
      | (w, .error fault) => (w, .error fault)
      | (w, .ok r) => ({ w with session := w.session.remember d r }.store d r, .ok r)

def digest (w : Workspace σ κ) (g : Generation) (e : Expansion) : Digest :=
  e.key.digest.combine [g.name, w.fingerprint]

def degrade (w : Workspace σ κ) : Workspace σ κ :=
  w.count fun s => { s with degraded := s.degraded + 1 }

def finish (w : Workspace σ κ) (work : Trace.Activity) (detail : Text) : Workspace σ κ :=
  { w with trace := w.trace.finish work detail }

def expand (call : Caller σ κ) (w : Workspace σ κ) (g : Generation) (e : Expansion) :
    Workspace σ κ × Option Gen2.Result :=
  let name : Text := "expand:" ++ e.shape.name
  let (trace, work) := w.trace.start Trace.Scope.request name 0
  let (trace, work) := trace.attach work "protocol" g.name
  let w := { w with trace }
  match w.cell.load.client? with
  | none => (w.degrade.finish work ("degraded: " ++ w.cell.load.name), none)
  | some client =>
    let d := w.digest g e
    match w.session.lookUp d with
    | (session, some r) =>
      let w := { w with session }.count fun s => { s with memoHits := s.memoHits + 1 }
      (w.finish work "memo", some r)
    | (_, none) =>
      match w.flight call client d g e with
      | (w, .ok r) => (w.finish work "ok", some r)
      | (w, .error fault) => ((w.degrade.failed name fault.message).finish work "degraded: call failed", none)

end Workspace

end MacroRelay
