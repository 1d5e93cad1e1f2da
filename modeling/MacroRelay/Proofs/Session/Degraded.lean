import MacroRelay.Proofs.Session.Plugins
import MacroRelay.Proofs.Session.Ways

/-!
# Requests that degrade

A request that cannot be answered leaves the caches as they were, whatever the reason, and its
plugin makes nothing of it. As nothing was kept, the request goes to the server when it is made
again over a connection, unless the disk has an answer to it by then. Others may have put one there.
And a session that has yet to see its first connection passes requests over without a look at the
disk, which may hold answers from before.
-/

namespace MacroRelay

theorem Status.client?_eq_some {κ : Type} {s : Status κ} {client : κ} :
    s.client? = some client ↔ s = .connected client := by
  cases s <;> simp [client?]

namespace StatusCell

variable {κ : Type} {cell : StatusCell κ}

theorem pending_of_set {status : Status κ} (h : (cell.set status).1.load = .pending) :
    cell.load = .pending := by
  cases cell with
  | none => rfl
  | some current =>
    cases current <;> cases status <;> simp_all [set, admits, load, Status.isCrashed, Status.isPending]

end StatusCell

def Session.Blank (s : Session) : Prop :=
  ∀ memo ∈ s.memo, memo.entries = []

namespace Session

theorem blank_ofOptions (memoSize : Int) (disk : Option DiskCache) : (ofOptions memoSize disk).Blank := by
  intro memo hmemo
  simp only [ofOptions, Option.mem_def] at hmemo
  split at hmemo <;> cases hmemo
  rfl

theorem blank_clear (s : Session) : s.clear.Blank := by
  intro memo hmemo
  obtain ⟨old, -, rfl⟩ := Option.map_eq_some_iff.mp hmemo
  rfl

theorem Blank.lookUp {s : Session} (h : s.Blank) (d : Digest) : (s.lookUp d).2 = none := by
  refine Option.eq_none_iff_forall_ne_some.mpr fun r hr => ?_
  have hfound : s.lookUp d = ((s.lookUp d).1, some r) := by rw [← hr]
  obtain ⟨memo, memo', hmemo, hget, -⟩ := lookUp_eq_some hfound
  obtain ⟨entry, hentry, -⟩ := Option.map_eq_some_iff.mp hget
  rw [h memo hmemo] at hentry
  cases hentry

end Session

namespace Workspace

variable {σ κ : Type} {call : Caller σ κ} {w w' : Workspace σ κ} {g : Generation} {e : Expansion}
  {client : κ} {answer : Option Gen2.Result} {p : Package} {c : PluginContext} {job : PluginJob}

-- ---------------------------------------------------------------------------
-- Requests that miss
-- ---------------------------------------------------------------------------

theorem Missed.congr (h : w.Missed g e) (hmemo : w'.session.memo = w.session.memo)
    (hdisk : w'.session.disk = w.session.disk) (hfiles : w'.files = w.files)
    (hf : w'.fingerprint = w.fingerprint) : w'.Missed g e := by
  have hdigest : w'.digest g e = w.digest g e := by simp only [digest, hf]
  constructor
  · rw [hdigest, Session.lookUp_congr hmemo]
    exact h.memo
  · simp only [onDisk?, hdisk, hfiles, hdigest]
    exact h.disk

inductive Unanswerable (call : Caller σ κ) (w : Workspace σ κ) (g : Generation) (e : Expansion) :
    Prop
  | pending : w.cell.load = .pending → Unanswerable call w g e
  | crashed : w.cell.load = .crashed → Unanswerable call w g e
  /-- The connection is gone, time runs out, or the server refuses. -/
  | failed (client : κ) (fault : CallError) : w.cell.load = .connected client → w.Missed g e →
    (call w.remote client (e.method g).name (e.params g)).2 = .error fault →
    Unanswerable call w g e
  | undecodable (client : κ) (raw : Option Text) : w.cell.load = .connected client →
    w.Missed g e → (call w.remote client (e.method g).name (e.params g)).2 = .ok raw →
    Expansion.answer? g raw = none → Unanswerable call w g e

theorem Unanswerable.of_client (hclient : w.cell.load.client? = none) :
    w.Unanswerable call g e := by
  cases hload : w.cell.load with
  | pending => exact .pending hload
  | connected client => simp [hload, Status.client?] at hclient
  | crashed => exact .crashed hload

theorem Unanswerable.of_served (hclient : w.cell.load.client? = some client)
    (hmissed : w.Missed g e) (hserved : served? call w.remote client g e = none) :
    w.Unanswerable call g e := by
  have hload := Status.client?_eq_some.mp hclient
  unfold served? at hserved
  split at hserved
  · rename_i raw hcall
    exact .undecodable client raw hload hmissed hcall hserved
  · rename_i fault hcall
    exact .failed client fault hload hmissed hcall

theorem Way.of_offline (h : Way call w g e w' answer) (hclient : w.cell.load.client? = none) :
    answer = none := by
  cases h with
  | offline => rfl
  | failed => rfl
  | remembered trace client s r hsome => cases hsome.symm.trans hclient
  | shelved trace client r hsome => cases hsome.symm.trans hclient
  | served trace client r hsome => cases hsome.symm.trans hclient

theorem Unanswerable.expand_none (h : w.Unanswerable call g e) : (w.expand call g e).2 = none := by
  have hway := expand_way call w g e
  cases h with
  | pending hload => exact hway.of_offline (congrArg Status.client? hload)
  | crashed hload => exact hway.of_offline (congrArg Status.client? hload)
  | failed client fault hload hmissed hcall =>
    rw [(hway.of_missed (Status.client?_eq_some.mpr hload) hmissed).2.1, served?, hcall]
  | undecodable client raw hload hmissed hcall hraw =>
    rw [(hway.of_missed (Status.client?_eq_some.mpr hload) hmissed).2.1, served?, hcall]
    exact hraw

/-- `w'` has lost nothing and gained nothing but the knowledge that something failed. -/
structure Degraded (w w' : Workspace σ κ) : Prop where
  memo : w'.session.memo = w.session.memo
  disk : w'.session.disk = w.session.disk
  files : w'.files = w.files
  cell : w'.cell = w.cell
  fingerprint : w'.fingerprint = w.fingerprint
  degraded : w'.session.stats.degraded = w.session.stats.degraded + 1
  calls : w.session.stats.calls ≤ w'.session.stats.calls ∧
    w'.session.stats.calls ≤ w.session.stats.calls + 1
  memoHits : w'.session.stats.memoHits = w.session.stats.memoHits
  diskHits : w'.session.stats.diskHits = w.session.stats.diskHits

theorem Way.degraded (h : Way call w g e w' none) : w.Unanswerable call g e ∧ Degraded w w' ∧
    (w.cell.load.client?.isSome → w.Missed g e) := by
  cases h with
  | offline trace hclient =>
    exact ⟨.of_client hclient, by constructor <;> simp, by simp [hclient]⟩
  | failed trace client hclient hmemo hdisk hserved =>
    have hmissed : w.Missed g e := ⟨by rw [hmemo], hdisk⟩
    exact ⟨.of_served hclient hmissed hserved, by constructor <;> simp, fun _ => hmissed⟩

theorem perform_degraded (hrequest : job.request? p c = some e)
    (hnone : (w.expand call p.generation e).2 = none) :
    (w.perform call p c job).2 = {} ∧ Degraded w (w.perform call p c job).1 := by
  have hway := expand_way call w p.generation e
  obtain ⟨trace, hperform⟩ := perform_of_some call hrequest w
  rw [hnone] at hway hperform
  rw [hperform]
  obtain ⟨-, hdegraded, -⟩ := hway.degraded
  exact ⟨rfl, { hdegraded with }⟩

theorem Way.cell (h : Way call w g e w' answer) : w'.cell = w.cell := by
  cases h <;> rfl

theorem perform_cell (call : Caller σ κ) (w : Workspace σ κ) (p : Package) (c : PluginContext)
    (job : PluginJob) : (w.perform call p c job).1.cell = w.cell := by
  cases hrequest : job.request? p c with
  | none => rw [perform_of_none hrequest]
  | some e =>
    obtain ⟨trace, hperform⟩ := perform_of_some call hrequest w
    rw [hperform]
    exact (expand_way call w p.generation e).cell

-- ---------------------------------------------------------------------------
-- The life of a session
-- ---------------------------------------------------------------------------

/-- The states in the life of a session. It begins with an empty memo and does not know its server
yet. On disk there may be anything. -/
inductive Reached (call : Caller σ κ) : Workspace σ κ → Prop
  | opened (memoSize : Int) (disk : Option DiskCache) (files : FileTree) (f : Text) (remote : σ) :
    Reached call
      { session := Session.ofOptions memoSize disk, files, fingerprint := f, remote }
  | performed {w : Workspace σ κ} (p : Package) (c : PluginContext) (job : PluginJob)
    (h : Reached call w) : Reached call (w.perform call p c job).1
  | purged {w : Workspace σ κ} (h : Reached call w) :
    Reached call { w with session := w.session.clear }
  | cleared {w : Workspace σ κ} (disk : DiskCache) (files : FileTree) (h : Reached call w)
    (hdisk : w.session.disk = some disk) (hclear : disk.clear w.files = .ok files) :
    Reached call { w with files }
  | statusSet {w : Workspace σ κ} (status : Status κ) (h : Reached call w) :
    Reached call { w with cell := (w.cell.set status).1 }
  | reloaded {w : Workspace σ κ} (f : Text) (h : Reached call w) :
    Reached call { w with fingerprint := f }
  | reopened {w : Workspace σ κ} (memoSize : Int) (h : Reached call w) :
    Reached call { w with session := Session.ofOptions memoSize w.session.disk }
  | drifted {w : Workspace σ κ} (remote : σ) (h : Reached call w) : Reached call { w with remote }
  | tampered {w : Workspace σ κ} (files : FileTree) (h : Reached call w) : Reached call { w with files }

/-- Until there is a connection the memo is empty. -/
theorem Reached.blank (h : Reached call w) (hload : w.cell.load = .pending) : w.session.Blank := by
  induction h with
  | opened memoSize disk files f remote => exact Session.blank_ofOptions memoSize disk
  | @performed w p c job h ih =>
    rw [perform_cell] at hload
    cases hrequest : job.request? p c with
    | none =>
      rw [perform_of_none hrequest]
      exact ih hload
    | some e =>
      have hpending : w.Unanswerable call p.generation e := .pending hload
      have hmemo := (perform_degraded hrequest hpending.expand_none).2.memo
      unfold Session.Blank
      rw [hmemo]
      exact ih hload
  | purged h ih => exact Session.blank_clear _
  | cleared disk files h hdisk hclear ih => exact ih hload
  | statusSet status h ih => exact ih (StatusCell.pending_of_set hload)
  | reloaded f h ih => exact ih hload
  | reopened memoSize h ih => exact Session.blank_ofOptions memoSize _
  | drifted remote h ih => exact ih hload
  | tampered files h ih => exact ih hload

-- ---------------------------------------------------------------------------
-- Asking again
-- ---------------------------------------------------------------------------

/-- Some time later, when statuses have been set, a server may have told its fingerprint, others may
have written files, and the world has moved on. -/
def later (w : Workspace σ κ) (statuses : List (Status κ)) (fingerprint : Text) (files : FileTree)
    (remote : σ) : Workspace σ κ :=
  { w with
    cell := statuses.foldl (fun cell status => (cell.set status).1) w.cell
    fingerprint
    files
    remote }

end Workspace

end MacroRelay
