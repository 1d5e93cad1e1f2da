import MacroRelay.Proofs.Expansion.Params
import MacroRelay.Proofs.Session.Plugins
import MacroRelay.Proofs.Session.Ways

/-!
# What a server gets of a request

A request that can be sent and has no answer in a cache is one message to the server, which reads the
request out of it. Otherwise the server gets nothing.
-/

namespace MacroRelay

namespace Workspace

variable {σ κ : Type} {call : Caller σ κ} {w w' : Workspace σ κ} {g : Generation} {e : Expansion}
  {answer : Option Gen2.Result}

/-- What the memo has of a request, or else the disk. -/
def cached? (w : Workspace σ κ) (g : Generation) (e : Expansion) : Option Gen2.Result :=
  (w.session.lookUp (w.digest g e)).2.or (w.onDisk? (w.digest g e))

/-- The server was not called. -/
structure Undisturbed (w w' : Workspace σ κ) : Prop where
  remote : w'.remote = w.remote
  calls : w'.session.stats.calls = w.session.stats.calls

/-- What becomes of a request, and what the server gets of it: nothing, or one message that it reads the
request out of. -/
inductive Posted (call : Caller σ κ) (w : Workspace σ κ) (g : Generation) (e : Expansion)
    (w' : Workspace σ κ) : Option Gen2.Result → Prop
  | offline (hclient : w.cell.load.client? = none) (hquiet : w.Undisturbed w') :
      Posted call w g e w' none
  | recalled (client r) (hclient : w.cell.load.client? = some client)
      (hcached : w.cached? g e = some r) (hquiet : w.Undisturbed w') :
      Posted call w g e w' (some r)
  | sent (client message) (hclient : w.cell.load.client? = some client)
      (hcached : w.cached? g e = none) (hread : e.ReadIn g message)
      (hremote : w'.remote = (call w.remote client (e.method g).name message).1)
      (hcalls : w'.session.stats.calls = w.session.stats.calls + 1) :
      Posted call w g e w'
        ((call w.remote client (e.method g).name message).2.toOption.bind (Expansion.answer? g))

/-- What is in no cache is sent, if there is somebody to send it to. -/
theorem Posted.message (h : Posted call w g e w' answer) {client : κ}
    (hclient : w.cell.load.client? = some client) (hcached : w.cached? g e = none) :
    ∃ message, e.ReadIn g message ∧
      w'.remote = (call w.remote client (e.method g).name message).1 ∧
      w'.session.stats.calls = w.session.stats.calls + 1 ∧
      answer = (call w.remote client (e.method g).name message).2.toOption.bind (Expansion.answer? g) := by
  cases h with
  | offline hnone => cases hnone.symm.trans hclient
  | recalled _ r _ hfound => cases hfound.symm.trans hcached
  | sent client' message hclient' _ hread hremote hcalls =>
    obtain rfl : client' = client := Option.some.inj (hclient'.symm.trans hclient)
    exact ⟨message, hread, hremote, hcalls, rfl⟩

theorem cached?_of_no_caches (hmemo : w.session.memo = none) (hdisk : w.session.disk = none) :
    w.cached? g e = none := by
  simp [cached?, Session.lookUp, onDisk?, hmemo, hdisk]

theorem Undisturbed.traced (h : w.Undisturbed w') (trace) : w.Undisturbed { w' with trace } :=
  ⟨h.remote, h.calls⟩

theorem Posted.traced (h : Posted call w g e w' answer) (trace) :
    Posted call w g e { w' with trace } answer := by
  cases h with
  | offline hclient hquiet => exact .offline hclient (hquiet.traced trace)
  | recalled client r hclient hcached hquiet =>
    exact .recalled client r hclient hcached (hquiet.traced trace)
  | sent client message hclient hcached hread hremote hcalls =>
    exact .sent client message hclient hcached hread hremote hcalls

theorem served?_eq_bind (call : Caller σ κ) (remote : σ) (client : κ) (g : Generation) (e : Expansion) :
    served? call remote client g e =
      (call remote client (e.method g).name (e.params g)).2.toOption.bind (Expansion.answer? g) := by
  unfold served?
  cases (call remote client (e.method g).name (e.params g)).2 <;> rfl

theorem Way.posted (h : Way call w g e w' answer) (he : e.Sendable) : Posted call w g e w' answer := by
  have hread := Expansion.params_readIn he g
  have hcached {s} (hmemo : w.session.lookUp (w.digest g e) = (s, none)) :
      w.cached? g e = w.onDisk? (w.digest g e) := by
    rw [cached?, hmemo, Option.none_or]
  cases h with
  | offline trace hclient => exact .offline hclient ⟨rfl, rfl⟩
  | remembered trace client s r hclient hmemo =>
    obtain ⟨-, memo, -, -, rfl⟩ := Session.lookUp_eq_some hmemo
    refine .recalled client r hclient ?_ ⟨rfl, rfl⟩
    rw [cached?, hmemo, Option.some_or]
  | shelved trace client r hclient hmemo hdisk =>
    exact .recalled client r hclient ((hcached hmemo).trans hdisk) ⟨rfl, rfl⟩
  | failed trace client hclient hmemo hdisk hserved =>
    rw [← hserved, served?_eq_bind]
    exact .sent client _ hclient ((hcached hmemo).trans hdisk) hread rfl rfl
  | served trace client r hclient hmemo hdisk hserved =>
    rw [← hserved, served?_eq_bind]
    exact .sent client _ hclient ((hcached hmemo).trans hdisk) hread rfl rfl

theorem expand_posted (call : Caller σ κ) (w : Workspace σ κ) (g : Generation) (he : e.Sendable) :
    Posted call w g e (w.expand call g e).1 (w.expand call g e).2 :=
  (expand_way call w g e).posted he

theorem perform_posted {p : Package} {c : PluginContext} {job : PluginJob} (call : Caller σ κ)
    (h : job.request? p c = some e) (he : e.Sendable) (w : Workspace σ κ) :
    ∃ answer, Posted call w p.generation e (w.perform call p c job).1 answer ∧
      (w.perform call p c job).2 = answer.elim {} fun r => job.conclude p r := by
  obtain ⟨trace, hperform⟩ := perform_of_some call h w
  rw [hperform]
  exact ⟨_, (expand_posted call w p.generation he).traced trace, rfl⟩

end Workspace

end MacroRelay
