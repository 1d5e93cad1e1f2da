import MacroRelay.Proofs.Session.Stores

/-!
# The ways of a request

A request ends in one of five ways: there is nobody to ask, the memo has the answer, the disk has it,
the call for it fails, or the server answers. Each way says what is left of the workspace; only
traces are not told apart.
-/

namespace MacroRelay

namespace Session

def counted (s : Session) (f : SessionStats → SessionStats) : Session :=
  { s with stats := f s.stats }

variable {s s' : Session} {d : Digest}

@[simp] theorem counted_memo (s : Session) (f : SessionStats → SessionStats) :
    (s.counted f).memo = s.memo := rfl

@[simp] theorem counted_disk (s : Session) (f : SessionStats → SessionStats) :
    (s.counted f).disk = s.disk := rfl

@[simp] theorem counted_stats (s : Session) (f : SessionStats → SessionStats) :
    (s.counted f).stats = f s.stats := rfl

@[simp] theorem remember_stats (s : Session) (d : Digest) (r : Gen2.Result) :
    (s.remember d r).stats = s.stats := rfl

@[simp] theorem remember_disk (s : Session) (d : Digest) (r : Gen2.Result) :
    (s.remember d r).disk = s.disk := rfl

theorem lookUp_eq_none (h : s.lookUp d = (s', none)) : s' = s := by
  unfold lookUp at h
  split at h <;> cases h
  rfl

theorem get?_eq_none {memo : Memo Digest Gen2.Result} (h : s.lookUp d = (s', none))
    (hmemo : s.memo = some memo) : memo.get? d = none := by
  unfold lookUp at h
  split at h
  · cases h
  · rename_i hget
    rwa [hmemo] at hget

theorem lookUp_eq_some {r : Gen2.Result} (h : s.lookUp d = (s', some r)) :
    ∃ memo memo', s.memo = some memo ∧ memo.get? d = some (r, memo') ∧
      s' = { s with memo := some memo' } := by
  unfold lookUp at h
  split at h
  · rename_i r memo' hget
    obtain ⟨memo, hmemo, hget⟩ := Option.bind_eq_some_iff.mp hget
    cases h
    exact ⟨memo, memo', hmemo, hget, rfl⟩
  · cases h

theorem lookUp_congr (h : s'.memo = s.memo) : (s'.lookUp d).2 = (s.lookUp d).2 := by
  unfold lookUp
  rw [h]
  split <;> rfl

end Session

namespace Workspace

variable {σ κ : Type} {call : Caller σ κ} {w w' : Workspace σ κ} {g : Generation} {e : Expansion}
  {client : κ} {answer : Option Gen2.Result} {d : Digest} {r : Gen2.Result}

/-- What the disk has under a digest. A damaged entry counts as missing. -/
def onDisk? (w : Workspace σ κ) (d : Digest) : Option Gen2.Result :=
  w.session.disk.bind fun disk => (disk.get w.files d).toOption.join

/-- The files once an answer is put on disk. A failure to write leaves them. -/
def shelved (w : Workspace σ κ) (d : Digest) (r : Gen2.Result) : FileTree :=
  (w.session.disk.bind fun disk => (disk.put w.files d r).toOption).getD w.files

def asked (call : Caller σ κ) (w : Workspace σ κ) (client : κ) (g : Generation) (e : Expansion) : σ :=
  (call w.remote client (e.method g).name (e.params g)).1

theorem fetch_snd (w : Workspace σ κ) (d : Digest) : (w.fetch d).2 = w.onDisk? d := by
  unfold fetch onDisk?
  cases w.session.disk with
  | none => rfl
  | some disk =>
    simp only [Option.bind_some]
    cases disk.get w.files d <;> rfl

theorem store_eq (w : Workspace σ κ) (d : Digest) (r : Gen2.Result) :
    ∃ trace, w.store d r = { w with trace, files := w.shelved d r } := by
  unfold store shelved
  cases w.session.disk with
  | none => exact ⟨w.trace, rfl⟩
  | some disk =>
    simp only [Option.bind_some]
    cases disk.put w.files d r with
    | ok files => exact ⟨w.trace, rfl⟩
    | error fault => exact ⟨_, rfl⟩

theorem request_eq (call : Caller σ κ) (w : Workspace σ κ) (client : κ) (g : Generation)
    (e : Expansion) : (w.request call client g e).1 = { w with
      remote := asked call w client g e
      session := w.session.counted fun s => { s with calls := s.calls + 1 } } := rfl

/-- How a request ends, and what is left of the workspace. -/
inductive Way (call : Caller σ κ) (w : Workspace σ κ) (g : Generation) (e : Expansion) :
    Workspace σ κ → Option Gen2.Result → Prop
  | offline (trace) (hclient : w.cell.load.client? = none) :
      Way call w g e { w with
        trace
        session := w.session.counted fun s => { s with degraded := s.degraded + 1 } } none
  | remembered (trace) (client s r) (hclient : w.cell.load.client? = some client)
      (hmemo : w.session.lookUp (w.digest g e) = (s, some r)) :
      Way call w g e { w with
        trace
        session := s.counted fun s => { s with memoHits := s.memoHits + 1 } } (some r)
  | shelved (trace) (client r) (hclient : w.cell.load.client? = some client)
      (hmemo : w.session.lookUp (w.digest g e) = (w.session, none))
      (hdisk : w.onDisk? (w.digest g e) = some r) :
      Way call w g e { w with
        trace
        session := (w.session.remember (w.digest g e) r).counted fun s =>
          { s with diskHits := s.diskHits + 1 } } (some r)
  | failed (trace) (client) (hclient : w.cell.load.client? = some client)
      (hmemo : w.session.lookUp (w.digest g e) = (w.session, none))
      (hdisk : w.onDisk? (w.digest g e) = none)
      (hserved : served? call w.remote client g e = none) :
      Way call w g e { w with
        trace
        remote := asked call w client g e
        session := w.session.counted fun s =>
          { s with calls := s.calls + 1, degraded := s.degraded + 1 } } none
  | served (trace) (client r) (hclient : w.cell.load.client? = some client)
      (hmemo : w.session.lookUp (w.digest g e) = (w.session, none))
      (hdisk : w.onDisk? (w.digest g e) = none)
      (hserved : served? call w.remote client g e = some r) :
      Way call w g e { w with
        trace
        remote := asked call w client g e
        session := (w.session.remember (w.digest g e) r).counted fun s =>
          { s with calls := s.calls + 1 }
        files := w.shelved (w.digest g e) r } (some r)

structure Recalled (w w' : Workspace σ κ) : Prop where
  remote : w'.remote = w.remote
  calls : w'.session.stats.calls = w.session.stats.calls
  memoHits : w'.session.stats.memoHits = w.session.stats.memoHits + 1

/-- The request was sent, and this was the only call. -/
structure Sent (call : Caller σ κ) (client : κ) (g : Generation) (e : Expansion)
    (w w' : Workspace σ κ) : Prop where
  remote : w'.remote = asked call w client g e
  calls : w'.session.stats.calls = w.session.stats.calls + 1
  memoHits : w'.session.stats.memoHits = w.session.stats.memoHits

inductive FlightWay (call : Caller σ κ) (w : Workspace σ κ) (client : κ) (d : Digest)
    (g : Generation) (e : Expansion) : Workspace σ κ → Except CallError Gen2.Result → Prop
  | shelved (trace) (r) (hdisk : w.onDisk? d = some r) :
      FlightWay call w client d g e { w with
        trace
        session := (w.session.remember d r).counted fun s =>
          { s with diskHits := s.diskHits + 1 } } (.ok r)
  | failed (fault) (trace) (hdisk : w.onDisk? d = none)
      (hserved : served? call w.remote client g e = none) :
      FlightWay call w client d g e { w with
        trace
        remote := asked call w client g e
        session := w.session.counted fun s => { s with calls := s.calls + 1 } } (.error fault)
  | served (trace) (r) (hdisk : w.onDisk? d = none)
      (hserved : served? call w.remote client g e = some r) :
      FlightWay call w client d g e { w with
        trace
        remote := asked call w client g e
        session := (w.session.remember d r).counted fun s => { s with calls := s.calls + 1 }
        files := w.shelved d r } (.ok r)

theorem flight_way (call : Caller σ κ) (client : κ) (g : Generation) (e : Expansion)
    {answer : Except CallError Gen2.Result} (h : w.flight call client d g e = (w', answer))
    (hmemo : w.session.lookUp d = (w.session, none)) : FlightWay call w client d g e w' answer := by
  unfold flight at h
  rw [hmemo] at h
  dsimp only at h
  split at h
  · rename_i w₁ r hfetch
    obtain ⟨trace, rfl⟩ := fetch_eq hfetch
    cases h
    exact .shelved trace r (by rw [← fetch_snd, hfetch])
  · rename_i w₁ hfetch
    obtain ⟨trace, rfl⟩ := fetch_eq hfetch
    have hdisk : w.onDisk? d = none := by rw [← fetch_snd, hfetch]
    have hw₂ := request_eq call { w with trace } client g e
    split at h
    · rename_i w₂ fault hrequest
      obtain ⟨-, -, hserved⟩ := request_spec hrequest
      rw [hrequest] at hw₂
      cases h
      subst hw₂
      exact .failed fault trace hdisk hserved.symm
    · rename_i w₂ r hrequest
      obtain ⟨-, -, hserved⟩ := request_spec hrequest
      rw [hrequest] at hw₂
      subst hw₂
      obtain ⟨trace', hstore⟩ := store_eq _ d r
      rw [hstore] at h
      cases h
      exact .served trace' r hdisk hserved.symm

theorem expand_way (call : Caller σ κ) (w : Workspace σ κ) (g : Generation) (e : Expansion) :
    Way call w g e (w.expand call g e).1 (w.expand call g e).2 := by
  simp only [expand]
  generalize Trace.Recorder.attach _ _ _ _ = started
  obtain ⟨trace, work⟩ := started
  split
  · rename_i hclient
    exact .offline _ hclient
  · rename_i client hclient
    split
    · rename_i s r hmemo
      exact .remembered _ client s r hclient hmemo
    · rename_i s hmemo
      obtain rfl := Session.lookUp_eq_none hmemo
      split
      · rename_i w₁ r hflight
        cases flight_way call client g e hflight hmemo with
        | shelved trace r hdisk => exact .shelved _ client r hclient hmemo hdisk
        | served trace r hdisk hserved =>
          exact .served _ client r hclient hmemo hdisk hserved
      · rename_i w₁ fault hflight
        cases flight_way call client g e hflight hmemo with
        | failed fault trace hdisk hserved => exact .failed _ client hclient hmemo hdisk hserved

/-- Neither memo nor disk has an answer. -/
structure Missed (w : Workspace σ κ) (g : Generation) (e : Expansion) : Prop where
  memo : (w.session.lookUp (w.digest g e)).2 = none
  disk : w.onDisk? (w.digest g e) = none

/-- What is in no cache is sent to the server. The server decides, and its answer is put on disk. -/
theorem Way.of_missed (h : Way call w g e w' answer) (hclient : w.cell.load.client? = some client)
    (hmissed : w.Missed g e) :
    Sent call client g e w w' ∧ answer = served? call w.remote client g e ∧
      ∀ r, answer = some r → w'.files = w.shelved (w.digest g e) r := by
  obtain ⟨hmemo, hdisk⟩ := hmissed
  cases h with
  | offline trace hnone => cases hnone.symm.trans hclient
  | remembered trace client' s r _ hfound => simp [hfound] at hmemo
  | shelved trace client' r _ _ hfound => simp [hfound] at hdisk
  | failed trace client' hclient' _ _ hserved =>
    cases hclient'.symm.trans hclient
    exact ⟨⟨rfl, rfl, rfl⟩, hserved.symm, by simp⟩
  | served trace client' r hclient' _ _ hserved =>
    cases hclient'.symm.trans hclient
    refine ⟨⟨rfl, rfl, rfl⟩, hserved.symm, ?_⟩
    rintro _ ⟨⟩
    rfl

end Workspace

end MacroRelay
