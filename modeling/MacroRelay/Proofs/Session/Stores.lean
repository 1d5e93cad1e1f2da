import MacroRelay.Proofs.Cache.Disk
import MacroRelay.Proofs.Wire.Sizes
import MacroRelay.Session.Basic

/-!
# What a session keeps

`Keeps K` says that memo and disk hold only answers that `K` admits for their digest. A request
keeps this up if `K` admits what the server answers to it, and then its own answer is admitted
too. A request has no answer only without a connection, or when the call that was made for it
failed.
-/

namespace MacroRelay

-- ---------------------------------------------------------------------------
-- The memo
-- ---------------------------------------------------------------------------

namespace Memo

variable {κ α : Type} [DecidableEq κ] {P : κ × α → Prop}

theorem forall_mem_without {entries : List (κ × α)} (h : ∀ p ∈ entries, P p) (key : κ) :
    ∀ p ∈ without entries key, P p :=
  fun p hp => h p (List.mem_filter.mp hp).1

theorem get?_some {m m' : Memo κ α} {key : κ} {a : α} (h : ∀ p ∈ m.entries, P p)
    (hg : m.get? key = some (a, m')) : P (key, a) ∧ ∀ p ∈ m'.entries, P p := by
  obtain ⟨found, hl, heq⟩ := Option.map_eq_some_iff.mp hg
  cases heq
  obtain ⟨l, r, hentries, -⟩ := List.lookup_eq_some_iff.mp hl
  have hfound : P (key, a) := h (key, a) (by simp [hentries])
  exact ⟨hfound, List.forall_mem_cons.mpr ⟨hfound, forall_mem_without h key⟩⟩

theorem forall_mem_insert {m : Memo κ α} {key : κ} {a : α} (h : ∀ p ∈ m.entries, P p)
    (ha : P (key, a)) : ∀ p ∈ (m.insert key a).entries, P p :=
  fun p hp => List.forall_mem_cons.mpr ⟨ha, forall_mem_without h key⟩ p (List.mem_of_mem_take hp)

end Memo

-- ---------------------------------------------------------------------------
-- Both stores
-- ---------------------------------------------------------------------------

/-- `K` admits an answer for a digest, whatever lists are absent or empty in it. -/
structure Admission where
  admits : Digest → Gen2.Result → Prop
  alike : ∀ {d r r'}, r'.Alike r → admits d r → admits d r'

namespace Workspace

variable {σ κ : Type} {K : Admission}

def MemoKeeps (K : Admission) (s : Session) : Prop :=
  ∀ memo, s.memo = some memo → ∀ p ∈ memo.entries, K.admits p.1 p.2

def DiskKeeps (K : Admission) (disk : DiskCache) (files : FileTree) : Prop :=
  ∀ d r, disk.stored? files d = some r → K.admits d r

/-- Memo and disk hold admitted answers only. -/
structure Keeps (K : Admission) (w : Workspace σ κ) : Prop where
  settled : w.files.Settled
  memo : MemoKeeps K w.session
  disk : ∀ disk, w.session.disk = some disk → DiskKeeps K disk w.files

theorem Keeps.mono {K' : Admission} {w : Workspace σ κ} (h : w.Keeps K)
    (hK : ∀ d r, K.admits d r → K'.admits d r) : w.Keeps K' where
  settled := h.settled
  memo memo hmemo p hp := hK p.1 p.2 (h.memo memo hmemo p hp)
  disk disk hdisk d r hr := hK d r (h.disk disk hdisk d r hr)

theorem memoKeeps_ofOptions (memoSize : Int) (disk : Option DiskCache) :
    MemoKeeps K (Session.ofOptions memoSize disk) := by
  intro memo hmemo
  simp only [Session.ofOptions] at hmemo
  split at hmemo
  · cases hmemo
  · cases hmemo
    exact fun p hp => nomatch hp

theorem memoKeeps_clear (s : Session) : MemoKeeps K s.clear := by
  intro memo hmemo
  obtain ⟨old, hold, rfl⟩ := Option.map_eq_some_iff.mp hmemo
  exact fun p hp => nomatch hp

theorem DiskKeeps.clear {disk : DiskCache} {files files' : FileTree} (h : DiskKeeps K disk files)
    (hsettled : files.Settled) (hclear : disk.clear files = .ok files') :
    files'.Settled ∧ DiskKeeps K disk files' := by
  obtain ⟨hdir, hstored⟩ := DiskCache.clear_ok hclear
  refine ⟨?_, fun d r hr => h d r (hstored d r hr)⟩
  rw [FileTree.Settled, hdir]
  exact hsettled

/-- What the server answers to a request, if the call succeeds. -/
def served? (call : Caller σ κ) (remote : σ) (client : κ) (g : Generation) (e : Expansion) :
    Option Gen2.Result :=
  match (call remote client (e.method g).name (e.params g)).2 with
  | .ok raw => Expansion.answer? g raw
  | .error _ => none

/-- The stores of `w'` hold admitted answers only and are where those of `w` are. -/
structure Kept (K : Admission) (w w' : Workspace σ κ) : Prop where
  keeps : w'.Keeps K
  disk : w'.session.disk = w.session.disk
  workingDirectory : w'.files.workingDirectory = w.files.workingDirectory

theorem Kept.trans {w w' w'' : Workspace σ κ} (h : Kept K w w') (h' : Kept K w' w'') :
    Kept K w w'' :=
  ⟨h'.keeps, h'.disk.trans h.disk, h'.workingDirectory.trans h.workingDirectory⟩

theorem Kept.of_memo {w w' : Workspace σ κ} (h : w.Keeps K) (hmemo : MemoKeeps K w'.session)
    (hdisk : w'.session.disk = w.session.disk) (hfiles : w'.files = w.files) : Kept K w w' := by
  refine ⟨⟨hfiles ▸ h.settled, hmemo, ?_⟩, hdisk, congrArg _ hfiles⟩
  rw [hdisk, hfiles]
  exact h.disk

theorem Kept.of_session {w w' : Workspace σ κ} (h : w.Keeps K)
    (hmemo : w'.session.memo = w.session.memo) (hdisk : w'.session.disk = w.session.disk)
    (hfiles : w'.files = w.files) : Kept K w w' := by
  refine .of_memo h ?_ hdisk hfiles
  unfold MemoKeeps
  rw [hmemo]
  exact h.memo

theorem fetch_eq {w w' : Workspace σ κ} {d : Digest} {found : Option Gen2.Result}
    (h : w.fetch d = (w', found)) : ∃ trace, w' = { w with trace } := by
  unfold fetch at h
  split at h
  · cases h
    exact ⟨w.trace, rfl⟩
  · split at h
    · cases h
      exact ⟨w.trace, rfl⟩
    · cases h
      exact ⟨_, rfl⟩

theorem store_frame (w : Workspace σ κ) (d : Digest) (r : Gen2.Result) :
    (w.store d r).session = w.session ∧ (w.store d r).cell = w.cell ∧
      (w.store d r).fingerprint = w.fingerprint ∧ (w.store d r).remote = w.remote := by
  unfold store
  split
  · exact ⟨rfl, rfl, rfl, rfl⟩
  · split <;> exact ⟨rfl, rfl, rfl, rfl⟩

theorem lookUp_kept {w : Workspace σ κ} {s : Session} {d : Digest} {r : Gen2.Result} (h : w.Keeps K)
    (hl : w.session.lookUp d = (s, some r)) : Kept K w { w with session := s } ∧ K.admits d r := by
  unfold Session.lookUp at hl
  split at hl
  · rename_i r memo hget
    obtain ⟨old, hold, hget⟩ := Option.bind_eq_some_iff.mp hget
    obtain ⟨hr, hmemo⟩ := Memo.get?_some (P := fun p => K.admits p.1 p.2) (h.memo old hold) hget
    cases hl
    refine ⟨.of_memo h (fun m hm => ?_) rfl rfl, hr⟩
    cases hm
    exact hmemo
  · cases hl

theorem remember_kept {w : Workspace σ κ} {d : Digest} {r : Gen2.Result} (h : w.Keeps K)
    (hr : K.admits d r) : Kept K w { w with session := w.session.remember d r } := by
  refine .of_memo h (fun memo hm => ?_) rfl rfl
  obtain ⟨old, hold, rfl⟩ := Option.map_eq_some_iff.mp hm
  exact Memo.forall_mem_insert (h.memo old hold) hr

theorem fetch_kept {w w' : Workspace σ κ} {d : Digest} {found : Option Gen2.Result} (h : w.Keeps K)
    (hf : w.fetch d = (w', found)) : Kept K w w' ∧ w'.remote = w.remote ∧
      w'.session.stats = w.session.stats ∧ ∀ r, found = some r → K.admits d r := by
  unfold fetch at hf
  split at hf
  · cases hf
    exact ⟨.of_session h rfl rfl rfl, rfl, rfl, fun _ hr => nomatch hr⟩
  · rename_i disk hdisk
    split at hf
    · rename_i hget
      cases hf
      refine ⟨.of_session h rfl rfl rfl, rfl, rfl, fun r hr => ?_⟩
      rw [hr] at hget
      exact h.disk disk hdisk d r (DiskCache.stored_of_get h.settled hget)
    · cases hf
      exact ⟨.of_session h rfl rfl rfl, rfl, rfl, fun _ hr => nomatch hr⟩

theorem store_kept {w : Workspace σ κ} {d : Digest} {r : Gen2.Result} (h : w.Keeps K)
    (hfit : r.Fits) (hr : K.admits d r) : Kept K w (w.store d r) := by
  unfold store
  split
  · exact .of_session h rfl rfl rfl
  · rename_i disk hdisk
    split
    · rename_i files hput
      obtain ⟨hdir, hstored⟩ := DiskCache.put_ok h.settled hfit hput
      refine ⟨⟨?_, h.memo, fun other hother => ?_⟩, rfl, hdir⟩
      · rw [FileTree.Settled, hdir]
        exact h.settled
      · cases hdisk.symm.trans hother
        intro d' r' hr'
        rw [hstored] at hr'
        split at hr'
        · rename_i heq
          cases hr'
          subst heq
          exact K.alike r.returned_alike hr
        · exact h.disk disk hdisk d' r' hr'
    · exact .of_session h rfl rfl rfl

theorem request_spec {call : Caller σ κ} {w w' : Workspace σ κ} {client : κ} {g : Generation}
    {e : Expansion} {answer : Except CallError Gen2.Result}
    (h : w.request call client g e = (w', answer)) :
    w'.session =
        { w.session with stats := { w.session.stats with calls := w.session.stats.calls + 1 } } ∧
      w'.files = w.files ∧ answer.toOption = served? call w.remote client g e := by
  simp only [request, count] at h
  unfold served?
  generalize (call w.remote client (e.method g).name (e.params g)) = out at h ⊢
  obtain ⟨remote, outcome⟩ := out
  cases outcome with
  | error fault => cases h; exact ⟨rfl, rfl, rfl⟩
  | ok raw =>
    dsimp only at h ⊢
    cases ha : Expansion.answer? g raw <;> rw [ha] at h <;> cases h <;> exact ⟨rfl, rfl, rfl⟩

theorem request_kept {call : Caller σ κ} {w w' : Workspace σ κ} {client : κ} {g : Generation}
    {e : Expansion} {answer : Except CallError Gen2.Result} (hw : w.Keeps K)
    (h : w.request call client g e = (w', answer)) : Kept K w w' := by
  obtain ⟨hsession, hfiles, -⟩ := request_spec h
  exact .of_session hw (by rw [hsession]) (by rw [hsession]) hfiles

theorem served_fits {call : Caller σ κ} {remote : σ} {client : κ} {g : Generation} {e : Expansion}
    {r : Gen2.Result} (h : served? call remote client g e = some r) : r.Fits := by
  unfold served? at h
  split at h
  · exact Expansion.answer_fits h
  · cases h

-- ---------------------------------------------------------------------------
-- Answering a request
-- ---------------------------------------------------------------------------

def CallFailed (call : Caller σ κ) (client : κ) (g : Generation) (e : Expansion)
    (w w' : Workspace σ κ) : Prop :=
  w'.session.stats.calls = w.session.stats.calls + 1 ∧ served? call w.remote client g e = none

theorem flight_kept {call : Caller σ κ} {w w' : Workspace σ κ} {client : κ} {d : Digest}
    {g : Generation} {e : Expansion} {answer : Except CallError Gen2.Result} (hw : w.Keeps K)
    (hK : ∀ r, served? call w.remote client g e = some r → K.admits d r)
    (h : w.flight call client d g e = (w', answer)) :
    Kept K w w' ∧ ((∃ r, answer = .ok r ∧ K.admits d r) ∨
      (∃ fault, answer = .error fault) ∧ CallFailed call client g e w w') := by
  unfold flight at h
  split at h
  · rename_i session r hl
    cases h
    obtain ⟨hw1, hr⟩ := lookUp_kept hw hl
    exact ⟨hw1, .inl ⟨r, rfl, hr⟩⟩
  · split at h
    · rename_i w1 r hf
      obtain ⟨hw1, -, -, hr⟩ := fetch_kept hw hf
      cases h
      have hw2 : Kept K w (w1.count fun s => { s with diskHits := s.diskHits + 1 }) :=
        hw1.trans (.of_session hw1.keeps rfl rfl rfl)
      exact ⟨hw2.trans (remember_kept hw2.keeps (hr r rfl)), .inl ⟨r, rfl, hr r rfl⟩⟩
    · rename_i w1 hf
      obtain ⟨hw1, hremote, hstats, -⟩ := fetch_kept hw hf
      rw [← hremote] at hK
      split at h
      · rename_i w2 fault hq
        obtain ⟨hsession, -, hserved⟩ := request_spec hq
        cases h
        refine ⟨hw1.trans (request_kept hw1.keeps hq), .inr ⟨⟨fault, rfl⟩, ?_, ?_⟩⟩
        · rw [hsession, hstats]
        · rw [← hremote, ← hserved]
          rfl
      · rename_i w2 r hq
        obtain ⟨-, -, hserved⟩ := request_spec hq
        have hr := hK r hserved.symm
        have hw2 := request_kept hw1.keeps hq
        have hw3 := remember_kept hw2.keeps hr
        have hw4 := store_kept hw3.keeps (served_fits hserved.symm) hr
        cases h
        exact ⟨((hw1.trans hw2).trans hw3).trans hw4, .inl ⟨r, rfl, hr⟩⟩

theorem expand_kept {call : Caller σ κ} {w w' : Workspace σ κ} {g : Generation} {e : Expansion}
    {answer : Option Gen2.Result} (hw : w.Keeps K)
    (hK : ∀ client r, served? call w.remote client g e = some r → K.admits (w.digest g e) r)
    (h : w.expand call g e = (w', answer)) :
    Kept K w w' ∧ (∀ r, answer = some r → K.admits (w.digest g e) r) ∧
      (answer = none → w.cell.load.client? = none ∨
        ∃ client, w.cell.load.client? = some client ∧ CallFailed call client g e w w') := by
  simp only [expand] at h
  generalize Trace.Recorder.attach _ _ _ _ = started at h
  obtain ⟨trace, work⟩ := started
  have hw0 : Kept K w { w with trace } := .of_session hw rfl rfl rfl
  split at h
  · rename_i hclient
    cases h
    exact ⟨.of_session hw rfl rfl rfl, nofun, fun _ => .inl hclient⟩
  · rename_i client hclient
    split at h
    · rename_i session r hl
      obtain ⟨hw1, hr⟩ := lookUp_kept hw0.keeps hl
      cases h
      refine ⟨(hw0.trans hw1).trans (.of_session hw1.keeps rfl rfl rfl), fun r' h => ?_, nofun⟩
      cases h
      exact hr
    · split at h
      · rename_i w1 r hf
        obtain ⟨hw1, hanswer⟩ := flight_kept hw0.keeps (hK client) hf
        cases h
        refine ⟨(hw0.trans hw1).trans (.of_session hw1.keeps rfl rfl rfl), fun r' h => ?_, nofun⟩
        cases h
        rcases hanswer with ⟨_, h, hr⟩ | ⟨⟨_, h⟩, -⟩
        · cases h
          exact hr
        · cases h
      · rename_i w1 fault hf
        obtain ⟨hw1, hanswer⟩ := flight_kept hw0.keeps (hK client) hf
        cases h
        refine ⟨(hw0.trans hw1).trans (.of_session hw1.keeps rfl rfl rfl), nofun, fun _ => ?_⟩
        rcases hanswer with ⟨_, h, -⟩ | ⟨-, hfailed⟩
        · cases h
        · exact .inr ⟨client, hclient, hfailed⟩

-- ---------------------------------------------------------------------------
-- Asking again
-- ---------------------------------------------------------------------------

def Remembers (s : Session) (d : Digest) (r : Gen2.Result) : Prop :=
  ∃ memo, s.memo = some memo ∧ memo.entries.head? = some (d, r)

theorem remembers_lookUp {s s' : Session} {d : Digest} {r : Gen2.Result}
    (h : s.lookUp d = (s', some r)) : Remembers s' d r := by
  unfold Session.lookUp at h
  split at h
  · rename_i r memo hget
    obtain ⟨old, -, hget⟩ := Option.bind_eq_some_iff.mp hget
    obtain ⟨found, -, heq⟩ := Option.map_eq_some_iff.mp hget
    cases heq
    cases h
    exact ⟨_, rfl, rfl⟩
  · cases h

theorem remembers_remember {s : Session} {memo : Memo Digest Gen2.Result} (hm : s.memo = some memo)
    (hc : 0 < memo.capacity) (d : Digest) (r : Gen2.Result) : Remembers (s.remember d r) d r := by
  refine ⟨memo.insert d r, congrArg (Option.map _) hm, ?_⟩
  rw [Memo.insert, List.head?_take, if_neg (Nat.ne_of_gt hc), List.head?_cons]

theorem flight_remembers {call : Caller σ κ} {w w' : Workspace σ κ} {client : κ} {d : Digest}
    {g : Generation} {e : Expansion} {r : Gen2.Result} {memo : Memo Digest Gen2.Result}
    (hm : w.session.memo = some memo) (hc : 0 < memo.capacity)
    (h : w.flight call client d g e = (w', .ok r)) : Remembers w'.session d r := by
  unfold flight at h
  split at h
  · rename_i session r hl
    cases h
    exact remembers_lookUp hl
  · split at h
    · rename_i w1 r hf
      obtain ⟨trace, rfl⟩ := fetch_eq hf
      cases h
      exact remembers_remember hm hc d _
    · rename_i w1 hf
      obtain ⟨trace, rfl⟩ := fetch_eq hf
      split at h
      · cases h
      · rename_i w2 r hq
        obtain ⟨hsession, -⟩ := request_spec hq
        have hw2 : w2.session.memo = some memo := by
          rw [hsession]
          exact hm
        cases h
        rw [(store_frame _ d r).1]
        exact remembers_remember hw2 hc d r

theorem expand_remembers {call : Caller σ κ} {w w' : Workspace σ κ} {g : Generation} {e : Expansion}
    {r : Gen2.Result} {memo : Memo Digest Gen2.Result} (hm : w.session.memo = some memo)
    (hc : 0 < memo.capacity) (h : w.expand call g e = (w', some r)) :
    Remembers w'.session (w.digest g e) r := by
  simp only [expand] at h
  generalize Trace.Recorder.attach _ _ _ _ = started at h
  split at h
  · cases h
  · split at h
    · rename_i session r hl
      have hfound := remembers_lookUp hl
      cases h
      exact hfound
    · split at h
      · rename_i w1 r hf
        have hm0 : ({ w with trace := started.1 } : Workspace σ κ).session.memo = some memo := hm
        have hfound := flight_remembers hm0 hc hf
        cases h
        exact hfound
      · cases h

theorem expand_remembered {call : Caller σ κ} {w : Workspace σ κ} {client : κ} {g : Generation}
    {e : Expansion} {r : Gen2.Result} (hclient : w.cell.load.client? = some client)
    (h : Remembers w.session (w.digest g e) r) :
    (w.expand call g e).2 = some r ∧ (w.expand call g e).1.remote = w.remote := by
  obtain ⟨memo, hm, hhead⟩ := h
  obtain ⟨rest, hentries⟩ := List.head?_eq_some_iff.mp hhead
  have hl : ∃ s, w.session.lookUp (w.digest g e) = (s, some r) :=
    ⟨_, by simp [Session.lookUp, hm, Memo.get?, hentries, List.lookup_cons_self]; rfl⟩
  obtain ⟨s, hl⟩ := hl
  have hl' (trace : Trace.Recorder) :
      w.session.lookUp (({ w with trace } : Workspace σ κ).digest g e) = (s, some r) := hl
  simp only [expand, hclient, hl', true_and]
  rfl

end Workspace

end MacroRelay
