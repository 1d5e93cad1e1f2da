import MacroRelay.Proofs.Session.Wires
import MacroRelay.Proofs.Supervisor

/-!
# Errands across restarts

A supervisor keeps a server alive while any number of errands are on their way. All of them move
in any order, and so do the clients and the server processes: connections break at any time, a new
process may have another fingerprint, and an errand may pair the client of the old process with
the fingerprint of the new one. Nothing wrong is kept all the same. Whatever the memo or the disk
holds under a fingerprint is an answer of a process that had reported this fingerprint itself.

Two things carry this. A client is gone before another one is greeted, and a client that is gone
refuses every call.
-/

namespace MacroRelay

-- ---------------------------------------------------------------------------
-- The supervisor and its clients
-- ---------------------------------------------------------------------------

/-- What a move of the supervisor does to the wires, apart from closing some. -/
def Wires.after {κ : Type} [DecidableEq κ] (wires : Wires κ) (s : Supervisor κ)
    (m : SupervisorMove κ) : Wires κ :=
  match m, s.phase with
  | .dialed client, _ => Function.update wires client (some {})
  | .answered answer, .greeting client =>
    wires.alter client (·.report answer)
  | _, _ => wires

theorem Wires.Honest.after {κ : Type} [DecidableEq κ] {wires : Wires κ} (h : wires.Honest)
    {s : Supervisor κ} {m : SupervisorMove κ}
    (hheard : ∀ answer client wire, m = .answered answer → s.phase = .greeting client →
      wires client = some wire → wire.Heard answer) :
    (wires.after s m).Honest := by
  intro other wire hwire
  cases m with
  | dialed client =>
    simp only [Wires.after, Function.update_apply] at hwire
    split at hwire
    · cases hwire
      exact ⟨nofun, nofun⟩
    · exact h other wire hwire
  | answered answer =>
    cases hphase : s.phase with
    | greeting client =>
      simp only [Wires.after, hphase] at hwire
      rcases Wires.alter_eq_some hwire with ⟨rfl, wire₀, hwire₀, rfl⟩ | ⟨-, hwire⟩
      · exact (h other wire₀ hwire₀).report (hheard answer other wire₀ rfl hphase hwire₀)
      · exact h other wire hwire
    | _ =>
      simp only [Wires.after, hphase] at hwire
      exact h other wire hwire
  | _ => exact h other wire hwire

/-- What a supervisor and its errands may rely on. -/
structure Supervised {κ : Type} (s : Supervisor κ) (wires : Wires κ) : Prop where
  greeting : ∀ client, s.phase = .greeting client →
    ∃ wire, wires client = some wire ∧ wire.reported = none
  current : ∀ client, s.phase.current? = some client →
    ∃ wire, wires client = some wire ∧ wire.reported = some s.handshake.fingerprint
  /-- Any other client that was ever greeted is gone. -/
  former : ∀ client wire, wires client = some wire → wire.reported ≠ none →
    wire.client.cause ≠ none ∨ s.phase.current? = some client
  published : ∀ client, s.cell.load.client? = some client → wires.Known client

namespace Supervised

variable {κ : Type} {s s' : Supervisor κ} {wires wires' : Wires κ}

/-- Whoever has a client and reads the fingerprint now has the fingerprint of the client, or the
client is gone. -/
theorem paired (h : Supervised s wires) {client : κ} (hknown : wires.Known client) :
    wires.Paired client s.handshake.fingerprint := by
  obtain ⟨wire, hwire, hreported⟩ := hknown
  refine ⟨wire, hwire, ?_⟩
  rcases h.former client wire hwire hreported with hgone | hcurrent
  · exact .inr hgone
  · obtain ⟨wire', hwire', hf⟩ := h.current client hcurrent
    cases hwire.symm.trans hwire'
    exact .inl hf

theorem start (hphase : s.phase = .dialing) (hcell : s.cell = none)
    (hgone : ∀ client wire, wires client = some wire → wire.client.cause ≠ none) :
    Supervised s wires where
  greeting client h := nomatch hphase.symm.trans h
  current client h := by
    rw [hphase] at h
    cases h
  former client wire hwire _ := .inl (hgone client wire hwire)
  published client h := by
    rw [hcell] at h
    cases h

theorem grow (h : Supervised s wires) (hg : wires.Grow wires') (hsame : wires.SameReports wires') :
    Supervised s wires' := by
  have hreported {client : κ} {wire : Wire} (hwire : wires client = some wire) :
      ∃ wire', wires' client = some wire' ∧ wire'.reported = wire.reported := by
    obtain ⟨wire', hwire', -⟩ := hg client wire hwire
    obtain ⟨wire₀, hwire₀, heq⟩ := hsame client wire' hwire'
    cases hwire.symm.trans hwire₀
    exact ⟨wire', hwire', heq⟩
  refine ⟨fun client hc => ?_, fun client hc => ?_, fun client wire' hwire' hr => ?_,
    fun client hc => ?_⟩
  · obtain ⟨wire, hwire, hr⟩ := h.greeting client hc
    obtain ⟨wire', hwire', heq⟩ := hreported hwire
    exact ⟨wire', hwire', heq.trans hr⟩
  · obtain ⟨wire, hwire, hr⟩ := h.current client hc
    obtain ⟨wire', hwire', heq⟩ := hreported hwire
    exact ⟨wire', hwire', heq.trans hr⟩
  · obtain ⟨wire, hwire, heq⟩ := hsame client wire' hwire'
    refine (h.former client wire hwire (heq ▸ hr)).imp_left fun hgone => ?_
    obtain ⟨wire₀, hwire₀, hgrows⟩ := hg client wire hwire
    cases hwire'.symm.trans hwire₀
    exact hgrows.gone hgone
  · exact (h.published client hc).grow hg

theorem publish (h : Supervised s wires) {client : κ} (hphase : s.phase = .greeted client)
    (hphase' : s'.phase = .serving client)
    (hcell : s'.cell = (StatusCell.set s.cell (.connected client)).1)
    (hshake : s'.handshake = s.handshake) : Supervised s' wires := by
  have hcurrent : s'.phase.current? = s.phase.current? := by rw [hphase, hphase']; rfl
  refine ⟨fun other hother => ?_, ?_, ?_, fun other hother => ?_⟩
  · cases hphase'.symm.trans hother
  · rw [hcurrent, hshake]
    exact h.current
  · rw [hcurrent]
    exact h.former
  · rw [hcell] at hother
    rcases StatusCell.client?_set hother with hother | hother
    · cases hother
      obtain ⟨wire, hwire, hr⟩ := h.current client (by rw [hphase]; rfl)
      exact ⟨wire, hwire, by simp [hr]⟩
    · exact h.published other hother

variable [DecidableEq κ]

theorem closeAll (h : Supervised s wires) (clients : List κ) :
    Supervised s (wires.closeAll clients) :=
  h.grow (wires.grow_closeAll clients) (wires.sameReports_closeAll clients)

theorem dial (h : Supervised s wires) {client : κ} (hnew : wires client = none)
    (hphase : s.phase = .dialing) (hphase' : s'.phase = .greeting client)
    (hcell : s'.cell = s.cell) :
    wires.Grow (Function.update wires client (some {})) ∧
      Supervised s' (Function.update wires client (some {})) := by
  have hgrow : wires.Grow (Function.update wires client (some {})) := by
    intro other wire hwire
    have hne : other ≠ client := fun heq => by rw [heq, hnew] at hwire; cases hwire
    exact ⟨wire, by rw [Function.update_of_ne hne, hwire], .refl wire⟩
  refine ⟨hgrow, fun other hother => ?_, fun other hother => ?_, fun other wire hwire hr => ?_,
    fun other hother => ?_⟩
  · cases hphase'.symm.trans hother
    exact ⟨{}, Function.update_self .., rfl⟩
  · rw [hphase'] at hother
    cases hother
  · rw [Function.update_apply] at hwire
    split at hwire
    · cases hwire
      exact absurd rfl hr
    · have hformer := h.former other wire hwire hr
      rw [hphase] at hformer
      exact hformer.imp_right nofun
  · rw [hcell] at hother
    exact (h.published other hother).grow hgrow

theorem greet (h : Supervised s wires) {client : κ} {answer : Gen2.HandshakeResult}
    (hheard : ∀ wire, wires client = some wire → wire.Heard answer)
    (hphase : s.phase = .greeting client) (hphase' : s'.phase = .greeted client)
    (hcell : s'.cell = s.cell) (hshake : s'.handshake = answer) :
    wires.Grow (wires.alter client (·.report answer)) ∧
      Supervised s' (wires.alter client (·.report answer)) := by
  obtain ⟨wire₀, hwire₀, hr₀⟩ := h.greeting client hphase
  have hgrow : wires.Grow (wires.alter client (·.report answer)) := by
    refine Wires.grow_alter fun wire hwire => Wire.grows_report ?_ (hheard wire hwire)
    cases hwire₀.symm.trans hwire
    exact hr₀
  refine ⟨hgrow, fun other hother => ?_, fun other hother => ?_, fun other wire hwire hr => ?_,
    fun other hother => ?_⟩
  · cases hphase'.symm.trans hother
  · rw [hphase'] at hother
    cases hother
    rw [hshake]
    exact ⟨_, Wires.alter_self hwire₀, rfl⟩
  · rcases Wires.alter_eq_some hwire with ⟨rfl, -⟩ | ⟨-, hwire⟩
    · exact .inr (by rw [hphase']; rfl)
    -- nobody is current while a client is greeted
    · have hformer := h.former other wire hwire hr
      rw [hphase] at hformer
      exact hformer.imp_right nofun
  · rw [hcell] at hother
    exact (h.published other hother).grow hgrow

theorem leave (h : Supervised s wires) (hidle : s'.phase.isIdle)
    (hcell : ∀ client, s'.cell.load.client? = some client → s.cell.load.client? = some client)
    (hleft : ∀ client, s.phase.current? = some client →
      (∃ wire, wires client = some wire ∧ wire.client.cause ≠ none) ∨ client ∈ s'.closed) :
    Supervised s' (wires.closeAll s'.closed) := by
  have hgrow := wires.grow_closeAll s'.closed
  refine ⟨fun client hc => ?_, fun client hc => ?_, fun client wire' hwire' hr => .inl ?_,
    fun client hc => ?_⟩
  · rw [hc] at hidle
    cases hidle
  · rw [SupervisorPhase.current?_of_isIdle hidle] at hc
    cases hc
  · obtain ⟨wire, hwire, heq⟩ := wires.sameReports_closeAll s'.closed client wire' hwire'
    obtain ⟨wire₀, hwire₀, hgrows⟩ := hgrow client wire hwire
    cases hwire'.symm.trans hwire₀
    rcases h.former client wire hwire (heq ▸ hr) with hgone | hcurrent
    · exact hgrows.gone hgone
    · rcases hleft client hcurrent with ⟨wire₁, hwire₁, hgone⟩ | hmem
      · cases hwire.symm.trans hwire₁
        exact hgrows.gone hgone
      · exact Wires.gone_closeAll hmem hwire'
  · exact (h.published client (hcell client hc)).grow hgrow

/-- Every turn of the supervisor keeps this up, if it dials new clients only and takes no client
for lost that is not gone. -/
theorem turn (h : Supervised s wires) {m : SupervisorMove κ} (ht : s.Turn m s')
    (hdialed : ∀ client, m = .dialed client → wires client = none)
    (hheard : ∀ answer client wire, m = .answered answer → s.phase = .greeting client →
      wires client = some wire → wire.Heard answer)
    (hlost : ∀ cause client, m = .lost cause → s.phase = .serving client →
      ∃ wire, wires client = some wire ∧ wire.client.cause ≠ none) :
    wires.Grow (wires.after s m) ∧ Supervised s' ((wires.after s m).closeAll s'.closed) := by
  cases ht with
  | cancel hphase hcell hshake =>
    refine ⟨.refl wires, closeAll ⟨?_, ?_, ?_, ?_⟩ _⟩
    · rw [hphase]
      exact h.greeting
    · rw [hphase, hshake]
      exact h.current
    · rw [hphase]
      exact h.former
    · rw [hcell]
      exact h.published
  | dial hphase hphase' hcell _ =>
    obtain ⟨hgrow, hs⟩ := h.dial (hdialed _ rfl) hphase hphase' hcell
    exact ⟨hgrow, hs.closeAll _⟩
  | greet hphase hphase' hcell hshake =>
    obtain ⟨hgrow, hs⟩ :=
      h.greet (fun wire => hheard _ _ wire rfl hphase) hphase hphase' hcell hshake
    simp only [Wires.after, hphase]
    exact ⟨hgrow, hs.closeAll _⟩
  | publish hphase hphase' hcell hshake =>
    exact ⟨.refl wires, (h.publish hphase hphase' hcell hshake).closeAll _⟩
  | leave hm hidle hcell _ hleft =>
    have hafter : wires.after s m = wires := by
      cases m <;> first | rfl | cases hm
    rw [hafter]
    refine ⟨.refl wires, h.leave hidle hcell fun client hc => ?_⟩
    obtain ⟨hserving, hlost' | hmem⟩ := hleft client hc
    · obtain ⟨cause, rfl⟩ := hlost'
      exact .inl (hlost cause client rfl hserving)
    · exact .inr hmem

end Supervised

-- ---------------------------------------------------------------------------
-- Errands
-- ---------------------------------------------------------------------------

namespace Errand

variable {κ : Type} {e e' : Errand κ UInt64}

def Sound (wires : Wires κ) (e : Errand κ UInt64) : Prop :=
  match e.stage with
  | .begun | .aboard _ | .returned _ => True
  | .connected client => wires.Known client
  | .keyed client f | .missed client f | .leading _ client f | .searching _ client f
  | .asking _ client f => wires.Paired client f
  | .waiting _ client f id => wires.Awaited client (e.query f) id
  | .answered _ f r | .remembered _ f r => r.Fits ∧ wires.Answered (e.query f) r
  | .found _ f r => wires.admission.admits (e.query f).digest r

theorem Sound.grow {wires wires' : Wires κ} (h : e.Sound wires) (hg : wires.Grow wires') :
    e.Sound wires' := by
  obtain ⟨g, x, work, stage⟩ := e
  cases stage with
  | begun | aboard _ | returned _ => trivial
  | connected client => exact Wires.Known.grow h hg
  | keyed client f | missed client f | leading _ client f | searching _ client f
  | asking _ client f => exact Wires.Paired.grow h hg
  | waiting _ client f id => exact Wires.Awaited.grow h hg
  | answered _ f r | remembered _ f r => exact ⟨h.1, h.2.grow hg⟩
  | found _ f r => exact Wires.admits_grow h hg

structure Stepped (w w' : Workspace (Wires κ) κ) (e' : Errand κ UInt64) : Prop where
  cell : w'.cell = w.cell
  fingerprint : w'.fingerprint = w.fingerprint
  grow : w.remote.Grow w'.remote
  same : w.remote.SameReports w'.remote
  keeps : w'.Keeps w'.remote.admission
  sound : e'.Sound w'.remote

variable {w w' : Workspace (Wires κ) κ}

theorem Stepped.of_kept (hkept : w.Kept w.remote.admission w') (hcell : w'.cell = w.cell)
    (hf : w'.fingerprint = w.fingerprint) (hremote : w'.remote = w.remote)
    (hsound : e'.Sound w.remote) : Stepped w w' e' where
  cell := hcell
  fingerprint := hf
  grow := hremote ▸ .refl w.remote
  same := hremote ▸ .refl w.remote
  keeps := hremote ▸ hkept.keeps
  sound := hremote ▸ hsound

theorem step_sound [DecidableEq κ] {h h' : Hall (Wires κ) κ}
    (hkeeps : h.workspace.Keeps h.workspace.remote.admission)
    (hhonest : h.workspace.remote.Honest)
    (hcell : ∀ client, h.workspace.cell.load.client? = some client →
      h.workspace.remote.Known client)
    (hpaired : ∀ client, h.workspace.remote.Known client →
      h.workspace.remote.Paired client h.workspace.fingerprint)
    (he : e.Sound h.workspace.remote) (hs : e.step Wires.line h = some (h', e')) :
    Stepped h.workspace h'.workspace e' := by
  have hkept := Workspace.Kept.of_session hkeeps rfl rfl rfl
  obtain ⟨g, x, work, stage⟩ := e
  cases stage with
  | begun =>
    simp only [step] at hs
    split at hs
    · cases hs
      exact .of_kept (.of_session hkeeps rfl rfl rfl) rfl rfl rfl trivial
    · rename_i client hclient
      cases hs
      exact .of_kept hkept rfl rfl rfl (hcell client hclient)
  | connected client =>
    -- the client may be of one process, and the fingerprint of the next one
    cases hs
    exact .of_kept hkept rfl rfl rfl (hpaired client he)
  | keyed client f =>
    simp only [step] at hs
    split at hs
    · rename_i session r hl
      obtain ⟨hfound, -⟩ := Workspace.lookUp_kept hkeeps hl
      cases hs
      exact .of_kept (hfound.trans (.of_session hfound.keeps rfl rfl rfl)) rfl rfl rfl trivial
    · cases hs
      exact .of_kept hkept rfl rfl rfl he
  | missed client f =>
    simp only [step] at hs
    split at hs
    · cases hs
      exact .of_kept hkept rfl rfl rfl trivial
    · cases hs
      exact .of_kept hkept rfl rfl rfl he
  | leading flight client f =>
    simp only [step] at hs
    split at hs
    · rename_i session r hl
      obtain ⟨hfound, -⟩ := Workspace.lookUp_kept hkeeps hl
      cases hs
      exact .of_kept hfound rfl rfl rfl trivial
    · cases hs
      exact .of_kept hkept rfl rfl rfl he
  | searching flight client f =>
    simp only [step] at hs
    split at hs
    · rename_i w r hf
      obtain ⟨hfetched, -, -, hr⟩ := Workspace.fetch_kept hkeeps hf
      obtain ⟨trace, rfl⟩ := Workspace.fetch_eq hf
      cases hs
      exact .of_kept (hfetched.trans (.of_session hfetched.keeps rfl rfl rfl)) rfl rfl rfl
        (hr r rfl)
    · rename_i w hf
      obtain ⟨hfetched, -⟩ := Workspace.fetch_kept hkeeps hf
      obtain ⟨trace, rfl⟩ := Workspace.fetch_eq hf
      cases hs
      exact .of_kept hfetched rfl rfl rfl he
  | asking flight client f =>
    cases hs
    have hgrow : h.workspace.remote.Grow (h.workspace.remote.alter client _) :=
      Wires.grow_alter fun wire _ => wire.grows_send (x.method g).name (x.params g)
    have hkept' : h.workspace.Keeps (h.workspace.remote.alter client _).admission :=
      hkeeps.mono fun d r hr => Wires.admits_grow hr hgrow
    exact ⟨rfl, rfl, hgrow, Wires.sameReports_alter fun _ _ => rfl,
      ⟨hkept'.settled, hkept'.memo, hkept'.disk⟩, Wires.awaited_send (q := ⟨g, x, f⟩) he⟩
  | waiting flight client f id =>
    simp only [step] at hs
    split at hs
    · cases hs
    · cases hs
      exact .of_kept hkept rfl rfl rfl trivial
    · rename_i raw ho
      -- the call was not refused, so the fingerprint is that of its client
      split at hs
      · rename_i r hr
        cases hs
        refine .of_kept hkept rfl rfl rfl ⟨Expansion.answer_fits hr, ?_⟩
        exact Wires.Awaited.answered he hhonest ho hr
      · cases hs
        exact .of_kept hkept rfl rfl rfl trivial
  | answered flight f r =>
    cases hs
    exact .of_kept (Workspace.remember_kept hkeeps ⟨_, rfl, r, he.2, .refl r⟩) rfl rfl rfl he
  | remembered flight f r =>
    have hstored := Workspace.store_kept hkeeps he.1 ⟨_, rfl, r, he.2, .refl r⟩
    obtain ⟨-, hcell', hf', hremote⟩ := h.workspace.store_frame (Query.digest ⟨g, x, f⟩) r
    cases hs
    exact .of_kept hstored hcell' hf' hremote trivial
  | found flight f r =>
    cases hs
    exact .of_kept (Workspace.remember_kept hkeeps he) rfl rfl rfl trivial
  | aboard flight =>
    simp only [step] at hs
    split at hs
    · cases hs
    · rename_i answer _
      cases hs
      cases answer <;> exact .of_kept (.of_session hkeeps rfl rfl rfl) rfl rfl rfl trivial
  | returned answer => cases hs

end Errand

-- ---------------------------------------------------------------------------
-- Everything at once
-- ---------------------------------------------------------------------------

/-- A session with its supervisor, and all errands there are. -/
structure Traffic (κ : Type) where
  hall : Hall (Wires κ) κ
  supervisor : Supervisor κ
  errands : List (Errand κ UInt64) := []

namespace Traffic

inductive Move (κ : Type) where
  | ask (g : Generation) (x : Expansion)
  | advance (errand : Nat)
  | supervise (m : SupervisorMove κ)
  | greet
  | connection (client : κ) (m : MacroRelay.Move)
  | purge
  | clearDisk
  /-- The program ends and is started again over the same disk. -/
  | relaunch (memoSize : Int) (policy : RestartPolicy)

variable {κ : Type}

def wires (t : Traffic κ) : Wires κ := t.hall.workspace.remote

def launch (wires : Wires κ) (memoSize : Int) (disk : Option DiskCache) (files : FileTree)
    (policy : RestartPolicy) : Traffic κ where
  hall := { workspace := { session := Session.ofOptions memoSize disk, files, remote := wires } }
  supervisor := .start policy true {}

def start (memoSize : Int) (disk : Option DiskCache) (files : FileTree) (policy : RestartPolicy) :
    Traffic κ :=
  launch (fun _ => none) memoSize disk files policy

def withWorkspace (t : Traffic κ) (w : Workspace (Wires κ) κ) : Traffic κ :=
  { t with hall := { t.hall with workspace := w } }

def withWires (t : Traffic κ) (wires : Wires κ) : Traffic κ :=
  t.withWorkspace { t.hall.workspace with remote := wires }

def greeted? (t : Traffic κ) : Option (Except CallError Gen2.HandshakeResult) :=
  match t.supervisor.phase with
  | .greeting client => do
    let wire ← t.wires client
    let outcome ← wire.client.outcome? (← wire.greeting)
    return Gen2.HandshakeResult.ofOutcome outcome
  | _ => none

/-- Whether the clients give the supervisor cause for a move. -/
def grants (t : Traffic κ) : SupervisorMove κ → Bool
  | .dialed client => (t.wires client).isNone
  | .answered answer =>
    match t.greeted? with
    | some (.ok answer') => answer = answer'
    | _ => false
  | .unanswered fault =>
    match t.greeted? with
    | some (.error fault') => fault = fault'
    | _ => false
  | .lost cause =>
    match t.supervisor.phase with
    | .serving client => (t.wires client).bind (·.client.cause) = some cause
    | _ => false
  | _ => true

structure Sound (t : Traffic κ) : Prop where
  cell : t.hall.workspace.cell = t.supervisor.cell
  fingerprint : t.hall.workspace.fingerprint = t.supervisor.handshake.fingerprint
  honest : t.wires.Honest
  supervised : Supervised t.supervisor t.wires
  keeps : t.hall.workspace.Keeps t.wires.admission
  errands : ∀ e ∈ t.errands, e.Sound t.wires

variable {t t' : Traffic κ}

theorem Sound.launch {wires : Wires κ} {disk : Option DiskCache} {files : FileTree}
    (memoSize : Int) (policy : RestartPolicy)
    (hgone : ∀ client wire, wires client = some wire → wire.client.cause ≠ none)
    (hhonest : wires.Honest) (hsettled : files.Settled)
    (hdisk : ∀ c, disk = some c → Workspace.DiskKeeps wires.admission c files) :
    (launch wires memoSize disk files policy).Sound := by
  have hphase : (Supervisor.start policy true {} : Supervisor κ).phase = .dialing :=
    Supervisor.start_phase ..
  have hcell : (Supervisor.start policy true {} : Supervisor κ).cell = none :=
    Supervisor.start_cell ..
  have hshake : (Supervisor.start policy true {} : Supervisor κ).handshake = {} :=
    Supervisor.start_handshake ..
  unfold Traffic.launch
  generalize Supervisor.start policy true {} = s at hphase hcell hshake ⊢
  exact ⟨hcell.symm, (congrArg Gen2.HandshakeResult.fingerprint hshake).symm, hhonest,
    .start hphase hcell hgone, ⟨hsettled, Workspace.memoKeeps_ofOptions memoSize disk, hdisk⟩,
    fun e he => absurd he List.not_mem_nil⟩

theorem Sound.withStores (h : t.Sound) {session : Session} {files : FileTree}
    {trace : Trace.Recorder}
    (hkeeps : ({ t.hall.workspace with session, files, trace } : Workspace (Wires κ) κ).Keeps
      t.wires.admission) :
    (t.withWorkspace { t.hall.workspace with session, files, trace }).Sound where
  cell := h.cell
  fingerprint := h.fingerprint
  honest := h.honest
  supervised := h.supervised
  keeps := hkeeps
  errands := h.errands

theorem Sound.withWires (h : t.Sound) {wires : Wires κ} (hg : t.wires.Grow wires)
    (hsame : t.wires.SameReports wires) : (t.withWires wires).Sound where
  cell := h.cell
  fingerprint := h.fingerprint
  honest := h.honest.grow hg hsame
  supervised := h.supervised.grow hg hsame
  keeps :=
    have hkeeps := h.keeps.mono fun _ _ hr => Wires.admits_grow hr hg
    ⟨hkeeps.settled, hkeeps.memo, hkeeps.disk⟩
  errands e he := (h.errands e he).grow hg

/-- An answer that the supervisor takes from its client was heard by the client. -/
theorem heard_of_grants {client : κ} {wire : Wire} {answer : Gen2.HandshakeResult}
    (hhonest : wire.Honest) (hphase : t.supervisor.phase = .greeting client)
    (hwire : t.wires client = some wire) (hgrants : t.grants (.answered answer)) :
    wire.Heard answer := by
  simp only [grants] at hgrants
  split at hgrants
  · rename_i answer' hgreeted
    cases of_decide_eq_true hgrants
    simp only [greeted?, hphase] at hgreeted
    obtain ⟨wire₀, hwire₀, hgreeted⟩ := Option.bind_eq_some_iff.mp hgreeted
    cases hwire.symm.trans hwire₀
    obtain ⟨id, hid, hgreeted⟩ := Option.bind_eq_some_iff.mp hgreeted
    obtain ⟨outcome, ho, hgreeted⟩ := Option.bind_eq_some_iff.mp hgreeted
    have hanswer : Gen2.HandshakeResult.ofOutcome outcome = .ok answer := Option.some.inj hgreeted
    cases outcome with
    | error fault => cases hanswer
    | ok raw =>
      obtain ⟨response, hresponse, hr, herror, rfl⟩ := hhonest.outcomes.outcome ho
      exact ⟨response, hresponse, hr ▸ hid, herror, hanswer⟩
  · cases hgrants

def Holds (t : Traffic κ) (d : Digest) (r : Gen2.Result) : Prop :=
  (∃ memo, t.hall.workspace.session.memo = some memo ∧ (d, r) ∈ memo.entries) ∨
    ∃ disk, t.hall.workspace.session.disk = some disk ∧
      disk.stored? t.hall.workspace.files d = some r

theorem Sound.admits (h : t.Sound) {d : Digest} {r : Gen2.Result} (hr : t.Holds d r) :
    t.wires.admission.admits d r := by
  rcases hr with ⟨memo, hmemo, hmem⟩ | ⟨disk, hdisk, hstored⟩
  · exact h.keeps.memo memo hmemo (d, r) hmem
  · exact h.keeps.disk disk hdisk d r hstored

variable [DecidableEq κ]

/-- The supervisor has moved. Sessions see its status and the latest fingerprint. -/
def follow (t : Traffic κ) (m : SupervisorMove κ) (s : Supervisor κ) : Traffic κ :=
  { t.withWorkspace { t.hall.workspace with
      remote := (t.wires.after t.supervisor m).closeAll s.closed
      cell := s.cell
      fingerprint := s.handshake.fingerprint } with supervisor := s }

def step (t : Traffic κ) : Move κ → Option (Traffic κ)
  | .ask g x =>
    let (hall, e) := Errand.start t.hall g x
    some { t with hall, errands := t.errands ++ [e] }
  | .advance i => do
    let e ← t.errands[i]?
    let (hall, e) ← e.step Wires.line t.hall
    return { t with hall, errands := t.errands.set i e }
  | .supervise m => if t.grants m then (t.supervisor.step m).map (t.follow m) else none
  | .greet => do
    let .greeting client := t.supervisor.phase | none
    let wire ← t.wires client
    if wire.greeting.isSome then none else return t.withWires (t.wires.alter client Wire.greet)
  | .connection client m => do
    let wire ← t.wires client
    let wire ← wire.step m
    return t.withWires (t.wires.alter client fun _ => wire)
  | .purge =>
    some (t.withWorkspace { t.hall.workspace with session := t.hall.workspace.session.clear })
  | .clearDisk => do
    let disk ← t.hall.workspace.session.disk
    match disk.clear t.hall.workspace.files with
    | .ok files => some (t.withWorkspace { t.hall.workspace with files })
    | .error _ => none
  | .relaunch memoSize policy =>
    let w := t.hall.workspace
    some (launch w.remote.closed memoSize w.session.disk w.files policy)

def run (t : Traffic κ) (history : List (Move κ)) : Traffic κ :=
  history.foldl (fun t m => (t.step m).getD t) t

theorem advance_sound (h : t.Sound) {i : Nat} (hs : t.step (.advance i) = some t') : t'.Sound := by
  obtain ⟨e, he, hs⟩ := Option.bind_eq_some_iff.mp hs
  obtain ⟨⟨hall, e'⟩, hstep, hs⟩ := Option.bind_eq_some_iff.mp hs
  cases hs
  have hpublished : ∀ client, t.hall.workspace.cell.load.client? = some client →
      t.wires.Known client := by
    rw [h.cell]
    exact h.supervised.published
  have hpaired : ∀ client, t.wires.Known client →
      t.wires.Paired client t.hall.workspace.fingerprint := by
    rw [h.fingerprint]
    exact fun client => h.supervised.paired
  obtain ⟨hcell, hf, hg, hsame, hkeeps, hsound⟩ := Errand.step_sound h.keeps h.honest hpublished
    hpaired (h.errands e (List.mem_of_getElem? he)) hstep
  refine ⟨hcell.trans h.cell, hf.trans h.fingerprint, h.honest.grow hg hsame,
    h.supervised.grow hg hsame, hkeeps, fun other hother => ?_⟩
  rcases List.mem_or_eq_of_mem_set hother with hother | rfl
  · exact (h.errands other hother).grow hg
  · exact hsound

theorem supervise_sound (h : t.Sound) {m : SupervisorMove κ}
    (hs : t.step (.supervise m) = some t') : t'.Sound := by
  simp only [step] at hs
  split at hs
  · rename_i hgrants
    obtain ⟨s, hstep, rfl⟩ := Option.map_eq_some_iff.mp hs
    have hdialed : ∀ client, m = .dialed client → t.wires client = none := by
      rintro client rfl
      exact Option.isNone_iff_eq_none.mp hgrants
    have hlost : ∀ cause client, m = .lost cause → t.supervisor.phase = .serving client →
        ∃ wire, t.wires client = some wire ∧ wire.client.cause ≠ none := by
      rintro cause client rfl hserving
      simp only [grants, hserving, decide_eq_true_eq] at hgrants
      obtain ⟨wire, hwire, hcause⟩ := Option.bind_eq_some_iff.mp hgrants
      exact ⟨wire, hwire, by simp [hcause]⟩
    have hheard : ∀ answer client wire, m = .answered answer →
        t.supervisor.phase = .greeting client → t.wires client = some wire → wire.Heard answer := by
      rintro answer client wire rfl hphase hwire
      exact heard_of_grants (h.honest client wire hwire) hphase hwire hgrants
    obtain ⟨hg, hsupervised⟩ := h.supervised.turn (Supervisor.step_turn hstep) hdialed hheard hlost
    have hclosed := hg.trans (Wires.grow_closeAll _ s.closed)
    have hkeeps := h.keeps.mono fun _ _ hr => Wires.admits_grow hr hclosed
    exact ⟨rfl, rfl,
      (h.honest.after hheard).grow (Wires.grow_closeAll _ _) (Wires.sameReports_closeAll _ _),
      hsupervised, ⟨hkeeps.settled, hkeeps.memo, hkeeps.disk⟩,
      fun e he => (h.errands e he).grow hclosed⟩
  · cases hs

theorem relaunch_sound (h : t.Sound) {memoSize : Int} {policy : RestartPolicy}
    (hs : t.step (.relaunch memoSize policy) = some t') : t'.Sound := by
  cases hs
  refine .launch memoSize policy (fun client wire hwire => ?_) (fun client wire hwire => ?_)
    h.keeps.settled fun c hc d r hr => ?_
  · obtain ⟨wire, -, rfl⟩ := Wires.closed_eq_some hwire
    exact wire.gone_close
  · obtain ⟨wire₀, hwire₀, rfl⟩ := Wires.closed_eq_some hwire
    exact wire₀.grows_close.honest (h.honest client wire₀ hwire₀)
  · exact Wires.admits_grow (h.keeps.disk c hc d r hr) t.wires.grow_closed

theorem step_sound (h : t.Sound) {m : Move κ} (hs : t.step m = some t') : t'.Sound := by
  cases m with
  | ask g x =>
    cases hs
    have hstart : (t.withWorkspace (Errand.start (τ := UInt64) t.hall g x).1.workspace).Sound :=
      h.withStores ⟨h.keeps.settled, h.keeps.memo, h.keeps.disk⟩
    refine ⟨hstart.cell, hstart.fingerprint, hstart.honest, hstart.supervised, hstart.keeps,
      fun e he => ?_⟩
    rcases List.mem_append.mp he with he | he
    · exact hstart.errands e he
    · rw [List.mem_singleton.mp he]
      trivial
  | advance i => exact advance_sound h hs
  | supervise m => exact supervise_sound h hs
  | greet =>
    simp only [step] at hs
    split at hs
    · rename_i client hphase
      obtain ⟨wire, hwire, hs⟩ := Option.bind_eq_some_iff.mp hs
      split at hs
      · cases hs
      · rename_i hgreeting
        cases hs
        refine h.withWires (Wires.grow_alter fun wire₀ hwire₀ => ?_)
          (Wires.sameReports_alter fun _ _ => rfl)
        cases hwire.symm.trans hwire₀
        exact Wire.grows_greet (Option.not_isSome_iff_eq_none.mp hgreeting)
    · cases hs
  | connection client m =>
    obtain ⟨wire, hwire, hs⟩ := Option.bind_eq_some_iff.mp hs
    obtain ⟨wire', hstep, hs⟩ := Option.bind_eq_some_iff.mp hs
    obtain ⟨hgrows, hreported⟩ := Wire.step_eq_some hstep
    cases hs
    refine h.withWires (Wires.grow_alter fun wire₀ hwire₀ => ?_)
      (Wires.sameReports_alter fun wire₀ hwire₀ => ?_)
    · cases hwire.symm.trans hwire₀
      exact hgrows
    · cases hwire.symm.trans hwire₀
      exact hreported
  | purge =>
    cases hs
    exact h.withStores ⟨h.keeps.settled, Workspace.memoKeeps_clear _, h.keeps.disk⟩
  | clearDisk =>
    obtain ⟨disk, hdisk, hs⟩ := Option.bind_eq_some_iff.mp hs
    split at hs
    · rename_i files hclear
      cases hs
      obtain ⟨hsettled, hcleared⟩ := (h.keeps.disk disk hdisk).clear h.keeps.settled hclear
      refine h.withStores ⟨hsettled, h.keeps.memo, fun other hother => ?_⟩
      cases hdisk.symm.trans hother
      exact hcleared
    · cases hs
  | relaunch memoSize policy => exact relaunch_sound h hs

theorem run_sound (h : t.Sound) (history : List (Move κ)) : (t.run history).Sound := by
  induction history generalizing t with
  | nil => exact h
  | cons m history ih =>
    rw [run, List.foldl_cons]
    cases hs : t.step m with
    | none => exact ih h
    | some t' => exact ih (step_sound h hs)

/-- Nothing is kept under the fingerprint of another process. After any moves in any order,
whatever memo or disk hold is the answer of a process to a request for it, and the fingerprint it
is held under is the one that this process had answered to its own greeting. -/
theorem holds_reported {memoSize : Int} {disk : Option DiskCache} {files : FileTree}
    {policy : RestartPolicy} (hsettled : files.Settled)
    (hempty : ∀ c, disk = some c → ∀ d, c.stored? files d = none) (history : List (Move κ))
    (ht : t = (start memoSize disk files policy).run history) {d : Digest} {r : Gen2.Result}
    (hr : t.Holds d r) :
    ∃ (q : Query) (client : κ) (wire : Wire), q.digest = d ∧ t.wires client = some wire ∧
      wire.reported = some q.fingerprint ∧
        (∃ answer, wire.Heard answer ∧ answer.fingerprint = q.fingerprint) ∧
          ∃ r', wire.Answered q r' ∧ r.Alike r' := by
  have hstart : (start memoSize disk files policy : Traffic κ).Sound := by
    refine .launch memoSize policy (fun client wire hwire => ?_) (fun client wire hwire => ?_)
      hsettled fun c hc d r hr => ?_
    · cases hwire
    · cases hwire
    · cases (hempty c hc d).symm.trans hr
  have hsound : t.Sound := ht ▸ run_sound hstart history
  obtain ⟨q, hd, r', ⟨client, wire, hwire, hreported, hanswered⟩, halike⟩ := hsound.admits hr
  exact ⟨q, client, wire, hd, hwire, hreported,
    (hsound.honest client wire hwire).reported _ hreported, r', hanswered, halike⟩

-- ---------------------------------------------------------------------------
-- A restart in the middle of an errand
-- ---------------------------------------------------------------------------

def exchange (client : Nat) (id : UInt64) (raw : Text) : List (Move Nat) :=
  [.checkOpen id, .checkTime id, .register id, .handOver id, .wrote true, .noticeWritten id,
    .answer { id, result := some raw }, .takeAnswer id].map (.connection client)

def bringUp (client : Nat) (f : Text) : List (Move Nat) :=
  [.supervise (.dialed client), .greet] ++
    exchange client 1 (Gen2.HandshakeResult.codec.write { fingerprint := f }) ++
      [.supervise (.answered { fingerprint := f }), .supervise .publish]

def sampleAnswer : Gen2.Result := { stream := { tokens := some [⟨"fn f", ⟨0, 4⟩⟩] } }

/-- The first errand has the client of the first server and reads the fingerprint of the second.
The second errand has client and fingerprint of the second server. -/
def restarted : List (Move Nat) :=
  bringUp 0 "f" ++ [.ask .second (.attribute { attr := "memoize" }), .advance 0,
    .connection 0 (.loseReader .truncated), .supervise (.lost (.unreadable .truncated)),
    .supervise .rested] ++
  bringUp 1 "g" ++ List.replicate 6 (.advance 0) ++
  exchange 0 2 (Gen2.Result.codec.write sampleAnswer) ++
  List.replicate 2 (.advance 0) ++ [.ask .second (.attribute { attr := "memoize" })] ++
  List.replicate 7 (.advance 1) ++ exchange 1 2 (Gen2.Result.codec.write sampleAnswer) ++
  List.replicate 4 (.advance 1)

/-- Both errands ask, and only the answer to the second one is kept. -/
theorem holds_reported_restarted :
    let t := (start 1 none (FileTree.empty "/") ⟨1, 0, 0⟩).run restarted
    t.hall.workspace.session.stats.calls = 2 ∧ ∃ d, t.Holds d sampleAnswer ∧
      ∃ (q : Query) (client : Nat) (wire : Wire), q.digest = d ∧ t.wires client = some wire ∧
        wire.reported = some q.fingerprint ∧
          (∃ answer, wire.Heard answer ∧ answer.fingerprint = q.fingerprint) ∧
            ∃ r', wire.Answered q r' ∧ sampleAnswer.Alike r' := by
  intro t
  have hcalls : t.hall.workspace.session.stats.calls = 2 := by decide +kernel
  have hmemo :
      t.hall.workspace.session.memo.map (·.entries.map Prod.snd) = some [sampleAnswer] := by
    decide +kernel
  obtain ⟨memo, hmemo, hentries⟩ := Option.map_eq_some_iff.mp hmemo
  obtain ⟨⟨d, r⟩, hmem, rfl⟩ := List.mem_map.mp (hentries ▸ List.mem_singleton_self sampleAnswer)
  have hr : t.Holds d sampleAnswer := .inl ⟨memo, hmemo, hmem⟩
  have hempty : ∀ c, (none : Option DiskCache) = some c →
      ∀ d, c.stored? (FileTree.empty "/") d = none := nofun
  exact ⟨hcalls, d, hr, holds_reported (by decide) hempty restarted rfl hr⟩

end Traffic

end MacroRelay
