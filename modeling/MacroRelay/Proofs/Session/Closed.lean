import MacroRelay.Proofs.Session.Errand
import MacroRelay.Proofs.Session.Plugins
import MacroRelay.Proofs.Status

/-!
# Plugins after a crash

Plugins are called while the status is being set, and others use the workspace meanwhile. Once a
crash has been accepted, whoever calls a plugin finds no connection, however the steps of all calls
are ordered: nothing is sent, and neither the memo nor the disk is looked at.
-/

namespace MacroRelay

structure PluginCall (κ τ : Type) where
  package : Package
  job : PluginJob
  errand? : Option (Errand κ τ)

namespace PluginCall

variable {κ τ : Type}

def result? (c : PluginCall κ τ) : Option Generated :=
  match c.errand? with
  | none => some {}
  | some e =>
    match e.stage with
    | .returned answer => some (answer.elim {} (c.job.conclude c.package ·))
    | _ => none

/-- The call makes no request, has not looked at the status yet, or has found no connection. -/
def Idle (c : PluginCall κ τ) : Prop :=
  ∀ e ∈ c.errand?, e.stage = .begun ∨ e.stage = .returned none

theorem idle_of_none (p : Package) (job : PluginJob) : (⟨p, job, none⟩ : PluginCall κ τ).Idle :=
  fun _ he => absurd he (Option.not_mem_none _)

theorem Idle.result {c : PluginCall κ τ} (h : c.Idle) : ∀ g ∈ c.result?, g = {} := by
  intro g hg
  obtain ⟨package, job, errand?⟩ := c
  cases errand? with
  | none => exact (Option.some.inj hg).symm
  | some e =>
    rcases h e rfl with hstage | hstage
    · simp [result?, hstage] at hg
    · simp only [result?, hstage] at hg
      exact (Option.some.inj hg).symm

end PluginCall

structure Office (σ κ τ : Type) where
  board : Board κ := {}
  hall : Hall σ κ
  calls : List (PluginCall κ τ) := []

namespace Office

inductive Move (σ κ : Type) where
  | board (m : Board.Move κ)
  | call (p : Package) (c : PluginContext) (job : PluginJob)
  | advance (call : Nat)
  | drift (w : Workspace σ κ)

variable {σ κ τ : Type}

def opened (w : Workspace σ κ) : Office σ κ τ := { hall := { workspace := w } }

def scene (o : Office σ κ τ) : Hall σ κ :=
  { o.hall with workspace := { o.hall.workspace with cell := o.board.cell } }

def step (line : Line σ κ τ) (o : Office σ κ τ) : Move σ κ → Option (Office σ κ τ)
  | .board m => do return { o with board := ← o.board.step m }
  | .call p c job =>
    match job.request? p c with
    | none => some { o with calls := o.calls ++ [⟨p, job, none⟩] }
    | some x =>
      let (hall, e) := Errand.start o.scene p.generation x
      some { o with hall, calls := o.calls ++ [⟨p, job, some e⟩] }
  | .advance i => do
    let call ← o.calls[i]?
    let e ← call.errand?
    let (hall, e) ← e.step line o.scene
    return { o with hall, calls := o.calls.set i { call with errand? := some e } }
  | .drift w => some { o with hall := { o.hall with workspace := w } }

def run (line : Line σ κ τ) (o : Office σ κ τ) (history : List (Move σ κ)) : Office σ κ τ :=
  history.foldl (fun o m => (o.step line m).getD o) o

variable {line : Line σ κ τ} {o o' : Office σ κ τ} {m : Move σ κ} {n : Nat} {i : Nat}

theorem run_board (line : Line σ κ τ) (o : Office σ κ τ) (history : List (Board.Move κ)) :
    o.run line (history.map .board) = { o with board := o.board.run history } := by
  induction history generalizing o with
  | nil => rfl
  | cons m history ih =>
    rw [List.map_cons, run, List.foldl_cons, ← run, ih]
    cases hs : o.board.step m <;> simp [step, Board.run, hs]

inductive Turn (line : Line σ κ τ) (o : Office σ κ τ) : Move σ κ → Office σ κ τ → Prop
  | board {m : Board.Move κ} {board : Board κ} : o.board.Turn m board →
    Turn line o (.board m) { o with board }
  | pass {p : Package} {c : PluginContext} {job : PluginJob} :
    Turn line o (.call p c job) { o with calls := o.calls ++ [⟨p, job, none⟩] }
  | call {p : Package} {c : PluginContext} {job : PluginJob} {hall : Hall σ κ} {e : Errand κ τ} :
    e.stage = .begun →
    Turn line o (.call p c job) { o with hall, calls := o.calls ++ [⟨p, job, some e⟩] }
  | advance {i : Nat} {call : PluginCall κ τ} {e e' : Errand κ τ} {hall : Hall σ κ} :
    o.calls[i]? = some call → e ∈ call.errand? → e.step line o.scene = some (hall, e') →
    Turn line o (.advance i)
      { o with hall, calls := o.calls.set i { call with errand? := some e' } }
  | drift {w : Workspace σ κ} :
    Turn line o (.drift w) { o with hall := { o.hall with workspace := w } }

theorem turn_of_step (h : o.step line m = some o') : o.Turn line m o' := by
  cases m with
  | board m =>
    obtain ⟨board, hboard, heq⟩ := Option.bind_eq_some_iff.mp h
    cases heq
    exact .board (Board.turn_of_step hboard)
  | call p c job =>
    simp only [step] at h
    split at h
    · cases h
      exact .pass
    · rename_i x _
      have hstage : ((Errand.start o.scene p.generation x).2 : Errand κ τ).stage = .begun := rfl
      generalize Errand.start o.scene p.generation x = started at h hstage
      cases h
      exact .call hstage
  | advance i =>
    obtain ⟨call, hcall, h⟩ := Option.bind_eq_some_iff.mp h
    obtain ⟨e, he, h⟩ := Option.bind_eq_some_iff.mp h
    obtain ⟨⟨hall, e'⟩, hstep, h⟩ := Option.bind_eq_some_iff.mp h
    cases h
    exact .advance hcall he hstep
  | drift w =>
    cases h
    exact .drift

theorem Turn.board_cases (h : o.Turn line m o') :
    o'.board = o.board ∨ ∃ m, o.board.Turn m o'.board := by
  cases h with
  | board hturn => exact .inr ⟨_, hturn⟩
  | _ => exact .inl rfl

theorem Turn.sound (h : o.Turn line m o') (hsound : o.board.Sound) : o'.board.Sound := by
  rcases h.board_cases with hsame | ⟨m, hturn⟩
  · exact hsame ▸ hsound
  · exact hsound.turn hturn

-- ---------------------------------------------------------------------------
-- Late calls
-- ---------------------------------------------------------------------------

/-- The call finds no connection. That is counted and noted, and nothing else in the workspace is
changed or looked at. -/
def PassesBy (o : Office σ κ τ) (i : Nat) (o' : Office σ κ τ) : Prop :=
  ∃ call, o.calls[i]? = some call ∧ ∃ e ∈ call.errand?, o' = { o with
    hall := { o.scene with
      workspace := o.scene.workspace.degrade.finish e.work "degraded: crashed" }
    calls := o.calls.set i { call with errand? := some (e.arrive (.returned none)) } }

theorem step_crashed (line : Line σ κ τ) {h : Hall σ κ} {e : Errand κ τ}
    (hcell : h.workspace.cell.load = .crashed) (hstage : e.stage = .begun) :
    e.step line h = some
      ({ h with workspace := h.workspace.degrade.finish e.work "degraded: crashed" },
        e.arrive (.returned none)) := by
  simp only [Errand.step, hstage, hcell, Status.client?]
  rfl

theorem eq_of_step_crashed {h h' : Hall σ κ} {e e' : Errand κ τ}
    (hcell : h.workspace.cell.load = .crashed) (hstage : e.stage = .begun ∨ e.stage = .returned none)
    (hstep : e.step line h = some (h', e')) :
    h' = { h with workspace := h.workspace.degrade.finish e.work "degraded: crashed" } ∧
      e' = e.arrive (.returned none) := by
  rcases hstage with hstage | hstage
  · cases (step_crashed line hcell hstage).symm.trans hstep
    exact ⟨rfl, rfl⟩
  · simp [Errand.step, hstage] at hstep

theorem Turn.passesBy (h : o.Turn line (.advance i) o') (hcell : o.board.cell.load = .crashed)
    (hidle : ∀ call, o.calls[i]? = some call → call.Idle) : o.PassesBy i o' := by
  cases h with
  | @advance _ call e e' hall hcall he hstep =>
    obtain ⟨rfl, rfl⟩ := eq_of_step_crashed (h := o.scene) hcell (hidle call hcall e he) hstep
    exact ⟨call, hcall, e, he, rfl⟩

/-- A crash has been accepted, and the calls from the `n`th one on began after that. -/
structure Late (n : Nat) (o : Office σ κ τ) : Prop where
  sound : o.board.Sound
  accepted : ∃ i, Sign.set i .crashed true ∈ o.board.log
  began : n ≤ o.calls.length
  idle : ∀ j call, n ≤ j → o.calls[j]? = some call → call.Idle

theorem Late.crashed (h : Late n o) : o.board.cell.load = .crashed := by
  obtain ⟨i, hi⟩ := h.accepted
  rw [h.sound.cell]
  exact h.sound.honest.latest_crashed hi

theorem Late.turn (h : Late n o) (hturn : o.Turn line m o') : Late n o' := by
  have hsound := hturn.sound h.sound
  have haccepted : ∃ i, Sign.set i .crashed true ∈ o'.board.log := by
    obtain ⟨i, hi⟩ := h.accepted
    rcases hturn.board_cases with hsame | ⟨m, hboard⟩
    · exact ⟨i, hsame ▸ hi⟩
    · exact ⟨i, hboard.log_grows.subset hi⟩
  have hnew {call : PluginCall κ τ} (hidle : call.Idle) :
      n ≤ (o.calls ++ [call]).length ∧
        ∀ j call', n ≤ j → (o.calls ++ [call])[j]? = some call' → call'.Idle := by
    refine ⟨?_, fun j call' hj hcall => ?_⟩
    · rw [List.length_append]
      exact Nat.le_add_right_of_le h.began
    · rcases getElem?_concat_eq_some hcall with hcall | ⟨-, rfl⟩
      · exact h.idle j call' hj hcall
      · exact hidle
  cases hturn with
  | board _ => exact ⟨hsound, haccepted, h.began, h.idle⟩
  | @pass p c job =>
    obtain ⟨hbegan, hidle⟩ := hnew (PluginCall.idle_of_none p job)
    exact ⟨hsound, haccepted, hbegan, hidle⟩
  | @call p c job hall e hstage =>
    have hfresh : (⟨p, job, some e⟩ : PluginCall κ τ).Idle := by
      rintro e' ⟨⟩
      exact .inl hstage
    obtain ⟨hbegan, hidle⟩ := hnew hfresh
    exact ⟨hsound, haccepted, hbegan, hidle⟩
  | @advance i call e e' hall hcall he hstep =>
    refine ⟨hsound, haccepted, by rw [List.length_set]; exact h.began, fun j call' hj hcall' => ?_⟩
    rcases getElem?_set_eq_some hcall' with ⟨rfl, rfl⟩ | ⟨-, hcall'⟩
    · -- a late call moves only to return
      rintro e'' ⟨⟩
      obtain ⟨-, rfl⟩ := eq_of_step_crashed (h := o.scene) h.crashed (h.idle j call hj hcall e he) hstep
      exact .inr rfl
    · exact h.idle j call' hj hcall'
  | drift => exact ⟨hsound, haccepted, h.began, h.idle⟩

/-- However the steps of those who set and read the status are ordered, everybody reads what was
accepted last. A crash is final, and nothing becomes pending again. Calls that do not overlap take
effect as `StatusCell.set` says. Plugins that are called after a crash was accepted leave the server
and the caches alone. -/
theorem crash_is_final :
    (∀ history : List (Board.Move κ),
      let b : Board κ := .run {} history
      (∀ (before after : List (Sign κ)) (status : Status κ),
        b.log = before ++ .read status :: after → status = (Board.latest before).load) ∧
      (∀ (before after : List (Sign κ)) (i : Nat), b.log = before ++ .set i .crashed true :: after →
        ∀ e ∈ after, e.accepted? = none ∧ ∀ status, e = .read status → status = .crashed) ∧
      (∀ (before after : List (Sign κ)) (status : Status κ),
        b.log = before ++ .read status :: after → status ≠ .pending → Sign.read .pending ∉ after) ∧
      (∀ (i : Nat) (status : Status κ) (took : Bool),
        Sign.set i status took ∈ b.log ↔ b.posts[i]? = some ⟨status, .done took⟩) ∧
      (b.log.filterMap (·.post?)).Nodup ∧
      (∀ m, b.log <+: (Board.run {} (history ++ [m])).log) ∧
      (Board.OneByOne history → (∀ p ∈ b.posts, p.stage.took?.isSome) →
        b.cell.load = StatusCell.verdict b.statuses ∧
        StatusCell.setAll none b.statuses = (b.cell, b.posts.filterMap (·.stage.took?)))) ∧
    ∀ (w : Workspace σ κ) (line : Line σ κ τ) (earlier later : List (Move σ κ)),
      let o := (opened w).run line earlier
      (∃ i, Sign.set i .crashed true ∈ o.board.log) →
      ∀ j, o.calls.length ≤ j →
        (∀ call, (o.run line later).calls[j]? = some call →
          call.Idle ∧ ∀ g ∈ call.result?, g = {}) ∧
        ∀ o', (o.run line later).step line (.advance j) = some o' →
          (o.run line later).PassesBy j o' := by
  refine ⟨fun history => ?_, fun w line earlier later => ?_⟩
  · have hsound : (Board.run {} history : Board κ).Sound := Board.run_sound history
    have hreturned : (Board.run {} history : Board κ).Returned := Board.run_returned history
    refine ⟨fun before after status hlog => ?_, fun before after i hlog e he => ?_,
      fun before after status hlog => ?_, hreturned.signs, hreturned.once, fun m => ?_,
      fun hone hdone => ?_⟩
    · exact (hsound.honest before _ after hlog).symm
    · exact Board.Honest.crashed_forever (hlog ▸ hsound.honest) he
    · exact Board.Honest.pending_no_more (hlog ▸ hsound.honest)
    · rw [Board.run_concat]
      cases hs : (Board.run {} history).step m with
      | none => exact List.prefix_rfl
      | some b' => exact (Board.turn_of_step hs).log_grows
    · have hall := Board.run_setAll hone hdone
      refine ⟨?_, hall⟩
      rw [← StatusCell.load_setAll, hall]
  · intro o haccepted j hj
    have hsound : o.board.Sound :=
      foldl_getD_keeps (P := fun o : Office σ κ τ => o.board.Sound) Board.sound_empty
        (fun _ _ _ hs hstep => (turn_of_step hstep).sound hs) earlier
    have hlate : Late o.calls.length (o.run line later) := by
      refine foldl_getD_keeps ⟨hsound, haccepted, Nat.le_refl _, ?_⟩
        (fun _ _ _ hl hstep => hl.turn (turn_of_step hstep)) later
      intro j call hj hcall
      exact absurd (List.getElem?_eq_some_iff.mp hcall).1 (Nat.not_lt.mpr hj)
    have hidle (call : PluginCall κ τ) (hcall : (o.run line later).calls[j]? = some call) :
        call.Idle := hlate.idle j call hj hcall
    exact ⟨fun call hcall => ⟨hidle call hcall, (hidle call hcall).result⟩,
      fun o' hstep => (turn_of_step hstep).passesBy hlate.crashed hidle⟩

/-- A crash overtakes a connection. -/
def overtaking : List (Board.Move Unit) :=
  [.post (.connected ()), .post .crashed, .look 0, .look 1, .swap 1, .swap 0, .look 0, .read]

/-- The connection is refused, and a plugin that is called then finds none. -/
theorem crash_is_final_overtaking :
    let w : Workspace Nat Unit := { files := FileTree.empty "/", remote := 0 }
    let line : Line Nat Unit Outcome := .ofCaller fun n _ _ _ => (n + 1, .ok none)
    let o := (opened w).run line (overtaking.map .board)
    let late := o.run line [.call Fleet.replacePackage Fleet.replaceContext Fleet.replaceJob]
    o.board.log = [.set 1 .crashed true, .set 0 (.connected ()) false, .read .crashed] ∧
      ∃ o', late.step line (.advance 0) = some o' ∧ late.PassesBy 0 o' := by
  intro w line o late
  have ho : o = { opened w with board := Board.run {} overtaking } := run_board line _ overtaking
  have hlog : o.board.log = [.set 1 .crashed true, .set 0 (.connected ()) false, .read .crashed] := by
    rw [ho]
    rfl
  have hnone : o.calls.length ≤ 0 := by rw [ho]; rfl
  obtain ⟨-, hfinal⟩ := crash_is_final (σ := Nat) (κ := Unit) (τ := Outcome)
  obtain ⟨-, hpass⟩ := hfinal w line (overtaking.map .board)
    [.call Fleet.replacePackage Fleet.replaceContext Fleet.replaceJob] ⟨1, by rw [hlog]; simp⟩ 0 hnone
  obtain ⟨x, hx⟩ := Option.isSome_iff_exists.mp
    (by decide : (Fleet.replaceJob.request? Fleet.replacePackage Fleet.replaceContext).isSome)
  have hstage (h : Hall Nat Unit) :
      ((Errand.start h .second x).2 : Errand Unit Outcome).stage = .begun := rfl
  have hlate : late = { o with
      hall := (Errand.start (τ := Outcome) o.scene .second x).1
      calls := o.calls ++ [⟨Fleet.replacePackage, Fleet.replaceJob,
        some (Errand.start o.scene .second x).2⟩] } := by
    simp only [late, run, List.foldl_cons, List.foldl_nil, step, hx, Option.getD_some]
    rfl
  have hstep : ∃ o', late.step line (.advance 0) = some o' := by
    have hcell : late.scene.workspace.cell.load = .crashed := by
      rw [hlate, ho]
      rfl
    have hpass := step_crashed line hcell (hstage o.scene)
    have hcall : late.calls[0]? = some ⟨Fleet.replacePackage, Fleet.replaceJob,
        some (Errand.start o.scene .second x).2⟩ := by
      rw [hlate, ho]
      rfl
    simp [step, hcall, hpass]
  obtain ⟨o', hs⟩ := hstep
  exact ⟨hlog, o', hs, hpass o' hs⟩

end Office

end MacroRelay
