import MacroRelay.Supervisor

/-!
# What a supervisor does

`Advance` lists everything that a move can do. As far as the phase, the published status and the
latest answer to a greeting go, every move is a `Turn` of one of a few kinds. Only a client that has answered is published, and a supervisor
leaves its client only for good: when the client is lost, or closed.
-/

namespace MacroRelay

theorem StatusCell.client?_set {κ : Type} {cell : StatusCell κ} {next : Status κ} {client : κ}
    (h : (cell.set next).1.load.client? = some client) :
    next.client? = some client ∨ cell.load.client? = some client := by
  unfold StatusCell.set at h
  cases ha : cell.admits next with
  | true =>
    rw [ha] at h
    exact .inl h
  | false =>
    rw [ha] at h
    exact .inr h

namespace SupervisorPhase

variable {κ : Type}

def isIdle : SupervisorPhase κ → Bool
  | .dialing | .resting _ | .ended => true
  | _ => false

/-- The client whose answer to the greeting is the latest one. -/
def current? : SupervisorPhase κ → Option κ
  | .greeted client | .serving client => some client
  | _ => none

theorem current?_of_isIdle {p : SupervisorPhase κ} (h : p.isIdle) : p.current? = none := by
  cases p <;> first | rfl | cases h

end SupervisorPhase

/-- The supervisor has no client after the move. -/
def SupervisorMove.isRetreat {κ : Type} : SupervisorMove κ → Bool
  | .dialFailed _ | .unanswered _ | .lost _ | .rested | .noticeCancel => true
  | _ => false

namespace Supervisor

variable {κ : Type} {s s' : Supervisor κ}

theorem start_phase (policy : RestartPolicy) (dumps : Bool) (trace : Trace.Recorder) :
    (start policy dumps trace : Supervisor κ).phase = .dialing := rfl

theorem start_cell (policy : RestartPolicy) (dumps : Bool) (trace : Trace.Recorder) :
    (start policy dumps trace : Supervisor κ).cell = none := rfl

theorem start_handshake (policy : RestartPolicy) (dumps : Bool) (trace : Trace.Recorder) :
    (start policy dumps trace : Supervisor κ).handshake = {} := rfl

inductive Turn (s : Supervisor κ) : SupervisorMove κ → Supervisor κ → Prop
  | cancel {s' : Supervisor κ} : s'.phase = s.phase → s'.cell = s.cell →
      s'.handshake = s.handshake → Turn s .cancel s'
  | dial {client : κ} {s' : Supervisor κ} : s.phase = .dialing → s'.phase = .greeting client →
      s'.cell = s.cell → s'.handshake = s.handshake → Turn s (.dialed client) s'
  | greet {client : κ} {answer : Gen2.HandshakeResult} {s' : Supervisor κ} :
      s.phase = .greeting client → s'.phase = .greeted client → s'.cell = s.cell →
      s'.handshake = answer → Turn s (.answered answer) s'
  | publish {client : κ} {s' : Supervisor κ} :
      s.phase = .greeted client → s'.phase = .serving client →
      s'.cell = (StatusCell.set s.cell (.connected client)).1 →
      s'.handshake = s.handshake → Turn s .publish s'
  | leave {m : SupervisorMove κ} {s' : Supervisor κ} : m.isRetreat → s'.phase.isIdle →
      (∀ client, s'.cell.load.client? = some client → s.cell.load.client? = some client) →
      s'.handshake = s.handshake →
      (∀ client, s.phase.current? = some client →
        s.phase = .serving client ∧ ((∃ cause, m = .lost cause) ∨ client ∈ s'.closed)) → Turn s m s'

inductive Fails (s : Supervisor κ) : SupervisorMove κ → Loss → Prop
  | dialing {message : Text} : s.phase = .dialing → Fails s (.dialFailed message) (.dial message)
  | greeting {client : κ} {fault : CallError} : s.phase = .greeting client →
      Fails s (.unanswered fault) (.handshake fault)
  | serving {client : κ} {cause : Cause} : s.phase = .serving client →
      Fails s (.lost cause) (.connection cause)

/-- Everything that a move can do, but for traces and for what is closed after a loss. -/
inductive Advance (s : Supervisor κ) : SupervisorMove κ → Supervisor κ → Prop
  | cancel : s.phase ≠ .ended → Advance s .cancel { s with cancelled := true }
  | dial {client : κ} : s.phase = .dialing →
      Advance s (.dialed client) { s with phase := .greeting client }
  | greet {client : κ} {answer : Gen2.HandshakeResult} (trace : Trace.Recorder)
      (spawn : Trace.Activity) : s.phase = .greeting client →
      Advance s (.answered answer)
        { s with trace, spawn, handshake := answer, phase := .greeted client }
  | publish {client : κ} : s.phase = .greeted client →
      Advance s .publish
        { s with
          cell := (StatusCell.set s.cell (.connected client)).1, ready := true
          phase := .serving client }
  | relaunch {wait : Duration} (trace : Trace.Recorder) (spawn : Trace.Activity) :
      s.phase = .resting wait →
      Advance s .rested { s with trace, spawn, attempt := s.attempt + 1, phase := .dialing }
  | hangUp {client : κ} (trace : Trace.Recorder) : s.phase = .serving client → s.cancelled →
      Advance s .noticeCancel
        { s with trace, closed := client :: s.closed, phase := .ended, ready := true }
  | leave {wait : Duration} (trace : Trace.Recorder) : s.phase = .resting wait → s.cancelled →
      Advance s .noticeCancel { s with trace, phase := .ended, ready := true }
  | quit {m : SupervisorMove κ} {loss : Loss} (trace : Trace.Recorder) (spawn : Trace.Activity)
      (closed : List κ) : s.Fails m loss → s.cancelled →
      Advance s m { s with trace, spawn, closed, phase := .ended, ready := true }
  | rest {m : SupervisorMove κ} {loss : Loss} (trace : Trace.Recorder) (spawn : Trace.Activity)
      (closed : List κ) (wait : Duration) : s.Fails m loss → s.cancelled = false →
      s.policy.isSpent s.restarts = false →
      Advance s m
        { s with trace, spawn, closed, restarts := s.restarts + 1, phase := .resting wait }
  | giveUp {m : SupervisorMove κ} {loss : Loss} (trace : Trace.Recorder) (spawn : Trace.Activity)
      (closed : List κ) (dump : Text) (dumpedAfter : Nat) : s.Fails m loss → s.cancelled = false →
      s.policy.isSpent s.restarts →
      Advance s m
        { s with
          trace, spawn, closed, dump, dumpedAfter, crash := some ⟨loss⟩
          cell := (StatusCell.set s.cell .crashed).1, phase := .ended, ready := true }

theorem examine_advance {m : SupervisorMove κ} {loss : Loss} (h : s.Fails m loss)
    (trace : Trace.Recorder) (spawn : Trace.Activity) (closed : List κ) :
    s.Advance m ({ s with trace, spawn, closed }.examine loss) := by
  unfold examine
  split
  · rename_i hc
    exact .quit _ _ _ h hc
  · rename_i hc
    simp only
    split
    · rename_i hspent
      exact .giveUp _ _ _ _ _ h (Bool.eq_false_iff.mpr hc) hspent
    · rename_i hspent
      exact .rest _ _ _ _ h (Bool.eq_false_iff.mpr hc) (Bool.eq_false_iff.mpr hspent)

theorem step_advance {m : SupervisorMove κ} (h : s.step m = some s') : s.Advance m s' := by
  unfold step at h
  split at h
  · cases h
  · rename_i hended
    cases h
    exact .cancel hended
  · rename_i hphase
    cases h
    exact .dial hphase
  · rename_i hphase
    cases h
    exact examine_advance (.dialing hphase) _ _ _
  · rename_i hphase
    cases h
    exact .greet _ _ hphase
  · rename_i hphase
    cases h
    exact examine_advance (.greeting hphase) _ _ _
  · rename_i hphase
    cases h
    exact .publish hphase
  · rename_i hphase
    cases h
    exact examine_advance (.serving hphase) s.trace s.spawn s.closed
  · rename_i hphase
    cases h
    exact .relaunch _ _ hphase
  · rename_i hphase
    split at h
    · rename_i hc
      cases h
      exact .hangUp _ hphase hc
    · cases h
  · rename_i hphase
    split at h
    · rename_i hc
      cases h
      exact .leave _ hphase hc
    · cases h
  · cases h

theorem Fails.isRetreat {m : SupervisorMove κ} {loss : Loss} (h : s.Fails m loss) : m.isRetreat := by
  cases h <;> rfl

theorem Fails.current {m : SupervisorMove κ} {loss : Loss} (h : s.Fails m loss) {client : κ}
    (hc : s.phase.current? = some client) :
    s.phase = .serving client ∧ ∃ cause, m = .lost cause := by
  cases h with
  | dialing hphase => simp [hphase, SupervisorPhase.current?] at hc
  | greeting hphase => simp [hphase, SupervisorPhase.current?] at hc
  | serving hphase =>
    rw [hphase] at hc ⊢
    cases hc
    exact ⟨rfl, _, rfl⟩

theorem Fails.turn {m : SupervisorMove κ} {loss : Loss} (h : s.Fails m loss)
    (hidle : s'.phase.isIdle) (hcell : ∀ client, s'.cell.load.client? = some client →
      s.cell.load.client? = some client) (hshake : s'.handshake = s.handshake) : s.Turn m s' := by
  refine .leave h.isRetreat hidle hcell hshake fun client hc => ?_
  obtain ⟨hphase, hlost⟩ := h.current hc
  exact ⟨hphase, .inl hlost⟩

theorem Advance.turn {m : SupervisorMove κ} (h : s.Advance m s') : s.Turn m s' := by
  cases h with
  | cancel => exact .cancel rfl rfl rfl
  | dial hphase => exact .dial hphase rfl rfl rfl
  | greet _ _ hphase => exact .greet hphase rfl rfl rfl
  | publish hphase => exact .publish hphase rfl rfl rfl
  | relaunch _ _ hphase =>
    exact .leave rfl rfl (fun _ h => h) rfl fun client hc => by
      simp [hphase, SupervisorPhase.current?] at hc
  | hangUp _ hphase _ =>
    refine .leave rfl rfl (fun _ h => h) rfl fun other hother => ?_
    rw [hphase] at hother ⊢
    cases hother
    exact ⟨rfl, .inr List.mem_cons_self⟩
  | leave _ hphase _ =>
    exact .leave rfl rfl (fun _ h => h) rfl fun client hc => by
      simp [hphase, SupervisorPhase.current?] at hc
  | quit _ _ _ hf _ => exact hf.turn rfl (fun _ h => h) rfl
  | rest _ _ _ _ hf _ _ => exact hf.turn rfl (fun _ h => h) rfl
  | giveUp _ _ _ _ _ hf _ _ =>
    refine hf.turn rfl (fun client h => ?_) rfl
    rcases StatusCell.client?_set h with h | h
    · cases h
    · exact h

theorem step_turn {m : SupervisorMove κ} (h : s.step m = some s') : s.Turn m s' :=
  (step_advance h).turn

end Supervisor

end MacroRelay
