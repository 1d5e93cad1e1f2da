import Mathlib.Data.List.Induction
import MacroRelay.Proofs.Supervisor

/-!
# How often a server is started again

A supervisor that nobody cancels starts its server once, and again after every loss until the
restarts are spent. Then, and only then, it reports a crash. After a cancellation nothing is spent
any more and no crash is reported.
-/

namespace MacroRelay

namespace StatusCell

variable {κ : Type} {cell : StatusCell κ}

theorem set_connected (h : cell.load ≠ .crashed) (client : κ) :
    (cell.set (.connected client)).1 = some (.connected client) := by
  rcases cell with _ | _ | _ | _
  · rfl
  · rfl
  · rfl
  · exact absurd rfl h

theorem load_set_crashed (cell : StatusCell κ) : (cell.set .crashed).1.load = .crashed := by
  rcases cell with _ | _ | _ | _ <;> rfl

theorem load_set_ne_pending {next : Status κ} (h : next ≠ .pending) :
    (cell.set next).1.load ≠ .pending := by
  cases next with
  | pending => exact absurd rfl h
  | _ => rcases cell with _ | _ | _ | _ <;> nofun

end StatusCell

namespace SupervisorPhase

variable {κ : Type}

def isDialing : SupervisorPhase κ → Bool
  | .dialing => true
  | _ => false

/-- How many attempts can begin before the next loss. -/
def attemptsLeft : SupervisorPhase κ → Nat
  | .resting _ => 1
  | _ => 0

/-- How many times the server can be dialed before the next loss. -/
def dialsLeft : SupervisorPhase κ → Nat
  | .resting _ | .dialing => 1
  | _ => 0

theorem left_le_one (p : SupervisorPhase κ) : p.attemptsLeft ≤ 1 ∧ p.dialsLeft ≤ 1 := by
  cases p <;> simp [attemptsLeft, dialsLeft]

theorem toNat_isDialing_le (p : SupervisorPhase κ) : p.isDialing.toNat ≤ p.dialsLeft := by
  cases p <;> simp [isDialing, dialsLeft]

def isTrying : SupervisorPhase κ → Bool
  | .resting _ | .ended => false
  | _ => true

theorem isTrying_of_isDialing {p : SupervisorPhase κ} (h : p.isDialing) : p.isTrying := by
  cases p <;> first | rfl | cases h

theorem ne_ended_of_isTrying {p : SupervisorPhase κ} (h : p.isTrying) : p ≠ .ended := by
  rintro rfl
  cases h

end SupervisorPhase

namespace SupervisorMove

variable {κ : Type}

def isDial : SupervisorMove κ → Bool
  | .dialed _ | .dialFailed _ => true
  | _ => false

def loss? : SupervisorMove κ → Option Loss
  | .dialFailed message => some (.dial message)
  | .unanswered fault => some (.handshake fault)
  | .lost cause => some (.connection cause)
  | _ => none

def answer? : SupervisorMove κ → Option Gen2.HandshakeResult
  | .answered answer => some answer
  | _ => none

def dials (moves : List (SupervisorMove κ)) : Nat :=
  moves.countP (·.isDial)

def losses (moves : List (SupervisorMove κ)) : List Loss :=
  moves.filterMap (·.loss?)

def answers (moves : List (SupervisorMove κ)) : List Gen2.HandshakeResult :=
  moves.filterMap (·.answer?)

variable (moves : List (SupervisorMove κ)) (m : SupervisorMove κ)

theorem dials_concat : dials (moves ++ [m]) = dials moves + m.isDial.toNat := by
  rw [dials, List.countP_append, List.countP_singleton]
  cases m.isDial <;> rfl

theorem losses_concat : losses (moves ++ [m]) = losses moves ++ m.loss?.toList := by
  rw [losses, List.filterMap_append]
  cases h : m.loss? <;> simp [losses, h]

theorem answers_concat : answers (moves ++ [m]) = answers moves ++ m.answer?.toList := by
  rw [answers, List.filterMap_append]
  cases h : m.answer? <;> simp [answers, h]

end SupervisorMove

open SupervisorMove

namespace Supervisor

-- ---------------------------------------------------------------------------
-- One move
-- ---------------------------------------------------------------------------

variable {κ : Type} {s s' s₀ : Supervisor κ} {m : SupervisorMove κ}
  {moves : List (SupervisorMove κ)}

theorem Fails.isTrying {loss : Loss} (h : s.Fails m loss) : s.phase.isTrying := by
  cases h with
  | dialing hphase => rw [hphase]; rfl
  | greeting hphase => rw [hphase]; rfl
  | serving hphase => rw [hphase]; rfl

theorem Fails.isDial {loss : Loss} (h : s.Fails m loss) : m.isDial = s.phase.isDialing := by
  cases h with
  | dialing hphase => rw [hphase]; rfl
  | greeting hphase => rw [hphase]; rfl
  | serving hphase => rw [hphase]; rfl

theorem Fails.loss? {loss : Loss} (h : s.Fails m loss) : m.loss? = some loss := by
  cases h <;> rfl

theorem Fails.answer? {loss : Loss} (h : s.Fails m loss) : m.answer? = none := by
  cases h <;> rfl

theorem Fails.ne_cancel {loss : Loss} (h : s.Fails m loss) : m ≠ .cancel := by
  cases h <;> nofun

theorem Advance.ne_ended (h : s.Advance m s') : s.phase ≠ .ended := by
  cases h with
  | cancel hne => exact hne
  | dial hphase => rw [hphase]; nofun
  | greet _ _ hphase => rw [hphase]; nofun
  | publish hphase => rw [hphase]; nofun
  | relaunch _ _ hphase => rw [hphase]; nofun
  | hangUp _ hphase _ => rw [hphase]; nofun
  | leave _ hphase _ => rw [hphase]; nofun
  | quit _ _ _ hf _ => exact SupervisorPhase.ne_ended_of_isTrying hf.isTrying
  | rest _ _ _ _ hf _ _ => exact SupervisorPhase.ne_ended_of_isTrying hf.isTrying
  | giveUp _ _ _ _ _ hf _ _ => exact SupervisorPhase.ne_ended_of_isTrying hf.isTrying

theorem Advance.policy (h : s.Advance m s') : s'.policy = s.policy := by
  cases h <;> rfl

theorem Advance.cancelled (h : s.Advance m s') : s'.cancelled ↔ s.cancelled ∨ m = .cancel := by
  cases h with
  | quit _ _ _ hfails _ => simp [hfails.ne_cancel]
  | rest _ _ _ _ hfails _ _ => simp [hfails.ne_cancel]
  | giveUp _ _ _ _ _ hfails _ _ => simp [hfails.ne_cancel]
  | _ => simp

theorem Advance.handshake (h : s.Advance m s') : s'.handshake = m.answer?.getD s.handshake := by
  cases h with
  | quit _ _ _ hfails _ => rw [hfails.answer?]; rfl
  | rest _ _ _ _ hfails _ _ => rw [hfails.answer?]; rfl
  | giveUp _ _ _ _ _ hfails _ _ => rw [hfails.answer?]; rfl
  | _ => rfl

-- ---------------------------------------------------------------------------
-- Runs
-- ---------------------------------------------------------------------------

def run (s : Supervisor κ) (moves : List (SupervisorMove κ)) : Option (Supervisor κ) :=
  moves.foldlM step s

theorem run_append (s : Supervisor κ) (moves moves' : List (SupervisorMove κ)) :
    s.run (moves ++ moves') = (s.run moves).bind (·.run moves') :=
  List.foldlM_append

theorem run_singleton (s : Supervisor κ) (m : SupervisorMove κ) : s.run [m] = s.step m := by
  show ((s.step m).bind fun last => some last) = s.step m
  cases s.step m <;> rfl

theorem run_induction {P : List (SupervisorMove κ) → Supervisor κ → Prop} (hnil : P [] s₀)
    (hstep : ∀ moves s m s', s₀.run moves = some s → P moves s → s.step m = some s' →
      P (moves ++ [m]) s') (hrun : s₀.run moves = some s) : P moves s := by
  induction moves using List.reverseRecOn generalizing s with
  | nil =>
    cases hrun
    exact hnil
  | append_singleton moves m ih =>
    rw [run_append] at hrun
    obtain ⟨mid, hmid, hs⟩ := Option.bind_eq_some_iff.mp hrun
    rw [run_singleton] at hs
    exact hstep moves mid m s hmid (ih hmid) hs

theorem run_policy (h : s₀.run moves = some s) : s.policy = s₀.policy :=
  run_induction (P := fun _ s => s.policy = s₀.policy) rfl
    (fun _ _ _ _ _ hpolicy hs => (step_advance hs).policy.trans hpolicy) h

theorem run_cancelled (h : s₀.run moves = some s) :
    s.cancelled ↔ s₀.cancelled ∨ .cancel ∈ moves := by
  refine run_induction (P := fun moves s => s.cancelled ↔ s₀.cancelled ∨ .cancel ∈ moves)
    (by simp) (fun moves s m s' _ ih hs => ?_) h
  rw [(step_advance hs).cancelled, ih, List.mem_append, List.mem_singleton, or_assoc]
  simp only [eq_comm]

theorem run_handshake (h : s₀.run moves = some s) :
    s.handshake = (answers moves).getLast?.getD s₀.handshake := by
  refine run_induction
    (P := fun moves s => s.handshake = (answers moves).getLast?.getD s₀.handshake)
    rfl (fun moves s m s' _ ih hs => ?_) h
  rw [(step_advance hs).handshake, answers_concat]
  cases m.answer? with
  | none => simpa using ih
  | some answer => simp

theorem run_dials (hstart : s₀.phase.isDialing ∧ s₀.attempt = 0) (h : s₀.run moves = some s) :
    dials moves = s.attempt + (!s.phase.isDialing).toNat := by
  refine run_induction (P := fun moves s => dials moves = s.attempt + (!s.phase.isDialing).toNat)
    ?_ (fun moves s m s' _ ih hs => ?_) h
  · rw [hstart.1, hstart.2]
    rfl
  · rw [dials_concat, ih]
    have hfails {loss : Loss} (hf : s.Fails m loss) :
        s.attempt + (!s.phase.isDialing).toNat + m.isDial.toNat = s.attempt + 1 := by
      rw [hf.isDial]
      cases s.phase.isDialing <;> rfl
    cases step_advance hs with
    | cancel => rfl
    | dial hphase => rw [hphase]; rfl
    | greet _ _ hphase => rw [hphase]; rfl
    | publish hphase => rw [hphase]; rfl
    | relaunch _ _ hphase => rw [hphase]; rfl
    | hangUp _ hphase _ => rw [hphase]; rfl
    | leave _ hphase _ => rw [hphase]; rfl
    | quit _ _ _ hf _ => exact hfails hf
    | rest _ _ _ _ hf _ _ => exact hfails hf
    | giveUp _ _ _ _ _ hf _ _ => exact hfails hf

-- ---------------------------------------------------------------------------
-- The budget
-- ---------------------------------------------------------------------------

structure Alive (s : Supervisor κ) : Prop where
  crash : s.crash = none
  cell : s.cell.load ≠ .crashed

/-- Where a supervisor that nobody has cancelled can be, after the losses. -/
inductive Course (budget : Nat) (lost : List Loss) (s : Supervisor κ) : Prop
  | trying : s.phase.isTrying → lost.length = s.attempt → s.restarts = s.attempt →
      s.attempt ≤ budget → s.Alive → Course budget lost s
  | resting : s.phase = .resting wait → lost.length = s.attempt + 1 → s.restarts = s.attempt + 1 →
      s.attempt < budget → s.Alive → Course budget lost s
  | spent : s.phase = .ended → lost.length = budget + 1 → s.attempt = budget →
      s.restarts = budget → s.crash = lost.getLast?.map Crash.mk → s.cell.load = .crashed →
      Course budget lost s

variable {budget : Nat} {lost : List Loss}

theorem Course.of_trying (h : s.Course budget lost) (ht : s.phase.isTrying) :
    lost.length = s.attempt ∧ s.restarts = s.attempt ∧ s.attempt ≤ budget ∧ s.Alive := by
  cases h with
  | trying _ hlost hrestarts hbudget halive => exact ⟨hlost, hrestarts, hbudget, halive⟩
  | resting hphase =>
    rw [hphase] at ht
    cases ht
  | spent hphase =>
    rw [hphase] at ht
    cases ht

theorem Course.of_resting {wait : Duration} (h : s.Course budget lost)
    (hr : s.phase = .resting wait) :
    lost.length = s.attempt + 1 ∧ s.restarts = s.attempt + 1 ∧ s.attempt < budget ∧ s.Alive := by
  cases h with
  | trying hphase =>
    rw [hr] at hphase
    cases hphase
  | resting _ hlost hrestarts hbudget halive => exact ⟨hlost, hrestarts, hbudget, halive⟩
  | spent hphase => cases hr.symm.trans hphase

theorem Alive.publish (h : s.Alive) (client : κ) :
    (s.cell.set (.connected client)).1.load ≠ .crashed := by
  rw [StatusCell.set_connected h.cell]
  nofun

theorem Advance.alive (h : s.Advance m s') (halive : s.Alive) :
    s'.Alive ∨ s'.phase = .ended ∧ s'.cancelled = false := by
  cases h with
  | publish => exact .inl ⟨halive.crash, halive.publish _⟩
  | giveUp _ _ _ _ _ _ hc _ => exact .inr ⟨rfl, hc⟩
  | _ => exact .inl ⟨halive.crash, halive.cell⟩

theorem isSpent_iff (hmax : s.policy.maxRestarts.toInt = budget) :
    s.policy.isSpent s.restarts ↔ budget ≤ s.restarts := by
  rw [RestartPolicy.isSpent, hmax, decide_eq_true_eq, Int.ofNat_le]

theorem Course.advance (hmax : s.policy.maxRestarts.toInt = budget) (h : s.Course budget lost)
    (hadvance : s.Advance m s') (hc : s'.cancelled = false) :
    s'.Course budget (lost ++ m.loss?.toList) := by
  cases hadvance with
  | cancel => cases hc
  | dial hphase =>
    obtain ⟨hlost, hrestarts, hbudget, halive⟩ := h.of_trying (by rw [hphase]; rfl)
    simp only [loss?, Option.toList_none, List.append_nil]
    exact .trying rfl hlost hrestarts hbudget ⟨halive.crash, halive.cell⟩
  | greet _ _ hphase =>
    obtain ⟨hlost, hrestarts, hbudget, halive⟩ := h.of_trying (by rw [hphase]; rfl)
    simp only [loss?, Option.toList_none, List.append_nil]
    exact .trying rfl hlost hrestarts hbudget ⟨halive.crash, halive.cell⟩
  | publish hphase =>
    obtain ⟨hlost, hrestarts, hbudget, halive⟩ := h.of_trying (by rw [hphase]; rfl)
    simp only [loss?, Option.toList_none, List.append_nil]
    exact .trying rfl hlost hrestarts hbudget ⟨halive.crash, halive.publish _⟩
  | relaunch _ _ hphase =>
    obtain ⟨hlost, hrestarts, hbudget, halive⟩ := h.of_resting hphase
    simp only [loss?, Option.toList_none, List.append_nil]
    exact .trying rfl hlost hrestarts hbudget ⟨halive.crash, halive.cell⟩
  | hangUp _ _ hcancelled => cases hcancelled.symm.trans hc
  | leave _ _ hcancelled => cases hcancelled.symm.trans hc
  | quit _ _ _ _ hcancelled => cases hcancelled.symm.trans hc
  | rest _ _ _ _ hf _ hspent =>
    obtain ⟨hlost, hrestarts, hbudget, halive⟩ := h.of_trying hf.isTrying
    have hroom : ¬ budget ≤ s.restarts := fun hle => by
      cases hspent.symm.trans ((isSpent_iff hmax).mpr hle)
    rw [hf.loss?, Option.toList_some]
    have hlt : s.attempt < budget := by omega
    refine .resting rfl ?_ (congrArg (· + 1) hrestarts) hlt ⟨halive.crash, halive.cell⟩
    rw [List.length_append, hlost, List.length_singleton]
  | giveUp _ _ _ _ _ hf _ hspent =>
    obtain ⟨hlost, hrestarts, hbudget, halive⟩ := h.of_trying hf.isTrying
    -- as many restarts as attempts before this one: the budget is used up to the last
    have hle := (isSpent_iff hmax).mp hspent
    rw [hf.loss?, Option.toList_some]
    refine .spent rfl ?_ ?_ ?_ ?_ (StatusCell.load_set_crashed _)
    · rw [List.length_append, List.length_singleton]
      omega
    · exact Nat.le_antisymm hbudget (hrestarts ▸ hle)
    · exact Nat.le_antisymm (hrestarts ▸ hbudget) hle
    · rw [List.getLast?_concat]
      rfl

/-- Nothing is known yet, and nothing has been tried. -/
structure Fresh (budget : Nat) (s : Supervisor κ) : Prop where
  policy : s.policy.maxRestarts.toInt = budget
  dialing : s.phase.isDialing
  attempt : s.attempt = 0
  restarts : s.restarts = 0
  crash : s.crash = none
  cell : s.cell = none
  cancelled : s.cancelled = false
  ready : s.ready = false
  handshake : s.handshake = {}

theorem start_fresh {policy : RestartPolicy} (hmax : 0 ≤ policy.maxRestarts.toInt) (dumps : Bool)
    (trace : Trace.Recorder) :
    (start policy dumps trace : Supervisor κ).Fresh policy.maxRestarts.toInt.toNat :=
  ⟨(Int.toNat_of_nonneg hmax).symm, rfl, rfl, rfl, rfl, rfl, rfl, rfl, rfl⟩

namespace Fresh

theorem alive (h : s₀.Fresh budget) : s₀.Alive := by
  refine ⟨h.crash, ?_⟩
  rw [h.cell]
  nofun

theorem run_course (h : s₀.Fresh budget) (hrun : s₀.run moves = some s)
    (hc : s.cancelled = false) : s.Course budget (losses moves) := by
  refine run_induction (P := fun moves s => s.cancelled = false → s.Course budget (losses moves))
    (fun _ => ?_) (fun moves s m s' hmid ih hs hc => ?_) hrun hc
  · have htrying := SupervisorPhase.isTrying_of_isDialing h.dialing
    refine .trying htrying h.attempt.symm (h.restarts.trans h.attempt.symm) ?_ h.alive
    rw [h.attempt]
    exact Nat.zero_le _
  · have hadvance := step_advance hs
    have hbefore : s.cancelled = false := by
      refine Bool.eq_false_iff.mpr fun hcancelled => ?_
      cases hc.symm.trans (hadvance.cancelled.mpr (.inl hcancelled))
    rw [losses_concat]
    refine (ih hbefore).advance ?_ hadvance hc
    rw [run_policy hmid]
    exact h.policy

/-- Only a supervisor that has ended without a cancellation can have reported a crash. -/
theorem run_alive (h : s₀.Fresh budget) (hrun : s₀.run moves = some s) :
    s.Alive ∨ s.phase = .ended ∧ s.cancelled = false := by
  refine run_induction (P := fun _ s => s.Alive ∨ s.phase = .ended ∧ s.cancelled = false)
    (.inl h.alive) (fun moves s m s' _ ih hs => ?_) hrun
  have hadvance := step_advance hs
  rcases ih with halive | ⟨hended, -⟩
  · exact hadvance.alive halive
  · exact absurd hended hadvance.ne_ended

end Fresh

-- ---------------------------------------------------------------------------
-- After a cancellation
-- ---------------------------------------------------------------------------

/-- What a cancelled supervisor spends and publishes in the moves from `s` on. -/
structure WindsDown (s : Supervisor κ) (moves : List (SupervisorMove κ)) (s' : Supervisor κ) :
    Prop where
  attempt : s'.attempt + s'.phase.attemptsLeft ≤ s.attempt + s.phase.attemptsLeft
  dials : dials moves + s'.phase.dialsLeft ≤ s.phase.dialsLeft
  restarts : s'.restarts = s.restarts
  cell : .publish ∉ moves → s'.cell = s.cell

theorem WindsDown.refl (s : Supervisor κ) : s.WindsDown [] s :=
  ⟨Nat.le_refl _, Nat.le_of_eq (Nat.zero_add _), rfl, fun _ => rfl⟩

theorem WindsDown.trans {s'' : Supervisor κ} {moves' : List (SupervisorMove κ)}
    (h : s.WindsDown moves s') (h' : s'.WindsDown moves' s'') :
    s.WindsDown (moves ++ moves') s'' where
  attempt := Nat.le_trans h'.attempt h.attempt
  dials := by
    have hfirst := h.dials
    have hsecond := h'.dials
    rw [SupervisorMove.dials, List.countP_append]
    simp only [SupervisorMove.dials] at hfirst hsecond
    omega
  restarts := h'.restarts.trans h.restarts
  cell hnone := by
    rw [List.mem_append, not_or] at hnone
    exact (h'.cell hnone.2).trans (h.cell hnone.1)

theorem Advance.windsDown (h : s.Advance m s') (hc : s.cancelled) : s.WindsDown [m] s' := by
  have hone : dials [m] = m.isDial.toNat := by simpa [dials] using dials_concat [] m
  cases h with
  | cancel => exact ⟨Nat.le_refl _, Nat.le_of_eq (Nat.zero_add _), rfl, fun _ => rfl⟩
  | dial hphase =>
    refine ⟨Nat.le_add_right .., ?_, rfl, fun _ => rfl⟩
    rw [hone, hphase]
    exact Nat.le_refl 1
  | greet _ _ hphase => exact ⟨Nat.le_add_right .., Nat.zero_le _, rfl, fun _ => rfl⟩
  | publish hphase =>
    refine ⟨Nat.le_add_right .., Nat.zero_le _, rfl, fun hnone => ?_⟩
    exact absurd List.mem_cons_self hnone
  | relaunch _ _ hphase =>
    refine ⟨?_, ?_, rfl, fun _ => rfl⟩
    · rw [hphase]
      exact Nat.le_refl _
    · rw [hone, hphase]
      exact Nat.le_refl 1
  | hangUp => exact ⟨Nat.le_add_right .., Nat.zero_le _, rfl, fun _ => rfl⟩
  | leave => exact ⟨Nat.le_add_right .., Nat.zero_le _, rfl, fun _ => rfl⟩
  | quit _ _ _ hf _ =>
    refine ⟨Nat.le_add_right .., ?_, rfl, fun _ => rfl⟩
    rw [hone, hf.isDial]
    exact s.phase.toNat_isDialing_le
  | rest _ _ _ _ _ hlive _ => cases hc.symm.trans hlive
  | giveUp _ _ _ _ _ _ hlive _ => cases hc.symm.trans hlive

theorem run_windsDown (hc : s₀.cancelled) (hrun : s₀.run moves = some s) :
    s₀.WindsDown moves s := by
  refine run_induction (P := fun moves s => s₀.WindsDown moves s) (.refl s₀)
    (fun moves s m s' hmid ih hs => ?_) hrun
  exact ih.trans ((step_advance hs).windsDown ((run_cancelled hmid).mpr (.inl hc)))

theorem WindsDown.bounds (h : s.WindsDown moves s') :
    s'.attempt ≤ s.attempt + 1 ∧ SupervisorMove.dials moves ≤ 1 := by
  have hattempt := h.attempt
  have hdials := h.dials
  have hone := s.phase.left_le_one
  omega

-- ---------------------------------------------------------------------------
-- What is published
-- ---------------------------------------------------------------------------

def Greeted (s₀ : Supervisor κ) (moves : List (SupervisorMove κ)) (client : κ) : Prop :=
  ∃ before answer mid, before ++ [.answered answer] <+: moves ∧ s₀.run before = some mid ∧
    mid.phase = .greeting client

theorem Greeted.concat {client : κ} (h : s₀.Greeted moves client) (m : SupervisorMove κ) :
    s₀.Greeted (moves ++ [m]) client := by
  obtain ⟨before, answer, mid, hfront, hmid, hphase⟩ := h
  exact ⟨before, answer, mid, hfront.trans (List.prefix_append moves [m]), hmid, hphase⟩

theorem Fresh.run_greeted (h : s₀.Fresh budget) (hrun : s₀.run moves = some s) {client : κ}
    (hclient : s.cell.load.client? = some client ∨ s.phase.current? = some client) :
    s₀.Greeted moves client := by
  refine run_induction (P := fun moves s => ∀ client, s.cell.load.client? = some client ∨
    s.phase.current? = some client → s₀.Greeted moves client) ?_
    (fun moves s m s' hmid ih hs => ?_) hrun client hclient
  · rintro client (hcell | hcurrent)
    · rw [h.cell] at hcell
      cases hcell
    · have hphase := h.dialing
      cases hp : s₀.phase <;> rw [hp] at hphase hcurrent <;> cases hcurrent <;> cases hphase
  · rintro client (hcell | hcurrent)
    · refine (ih client ?_).concat m
      cases step_turn hs with
      | cancel _ hsame _ => exact .inl (hsame ▸ hcell)
      | dial _ _ hsame _ => exact .inl (hsame ▸ hcell)
      | greet _ _ hsame _ => exact .inl (hsame ▸ hcell)
      | publish hphase _ hset _ =>
        rw [hset] at hcell
        rcases StatusCell.client?_set hcell with hnew | hold
        · cases hnew
          exact .inr (by rw [hphase]; rfl)
        · exact .inl hold
      | leave _ _ hold _ _ => exact .inl (hold client hcell)
    · cases step_turn hs with
      | cancel hsame _ _ => exact (ih client (.inr (hsame ▸ hcurrent))).concat _
      | dial _ hphase _ _ =>
        rw [hphase] at hcurrent
        cases hcurrent
      | greet hbefore hphase _ _ =>
        rw [hphase] at hcurrent
        cases hcurrent
        exact ⟨moves, _, s, List.prefix_refl _, hmid, hbefore⟩
      | publish hbefore hphase _ _ =>
        rw [hphase] at hcurrent
        cases hcurrent
        exact (ih client (.inr (by rw [hbefore]; rfl))).concat _
      | leave _ hidle _ _ _ =>
        rw [SupervisorPhase.current?_of_isIdle hidle] at hcurrent
        cases hcurrent

theorem Fresh.run_ready (h : s₀.Fresh budget) (hrun : s₀.run moves = some s) (hready : s.ready) :
    s.cell.load ≠ .pending ∨ s.cancelled := by
  refine run_induction (P := fun _ s => s.ready → s.cell.load ≠ .pending ∨ s.cancelled) ?_
    (fun moves s m s' _ ih hs hready => ?_) hrun hready
  · intro hready
    cases h.ready.symm.trans hready
  · cases step_advance hs with
    | cancel => exact .inr rfl
    | publish => exact .inl (StatusCell.load_set_ne_pending nofun)
    | hangUp _ _ hc => exact .inr hc
    | leave _ _ hc => exact .inr hc
    | quit _ _ _ _ hc => exact .inr hc
    | giveUp => exact .inl (StatusCell.load_set_ne_pending nofun)
    | _ => exact ih hready

-- ---------------------------------------------------------------------------
-- Whole runs
-- ---------------------------------------------------------------------------

/-- A supervisor that nobody cancels dials once for every restart and once before. It ends when one
more attempt is lost, and only then it reports a crash, by the last loss. -/
structure WithinBudget (budget : Nat) (moves : List (SupervisorMove κ)) (s : Supervisor κ) :
    Prop where
  dials : dials moves ≤ budget + 1
  ended_iff : s.phase = .ended ↔ s.cell.load = .crashed
  spent_iff : (losses moves).length = budget + 1 ↔ s.cell.load = .crashed
  crashed : s.cell.load = .crashed → SupervisorMove.dials moves = budget + 1 ∧
    s.restarts = budget ∧ ∃ loss, (losses moves).getLast? = some loss ∧ s.crash = some ⟨loss⟩
  alive : s.cell.load ≠ .crashed → s.restarts = (losses moves).length ∧ s.crash = none
  /-- It does not get stuck. -/
  onward : s.phase ≠ .ended → ∃ m, m ≠ .cancel ∧ (s.step m).isSome

theorem exists_step (h : s.phase ≠ .ended) : ∃ m, m ≠ .cancel ∧ (s.step m).isSome := by
  cases hphase : s.phase with
  | dialing => exact ⟨.dialFailed [], nofun, by simp [step, hphase]⟩
  | greeting client => exact ⟨.unanswered (.undecodable []), nofun, by simp [step, hphase]⟩
  | greeted client => exact ⟨.publish, nofun, by simp [step, hphase]⟩
  | serving client => exact ⟨.lost .closed, nofun, by simp [step, hphase]⟩
  | resting wait => exact ⟨.rested, nofun, by simp [step, hphase]⟩
  | ended => exact absurd hphase h

theorem Course.withinBudget (h : s.Course budget (losses moves))
    (hdials : dials moves = s.attempt + (!s.phase.isDialing).toNat) :
    s.WithinBudget budget moves := by
  have hle := (!s.phase.isDialing).toNat_le
  cases h with
  | trying hphase hlost hrestarts hbudget halive =>
    have hne := SupervisorPhase.ne_ended_of_isTrying hphase
    exact ⟨by omega, iff_of_false hne halive.cell, iff_of_false (by omega) halive.cell,
      fun hcrashed => absurd hcrashed halive.cell,
      fun _ => ⟨hrestarts.trans hlost.symm, halive.crash⟩, exists_step⟩
  | resting hphase hlost hrestarts hbudget halive =>
    have hne : s.phase ≠ .ended := by rw [hphase]; nofun
    exact ⟨by omega, iff_of_false hne halive.cell, iff_of_false (by omega) halive.cell,
      fun hcrashed => absurd hcrashed halive.cell,
      fun _ => ⟨hrestarts.trans hlost.symm, halive.crash⟩, exists_step⟩
  | spent hphase hlost hattempt hrestarts hcrash hcell =>
    rw [hphase, hattempt] at hdials
    have hall : dials moves = budget + 1 := hdials
    refine ⟨Nat.le_of_eq hall, iff_of_true hphase hcell, iff_of_true hlost hcell, fun _ => ?_,
      fun hne => absurd hcell hne, exists_step⟩
    cases hlast : (losses moves).getLast? with
    | none =>
      rw [List.getLast?_eq_none_iff.mp hlast] at hlost
      cases hlost
    | some loss =>
      rw [hlast] at hcrash
      exact ⟨hall, hrestarts, loss, rfl, hcrash⟩

/-- The account of any run. Without a cancellation the budget is kept, and used up before a crash
is reported. From a cancellation on, there is at most one further attempt, nothing is spent and no
crash reported, and without another client to publish the status stays. At any time a published
client has answered the greeting, the latest answer is kept, and readiness is not told before there
is a status or a cancellation. -/
theorem run_account {policy : RestartPolicy} (hmax : 0 ≤ policy.maxRestarts.toInt) {dumps : Bool}
    {trace : Trace.Recorder} (hrun : (start policy dumps trace).run moves = some s) :
    (.cancel ∉ moves → s.WithinBudget policy.maxRestarts.toInt.toNat moves) ∧
      (∀ before after mid, moves = before ++ after → .cancel ∈ before →
        (start policy dumps trace).run before = some mid →
          s.attempt ≤ mid.attempt + 1 ∧ dials after ≤ 1 ∧ s.restarts = mid.restarts ∧
            s.crash = none ∧ s.cell.load ≠ .crashed ∧ (.publish ∉ after → s.cell = mid.cell)) ∧
      (∀ client, s.cell.load = .connected client →
        (start policy dumps trace).Greeted moves client) ∧
      s.handshake = (answers moves).getLast?.getD {} ∧
      (s.ready → (∃ client, s.cell.load = .connected client) ∨ s.cell.load = .crashed ∨
        .cancel ∈ moves) := by
  have hstart := start_fresh (κ := κ) hmax dumps trace
  have hcancelled := run_cancelled hrun
  rw [hstart.cancelled, Bool.false_eq_true, false_or] at hcancelled
  refine ⟨fun hnone => ?_, ?_, fun client hclient => ?_, run_handshake hrun, fun hready => ?_⟩
  · have hlive : s.cancelled = false := Bool.eq_false_iff.mpr fun hc => hnone (hcancelled.mp hc)
    exact (hstart.run_course hrun hlive).withinBudget
      (run_dials ⟨hstart.dialing, hstart.attempt⟩ hrun)
  · rintro before after mid rfl hcancel hmid
    have hc : mid.cancelled := (run_cancelled hmid).mpr (.inr hcancel)
    have hafter : mid.run after = some s := by
      rwa [run_append, hmid] at hrun
    have hwinds := run_windsDown hc hafter
    have halive : s.Alive := by
      refine (hstart.run_alive hrun).resolve_right fun hended => ?_
      cases hended.2.symm.trans (hcancelled.mpr (List.mem_append_left _ hcancel))
    exact ⟨hwinds.bounds.1, hwinds.bounds.2, hwinds.restarts, halive.crash, halive.cell,
      hwinds.cell⟩
  · exact hstart.run_greeted hrun (.inl (by rw [hclient]; rfl))
  · rcases hstart.run_ready hrun hready with hcell | hc
    · cases hload : s.cell.load with
      | pending => exact absurd hload hcell
      | connected client => exact .inl ⟨client, rfl⟩
      | crashed => exact .inr (.inl rfl)
    · exact .inr (.inr (hcancelled.mp hc))

/-- The server cannot be reached, does not answer, and is lost. -/
def threeLosses : List (SupervisorMove Nat) :=
  [.dialFailed "refused", .rested, .dialed 1, .unanswered (.undecodable []), .rested, .dialed 2,
    .answered { fingerprint := "f" }, .publish, .lost .closed]

/-- With two restarts this is a crash, unless a cancellation comes before the last loss. -/
theorem run_account_threeLosses :
    let first : Supervisor Nat := start ⟨2, 0, 0⟩ true {}
    let before := threeLosses.dropLast ++ [.cancel]
    (∃ s, first.run threeLosses = some s ∧ s.WithinBudget 2 threeLosses ∧ s.cell.load = .crashed) ∧
      ∃ s, first.run (before ++ [.lost .closed]) = some s ∧ s.crash = none ∧
        s.cell.load = .connected 2 ∧ first.Greeted (before ++ [.lost .closed]) 2 := by
  intro first before
  have hmax : 0 ≤ (⟨2, 0, 0⟩ : RestartPolicy).maxRestarts.toInt := by decide
  constructor
  · have hrun : (first.run threeLosses).isSome := by decide
    obtain ⟨s, hs⟩ := Option.isSome_iff_exists.mp hrun
    have hbudget := (run_account hmax hs).1 (by simp [threeLosses])
    exact ⟨s, hs, hbudget, hbudget.spent_iff.mp rfl⟩
  · have hmid : (first.run before).isSome := by decide
    obtain ⟨mid, hmid⟩ := Option.isSome_iff_exists.mp hmid
    have hrun : (first.run (before ++ [.lost .closed])).map (·.cell.load) =
        some (.connected 2) := by decide
    obtain ⟨s, hs, hcell⟩ := Option.map_eq_some_iff.mp hrun
    obtain ⟨-, hafter, hgreeted, -⟩ := run_account hmax hs
    have hcancel : .cancel ∈ before := List.mem_append_right _ List.mem_cons_self
    obtain ⟨-, -, -, hcrash, -⟩ := hafter before [.lost .closed] mid rfl hcancel hmid
    exact ⟨s, hs, hcrash, hcell, hgreeted 2 hcell⟩

end Supervisor

end MacroRelay
