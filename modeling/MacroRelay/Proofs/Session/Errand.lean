import MacroRelay.Proofs.Expansion.Request
import MacroRelay.Session.Basic

/-!
# Requests in steps

`Workspace.expand` answers a request at one go. An errand answers it in steps, each of which looks
at one thing that is shared with others: the status, the fingerprint, the memo, the disk, the
connection. Between its steps anything may happen. Errands for one digest share a flight, and only
the first of them looks on disk and asks the server.

An errand that nobody disturbs does what `Workspace.expand` does.
-/

namespace MacroRelay

/-- How calls are made in two steps: a request goes out, and a ticket is kept for the outcome. -/
structure Line (σ κ τ : Type) where
  send : σ → κ → Text → Text → σ × τ
  outcome? : σ → κ → τ → Option Outcome

/-- The outcome of every call is there at once. -/
def Line.ofCaller {σ κ : Type} (call : Caller σ κ) : Line σ κ Outcome where
  send := call
  outcome? _ _ outcome := some outcome

structure Flight where
  digest : Digest
  landed : Option (Except CallError Gen2.Result) := none

inductive ErrandStage (κ τ : Type) where
  | begun
  /-- It has a client, and keeps to it whatever becomes of the status. -/
  | connected (client : κ)
  | keyed (client : κ) (fingerprint : Text)
  | missed (client : κ) (fingerprint : Text)
  | leading (flight : Nat) (client : κ) (fingerprint : Text)
  | searching (flight : Nat) (client : κ) (fingerprint : Text)
  | asking (flight : Nat) (client : κ) (fingerprint : Text)
  | waiting (flight : Nat) (client : κ) (fingerprint : Text) (ticket : τ)
  | answered (flight : Nat) (fingerprint : Text) (r : Gen2.Result)
  /-- The answer is in the memo and not on disk. -/
  | remembered (flight : Nat) (fingerprint : Text) (r : Gen2.Result)
  /-- The answer is on disk and not in the memo. -/
  | found (flight : Nat) (fingerprint : Text) (r : Gen2.Result)
  | aboard (flight : Nat)
  | returned (answer : Option Gen2.Result)

structure Errand (κ τ : Type) where
  generation : Generation
  expansion : Expansion
  work : Trace.Activity
  stage : ErrandStage κ τ := .begun

structure Hall (σ κ : Type) where
  workspace : Workspace σ κ
  flights : List Flight := []

namespace Hall

variable {σ κ : Type}

def flight? (h : Hall σ κ) (d : Digest) : Option Nat :=
  h.flights.findIdx? fun f => f.landed.isNone && f.digest = d

def land (h : Hall σ κ) (flight : Nat) (answer : Except CallError Gen2.Result) : Hall σ κ :=
  { h with flights := h.flights.modify flight fun f => { f with landed := some answer } }

end Hall

namespace Errand

variable {σ κ τ : Type}

def query (e : Errand κ τ) (fingerprint : Text) : Query :=
  ⟨e.generation, e.expansion, fingerprint⟩

def arrive (e : Errand κ τ) (stage : ErrandStage κ τ) : Errand κ τ :=
  { e with stage }

def start (h : Hall σ κ) (g : Generation) (x : Expansion) : Hall σ κ × Errand κ τ :=
  let (trace, work) := h.workspace.trace.start Trace.Scope.request ("expand:" ++ x.shape.name) 0
  let (trace, work) := trace.attach work "protocol" g.name
  ({ h with workspace := { h.workspace with trace } }, ⟨g, x, work, .begun⟩)

def conclude (e : Errand κ τ) (w : Workspace σ κ) :
    Except CallError Gen2.Result → Workspace σ κ × Option Gen2.Result
  | .ok r => (w.finish e.work "ok", some r)
  | .error fault =>
    ((w.degrade.failed ("expand:" ++ e.expansion.shape.name) fault.message).finish e.work
      "degraded: call failed", none)

def step (line : Line σ κ τ) (h : Hall σ κ) (e : Errand κ τ) : Option (Hall σ κ × Errand κ τ) :=
  let w := h.workspace
  match e.stage with
  | .begun =>
    match w.cell.load.client? with
    | none =>
      some ({ h with workspace := w.degrade.finish e.work ("degraded: " ++ w.cell.load.name) },
        e.arrive (.returned none))
    | some client => some (h, e.arrive (.connected client))
  | .connected client => some (h, e.arrive (.keyed client w.fingerprint))
  | .keyed client f =>
    match w.session.lookUp (e.query f).digest with
    | (session, some r) =>
      let w := { w with session }.count fun s => { s with memoHits := s.memoHits + 1 }
      some ({ h with workspace := w.finish e.work "memo" }, e.arrive (.returned (some r)))
    | (_, none) => some (h, e.arrive (.missed client f))
  | .missed client f =>
    match h.flight? (e.query f).digest with
    | some flight => some (h, e.arrive (.aboard flight))
    | none =>
      some ({ h with flights := h.flights ++ [⟨(e.query f).digest, none⟩] },
        e.arrive (.leading h.flights.length client f))
  | .leading flight client f =>
    match w.session.lookUp (e.query f).digest with
    | (session, some r) =>
      some ({ h with workspace := { w with session } }.land flight (.ok r),
        e.arrive (.aboard flight))
    | (_, none) => some (h, e.arrive (.searching flight client f))
  | .searching flight client f =>
    match w.fetch (e.query f).digest with
    | (w, some r) =>
      let w := w.count fun s => { s with diskHits := s.diskHits + 1 }
      some ({ h with workspace := w }, e.arrive (.found flight f r))
    | (w, none) => some ({ h with workspace := w }, e.arrive (.asking flight client f))
  | .asking flight client f =>
    let w := w.count fun s => { s with calls := s.calls + 1 }
    let (remote, ticket) := line.send w.remote client (e.expansion.method e.generation).name
      (e.expansion.params e.generation)
    some ({ h with workspace := { w with remote } }, e.arrive (.waiting flight client f ticket))
  | .waiting flight client f ticket =>
    match line.outcome? w.remote client ticket with
    | none => none
    | some (.error fault) => some (h.land flight (.error fault), e.arrive (.aboard flight))
    | some (.ok raw) =>
      match Expansion.answer? e.generation raw with
      | some r => some (h, e.arrive (.answered flight f r))
      | none =>
        some (h.land flight (.error (.undecodable (e.expansion.method e.generation).name)),
          e.arrive (.aboard flight))
  | .answered flight f r =>
    some ({ h with workspace := { w with session := w.session.remember (e.query f).digest r } },
      e.arrive (.remembered flight f r))
  | .remembered flight f r =>
    some ({ h with workspace := w.store (e.query f).digest r }.land flight (.ok r),
      e.arrive (.aboard flight))
  | .found flight f r =>
    some (
      { h with workspace := { w with session := w.session.remember (e.query f).digest r } }.land
        flight (.ok r),
      e.arrive (.aboard flight))
  | .aboard flight =>
    match h.flights[flight]?.bind (·.landed) with
    | none => none
    | some answer =>
      let (w, answer) := e.conclude w answer
      some ({ h with workspace := w }, e.arrive (.returned answer))
  | .returned _ => none

inductive Walks (line : Line σ κ τ) : Hall σ κ × Errand κ τ → Hall σ κ × Errand κ τ → Prop
  | refl (s : Hall σ κ × Errand κ τ) : Walks line s s
  | step {h : Hall σ κ} {e : Errand κ τ} {s s' : Hall σ κ × Errand κ τ} : e.step line h = some s →
      Walks line s s' → Walks line (h, e) s'

-- ---------------------------------------------------------------------------
-- An errand alone
-- ---------------------------------------------------------------------------

theorem walks_landed (line : Line σ κ τ) (w : Workspace σ κ) (flights : List Flight) (d : Digest)
    (answer : Except CallError Gen2.Result) (e : Errand κ τ) :
    ∃ flights', Walks line
      (Hall.land ⟨w, flights ++ [⟨d, none⟩]⟩ flights.length answer,
        e.arrive (.aboard flights.length))
      (⟨(e.conclude w answer).1, flights'⟩, e.arrive (.returned (e.conclude w answer).2)) := by
  let h : Hall σ κ := ⟨w, flights ++ [⟨d, none⟩]⟩
  have hlanded :
      (h.land flights.length answer).flights[flights.length]?.bind (·.landed) = some answer := by
    simp [h, Hall.land]
  refine ⟨(h.land flights.length answer).flights, .step ?_ (.refl _)⟩
  simp only [step, arrive]
  rw [hlanded]
  rfl

theorem walks_leading (call : Caller σ κ) (w : Workspace σ κ) (flights : List Flight) (client : κ)
    (f : Text) (e : Errand κ Outcome) {w' : Workspace σ κ} {answer : Except CallError Gen2.Result}
    (h : w.flight call client (e.query f).digest e.generation e.expansion = (w', answer)) :
    ∃ flights', Walks (.ofCaller call)
      (⟨w, flights ++ [⟨(e.query f).digest, none⟩]⟩, e.arrive (.leading flights.length client f))
      (⟨(e.conclude w' answer).1, flights'⟩, e.arrive (.returned (e.conclude w' answer).2)) := by
  obtain ⟨flights', hw⟩ := walks_landed (.ofCaller call) w' flights (e.query f).digest answer e
  refine ⟨flights', ?_⟩
  unfold Workspace.flight at h
  split at h
  · rename_i session r hl
    cases h
    apply Walks.step
    · simp only [step, arrive, query] at hl ⊢
      rw [hl]
    exact hw
  · rename_i hl
    apply Walks.step
    · simp only [step, arrive, query] at hl ⊢
      rw [hl]
    split at h
    · -- found on disk
      rename_i w1 r hf
      cases h
      apply Walks.step
      · simp only [step, arrive, query] at hf ⊢
        rw [hf]
      apply Walks.step
      · simp only [step, arrive]
        rfl
      exact hw
    · -- the server is asked
      rename_i w1 hf
      apply Walks.step
      · simp only [step, arrive, query] at hf ⊢
        rw [hf]
      apply Walks.step
      · simp only [step, arrive]
        rfl
      simp only [Workspace.request, Line.ofCaller] at h ⊢
      generalize call _ client _ _ = out at h ⊢
      obtain ⟨remote, outcome⟩ := out
      cases outcome with
      | error fault =>
        cases h
        exact .step rfl hw
      | ok raw =>
        cases ha : Expansion.answer? e.generation raw with
        | none =>
          simp only [ha] at h
          cases h
          apply Walks.step
          · simp only [step, arrive, ha]
            rfl
          exact hw
        | some r =>
          simp only [ha] at h
          cases h
          apply Walks.step
          · simp only [step, arrive, ha]
            rfl
          exact .step rfl (.step rfl hw)

/-- An errand that nobody disturbs gets the answer of `Workspace.expand` and leaves the workspace
as that does. -/
theorem walks_start (call : Caller σ κ) (h : Hall σ κ) (g : Generation) (x : Expansion)
    (hfree : h.flight? (h.workspace.digest g x) = none) :
    ∃ flights, Walks (.ofCaller call) (start h g x)
      (⟨(h.workspace.expand call g x).1, flights⟩,
        (start h g x).2.arrive (.returned (h.workspace.expand call g x).2)) := by
  simp only [Workspace.expand, start]
  generalize Trace.Recorder.attach _ _ _ _ = started
  obtain ⟨trace, work⟩ := started
  let e : Errand κ Outcome := ⟨g, x, work, .begun⟩
  split
  · rename_i hclient
    refine ⟨h.flights, .step ?_ (.refl _)⟩
    simp only [step]
    rw [hclient]
  · rename_i client hclient
    split
    · rename_i session r hl
      refine ⟨h.flights, ?_⟩
      apply Walks.step
      · simp only [step]
        rw [hclient]
      apply Walks.step rfl
      refine .step ?_ (.refl _)
      simp only [step, arrive, query, Query.digest, Workspace.digest] at hl ⊢
      rw [hl]
    · rename_i hl
      generalize hflight : Workspace.flight call _ client _ g x = out
      obtain ⟨w', answer⟩ := out
      obtain ⟨flights, hw⟩ :=
        walks_leading call _ h.flights client h.workspace.fingerprint e hflight
      refine ⟨flights, ?_⟩
      apply Walks.step
      · simp only [step]
        rw [hclient]
      apply Walks.step rfl
      apply Walks.step
      · simp only [step, arrive, query, Query.digest, Workspace.digest] at hl ⊢
        rw [hl]
      apply Walks.step
      · have hfree' : Hall.flight? { h with workspace := { h.workspace with trace } }
            (e.query h.workspace.fingerprint).digest = none := hfree
        simp only [step, arrive, query, e] at hfree' ⊢
        rw [hfree']
      cases answer <;> exact hw

end Errand

end MacroRelay
