import MacroRelay.Client.Exchange

/-!
# What becomes of a call

A move of a client turns at most one call, and `Call.Turn` has the turns there are. Two things
follow for every run of a client. A call that is made on a connection that is gone is refused.
A call that succeeds has heard a response with its number.
-/

namespace MacroRelay

/-- What a move can do to a call. `cause` says whether the connection is gone. -/
inductive Call.Turn (cause : Option Cause) (m : Move) (call : Call) : Call → Prop
  | noted {call' : Call} : call'.id = call.id → call'.stage = call.stage →
      call'.inbox = call.inbox → Turn cause m call call'
  | heard {r : Response} : m = .answer r → r.id = call.id →
      Turn cause m call { call with inbox := call.inbox ++ [r] }
  | opened : call.stage = .numbered → cause = none →
      Turn cause m call { call with stage := .opened }
  | admitted : call.stage = .opened → Turn cause m call { call with stage := .admitted }
  | registered : call.stage = .admitted → Turn cause m call { call with stage := .registered }
  | handed : call.stage = .registered → Turn cause m call { call with stage := .handed }
  | written : call.stage = .handed → Turn cause m call { call with stage := .written }
  | failed (fault : CallError) : Turn cause m call { call with stage := .returned (.error fault) }
  | answered {r : Response} {rest : List Response} :
      call.stage = .written → call.inbox = r :: rest →
      Turn cause m call
        { call with inbox := rest, stage := .returned (Client.outcomeOf call.method r) }

theorem Call.Turn.id_eq {cause : Option Cause} {m : Move} {call call' : Call}
    (h : call.Turn cause m call') : call'.id = call.id := by
  cases h <;> first | rfl | assumption

namespace Client

variable {c c' : Client} {m : Move}

/-- What any move does: a connection that is gone stays so, and every call is new or turned from
what it was. -/
structure Stepped (m : Move) (c c' : Client) : Prop where
  cause : ∀ cause, c.cause = some cause → c'.cause = some cause
  call : ∀ id call', c'.call? id = some call' →
    (∃ method, m = .start method ∧ call' = { id, method }) ∨
      ∃ call, c.call? id = some call ∧ call.Turn c.cause m call'

theorem call?_id {id : UInt64} {call : Call} (h : c.call? id = some call) : call.id = id := by
  have hid := List.find?_some h
  simpa using hid

theorem call?_update (c : Client) (call : Call) (id : UInt64) :
    (c.update call).call? id =
      if id = call.id then (c.call? id).map fun _ => call else c.call? id := by
  simp only [call?, update]
  induction c.calls with
  | nil => simp
  | cons other rest ih =>
    by_cases hother : other.id = call.id
    · by_cases hid : id = call.id
      · simp [hother, hid]
      · have hne : (call.id == id) = false := by simpa using fun h => hid h.symm
        simpa [hother, List.find?_cons, hne, hid] using ih
    · by_cases hid : other.id = id
      · simp [hid ▸ hother, hid]
      · simpa [hother, List.find?_cons, hid] using ih

theorem Stepped.of_calls (hcalls : c'.calls = c.calls)
    (hcause : ∀ cause, c.cause = some cause → c'.cause = some cause) : Stepped m c c' := by
  refine ⟨hcause, fun id call' h => .inr ⟨call', ?_, .noted rfl rfl rfl⟩⟩
  rwa [call?, hcalls] at h

theorem Stepped.of_turn {id : UInt64} {call turned : Call} (hcall : c.call? id = some call)
    (ht : call.Turn c.cause m turned) (hcalls : c'.calls = (c.update turned).calls)
    (hcause : ∀ cause, c.cause = some cause → c'.cause = some cause) : Stepped m c c' := by
  refine ⟨hcause, fun id' call' h => .inr ?_⟩
  rw [call?, hcalls, ← call?, call?_update] at h
  split at h
  · rename_i hid
    have hsame : id' = id := by rw [hid, ht.id_eq, call?_id hcall]
    rw [hsame, hcall] at h
    cases h
    exact ⟨call, hsame ▸ hcall, ht⟩
  · exact ⟨call', h, .noted rfl rfl rfl⟩

theorem fail_cause (c : Client) (next : Cause) :
    ∀ cause, c.cause = some cause → (c.fail next).cause = some cause := by
  intro cause h
  simp [fail, h]

theorem step_spec (h : c.step m = some c') : Stepped m c c' := by
  cases m with
  | start method =>
    cases h
    refine ⟨fun _ h => h, fun id call' hc => ?_⟩
    rcases List.find?_cons_eq_some.mp hc with ⟨hid, rfl⟩ | ⟨-, hc⟩
    · exact .inl ⟨method, rfl, by rw [← eq_of_beq hid]⟩
    · exact .inr ⟨call', hc, .noted rfl rfl rfl⟩
  | checkOpen id =>
    obtain ⟨call, hcall, h⟩ := Option.bind_eq_some_iff.mp h
    split at h
    · cases h
      exact .of_turn hcall (.failed _) rfl fun _ h => h
    · rename_i hstage hcause
      cases h
      exact .of_turn hcall (.opened hstage hcause) rfl fun _ h => h
    · cases h
  | checkTime id =>
    obtain ⟨call, hcall, h⟩ := Option.bind_eq_some_iff.mp h
    split at h
    · cases h
      exact .of_turn hcall (.failed _) rfl fun _ h => h
    · rename_i hstage _
      cases h
      exact .of_turn hcall (.admitted hstage) rfl fun _ h => h
    · cases h
  | register id =>
    obtain ⟨call, hcall, h⟩ := Option.bind_eq_some_iff.mp h
    split at h
    · rename_i hstage
      cases h
      exact .of_turn hcall (.registered hstage) rfl fun _ h => h
    · cases h
  | handOver id =>
    obtain ⟨call, hcall, h⟩ := Option.bind_eq_some_iff.mp h
    split at h
    · rename_i hstage _ _
      cases h
      exact .of_turn hcall (.handed hstage) rfl fun _ h => h
    · cases h
  | wrote well =>
    obtain ⟨call, hcall, h⟩ := Option.bind_eq_some_iff.mp h
    obtain ⟨id, -, hcall⟩ := Option.bind_eq_some_iff.mp hcall
    cases h
    have ht : call.Turn c.cause (.wrote well) { call with report := some well } :=
      .noted rfl rfl rfl
    cases well
    · exact .of_turn hcall ht rfl (fail_cause c .unwritable)
    · exact .of_turn hcall ht rfl fun _ h => h
  | noticeWritten id =>
    obtain ⟨call, hcall, h⟩ := Option.bind_eq_some_iff.mp h
    split at h
    · rename_i hstage _
      cases h
      exact .of_turn hcall (.written hstage) rfl fun _ h => h
    · cases h
      exact .of_turn hcall (.failed _) rfl fun _ h => h
    · cases h
  | noticeClosed id =>
    obtain ⟨call, hcall, h⟩ := Option.bind_eq_some_iff.mp h
    split at h <;> cases h <;> exact .of_turn hcall (.failed _) rfl fun _ h => h
  | noticeExpiry id =>
    obtain ⟨call, hcall, h⟩ := Option.bind_eq_some_iff.mp h
    split at h
    · cases h
      exact .of_turn hcall (.failed _) rfl fun _ h => h
    · cases h
      exact .of_turn hcall (.failed _) rfl fun _ h => h
    · split at h <;> cases h
      · exact .of_turn hcall (.failed _) rfl fun _ h => h
      · exact .of_turn hcall (.failed _) rfl fun _ h => h
      · exact .of_turn hcall (.failed _) rfl (fail_cause c _)
    · cases h
  | takeAnswer id =>
    obtain ⟨call, hcall, h⟩ := Option.bind_eq_some_iff.mp h
    split at h
    · rename_i hstage hinbox
      cases h
      exact .of_turn hcall (.answered hstage hinbox) rfl fun _ h => h
    · cases h
  | answer r =>
    simp only [step] at h
    split at h
    · rename_i call hcall
      split at h <;> cases h
      · exact .of_turn hcall (.heard rfl (call?_id hcall).symm) rfl fun _ h => h
      · exact .of_calls rfl fun _ h => h
    · cases h
      exact .of_calls rfl fun _ h => h
  | loseReader fault =>
    cases h
    exact .of_calls rfl (fail_cause c _)
  | close =>
    cases h
    exact .of_calls rfl (fail_cause c _)
  | expire id why =>
    obtain ⟨call, hcall, h⟩ := Option.bind_eq_some_iff.mp h
    cases h
    have ht : call.Turn c.cause (.expire id why)
        { call with expiry := call.expiry.or (some why) } := .noted rfl rfl rfl
    exact .of_turn hcall ht rfl fun _ h => h

-- ---------------------------------------------------------------------------
-- A connection that is gone
-- ---------------------------------------------------------------------------

/-- The connection is gone and a call with the number cannot succeed any more. -/
def Refuses (c : Client) (id : UInt64) : Prop :=
  c.cause ≠ none ∧ ∀ call, c.call? id = some call →
    call.stage = .numbered ∨ ∃ fault, call.stage = .returned (.error fault)

theorem Stepped.gone (h : Stepped m c c') (hgone : c.cause ≠ none) : c'.cause ≠ none := by
  obtain ⟨cause, hcause⟩ := Option.ne_none_iff_exists'.mp hgone
  rw [h.cause cause hcause]
  exact Option.some_ne_none _

theorem Refuses.step {id : UInt64} (h : c.Refuses id) (hs : c.step m = some c') :
    c'.Refuses id := by
  obtain ⟨hgone, hcalls⟩ := h
  have hstep := step_spec hs
  refine ⟨hstep.gone hgone, fun call' hcall' => ?_⟩
  rcases hstep.call id call' hcall' with ⟨method, -, rfl⟩ | ⟨call, hcall, ht⟩
  · exact .inl rfl
  · have hstage := hcalls call hcall
    cases ht with
    | noted _ hs _ => rwa [hs]
    | heard _ _ => exact hstage
    | opened _ hopen => exact absurd hopen hgone
    | failed fault => exact .inr ⟨fault, rfl⟩
    | admitted hs | registered hs | handed hs | written hs => simp [hs] at hstage
    | answered hs _ => simp [hs] at hstage

theorem refuses_start {method : Text} (hgone : c.cause ≠ none)
    (hs : c.step (.start method) = some c') : c'.Refuses (c.lastId + 1) := by
  cases hs
  refine ⟨hgone, fun call hcall => .inl ?_⟩
  rcases List.find?_cons_eq_some.mp hcall with ⟨-, rfl⟩ | ⟨hne, -⟩
  · rfl
  · simp at hne

theorem outcome?_eq_some {id : UInt64} {outcome : Outcome} (h : c.outcome? id = some outcome) :
    ∃ call, c.call? id = some call ∧ call.stage = .returned outcome := by
  obtain ⟨call, hcall, h⟩ := Option.bind_eq_some_iff.mp h
  split at h
  · rename_i hstage
    cases h
    exact ⟨call, hcall, hstage⟩
  · cases h

theorem Refuses.outcome {id : UInt64} {raw : Option Text} (h : c.Refuses id) :
    c.outcome? id ≠ some (.ok raw) := by
  intro ho
  obtain ⟨call, hcall, hstage⟩ := outcome?_eq_some ho
  rcases h.2 call hcall with hs | ⟨fault, hs⟩ <;> cases hstage.symm.trans hs

-- ---------------------------------------------------------------------------
-- What calls have heard
-- ---------------------------------------------------------------------------

def heardAfter (heard : List Response) : Move → List Response
  | .answer r => r :: heard
  | _ => heard

/-- Every call has its responses from what was heard, and so does every outcome. -/
def Honest (c : Client) (heard : List Response) : Prop :=
  ∀ id call, c.call? id = some call → (∀ r ∈ call.inbox, r ∈ heard ∧ r.id = id) ∧
    ∀ raw, call.stage = .returned (.ok raw) → ∃ r ∈ heard, r.id = id ∧ r.error = [] ∧ r.result = raw

theorem heardAfter_subset (heard : List Response) (m : Move) : heard ⊆ heardAfter heard m := by
  cases m <;> simp [heardAfter]

theorem outcomeOf_ok {method : Text} {r : Response} {raw : Option Text}
    (h : outcomeOf method r = .ok raw) : r.error = [] ∧ r.result = raw := by
  unfold outcomeOf at h
  split at h
  · cases h
  · rename_i herror
    cases h
    exact ⟨Decidable.not_not.mp herror, rfl⟩

theorem Honest.step {heard : List Response} (h : c.Honest heard) (hs : c.step m = some c') :
    c'.Honest (heardAfter heard m) := by
  intro id call' hcall'
  rcases (step_spec hs).call id call' hcall' with ⟨method, -, rfl⟩ | ⟨call, hcall, ht⟩
  · exact ⟨nofun, nofun⟩
  · obtain ⟨hinbox, hreturned⟩ := h id call hcall
    have hmore := heardAfter_subset heard m
    have hinbox' : ∀ r ∈ call.inbox, r ∈ heardAfter heard m ∧ r.id = id :=
      fun r hr => ⟨hmore (hinbox r hr).1, (hinbox r hr).2⟩
    have hreturned' : ∀ raw, call.stage = .returned (.ok raw) →
        ∃ r ∈ heardAfter heard m, r.id = id ∧ r.error = [] ∧ r.result = raw := fun raw hraw =>
      have ⟨r, hr, hresponse⟩ := hreturned raw hraw
      ⟨r, hmore hr, hresponse⟩
    cases ht with
    | noted _ hs hi => exact ⟨hi ▸ hinbox', hs ▸ hreturned'⟩
    | heard hm hid =>
      refine ⟨fun r hr => ?_, hreturned'⟩
      rcases List.mem_append.mp hr with hr | hr
      · exact hinbox' r hr
      · rw [List.mem_singleton.mp hr, hm, hid]
        exact ⟨List.mem_cons_self, call?_id hcall⟩
    | opened _ _ | admitted _ | registered _ | handed _ | written _ | failed _ =>
      exact ⟨hinbox', fun raw hraw => nomatch hraw⟩
    | answered _ hi =>
      rw [hi] at hinbox'
      obtain ⟨hr, hrest⟩ := List.forall_mem_cons.mp hinbox'
      exact ⟨hrest, fun raw hraw => ⟨_, hr.1, hr.2, outcomeOf_ok (CallStage.returned.inj hraw)⟩⟩

theorem Honest.outcome {heard : List Response} {id : UInt64} {raw : Option Text}
    (h : c.Honest heard) (ho : c.outcome? id = some (.ok raw)) :
    ∃ r ∈ heard, r.id = id ∧ r.error = [] ∧ r.result = raw := by
  obtain ⟨call, hcall, hstage⟩ := outcome?_eq_some ho
  exact (h id call hcall).2 raw hstage

end Client

end MacroRelay
