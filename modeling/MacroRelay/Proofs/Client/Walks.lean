import MacroRelay.Proofs.Client.Calls
import MacroRelay.Proofs.Client.Routing

/-!
# A move of a client is a walk

A client brings a call to its outcome in one move, and takes the connection down with it if need be.
Each such move is a walk of single steps. So every run of a client whose reader falls silent when it
has failed is a run in which every step stands alone, and what holds of those holds of a client.
-/

namespace MacroRelay

namespace Client

/-- At every point of the run there is a number for one more call, and nothing more is heard once
the connection is gone. -/
def Orderly (c : Client) (moves : List Move) : Prop :=
  ∀ before m after, moves = before ++ m :: after → (c.perform before).calls.length < 2 ^ 64 ∧
    ∀ r, m = .answer r → (c.perform before).cause = none

theorem perform_cons (c : Client) (m : Move) (moves : List Move) :
    c.perform (m :: moves) = ((c.step m).getD c).perform moves := rfl

theorem Orderly.tail {c : Client} {m : Move} {moves : List Move} (ho : c.Orderly (m :: moves)) :
    ((c.step m).getD c).Orderly moves := by
  rintro before m' after rfl
  exact ho (m :: before) m' after rfl

end Client

namespace Hub

variable {h h' mid : Hub} {m : Move} {k : Nat} {c d : Call} {id : UInt64} {incoming : Text}

-- ---------------------------------------------------------------------------
-- What a client sees
-- ---------------------------------------------------------------------------

def Stage.seen : Stage → CallStage
  | .numbered | .refused => .numbered
  | .opened => .opened
  | .admitted => .admitted
  | .registered => .registered
  | .handed | .weary _ | .stalling _ => .handed
  | .written | .rejected => .written
  | .leaving outcome | .returned outcome => .returned outcome

def Stage.of : CallStage → Stage
  | .numbered => .numbered
  | .opened => .opened
  | .admitted => .admitted
  | .registered => .registered
  | .handed => .handed
  | .written => .written
  | .returned outcome => .returned outcome

def Call.seen (c : Call) : MacroRelay.Call where
  id := c.id
  method := c.method
  stage := c.stage.seen
  expiry := c.expiry
  report := c.report
  inbox := c.inbox

def writerId (h : Hub) : Option UInt64 :=
  match h.writer with
  | .writing k => h.calls[k]?.map (·.id)
  | _ => none

def client (h : Hub) (incoming : Text) : Client where
  lastId := h.lastId
  pending := h.pending.map (·.1)
  calls := (h.calls.map Call.seen).reverse
  writer := h.writerId
  cause := h.err
  incoming := incoming

/-- The call is between moves. A client leaves results for its callers to decode. -/
structure Call.IsSettled (c : Call) : Prop where
  stage : Stage.of c.stage.seen = c.stage
  reads : c.reads = fun _ => true

def Reader.IsSettled (reader : Reader) (err : Option Cause) : Prop :=
  reader = .reading ∨ (reader = .ended ∧ err ≠ none)

def Writer.IsSettled (writer : Writer) (calls : Nat) (err : Option Cause) : Prop :=
  writer = .idle ∨ (∃ k, writer = .writing k ∧ k < calls) ∨ (writer = .ended ∧ err ≠ none)

structure Settled (h : Hub) : Prop where
  routed : Routed h
  call : ∀ (k : Nat) (c : Call), h.calls[k]? = some c → c.IsSettled
  gone : h.gone = h.err.isSome
  reader : h.reader.IsSettled h.err
  writer : h.writer.IsSettled h.calls.length h.err

theorem Call.IsSettled.stage_eq {s : CallStage} (hc : c.IsSettled) (hs : c.seen.stage = s) :
    c.stage = .of s := by
  rw [← hc.stage]
  exact congrArg _ hs

theorem Call.IsSettled.outcomeOf (hc : c.IsSettled) (r : Response) :
    c.outcomeOf r = Client.outcomeOf c.method r := by
  unfold Call.outcomeOf Client.outcomeOf
  rw [hc.reads]
  cases r.result <;> simp

theorem client_call (hcall : (h.client incoming).call? id = some call) :
    ∃ (k : Nat) (c : Call), h.calls[k]? = some c ∧ c.id = id ∧ c.seen = call := by
  have hmem := List.mem_of_find?_eq_some hcall
  obtain ⟨c, hc, rfl⟩ := List.mem_map.mp (List.mem_reverse.mp hmem)
  obtain ⟨k, hk⟩ := List.mem_iff_getElem?.mp hc
  exact ⟨k, c, hk, Client.call?_id hcall, rfl⟩

namespace Routed

variable (hr : Routed h) (hlen : h.calls.length < 2 ^ 64) (hc : h.calls[k]? = some c)
include hr hlen hc

theorem client_call? : (h.client incoming).call? c.id = some c.seen := by
  rcases Option.eq_none_or_eq_some ((h.client incoming).call? c.id) with hn | ⟨call, hcall⟩
  · have hmem : c.seen ∈ (h.client incoming).calls :=
      List.mem_reverse.mpr (List.mem_map_of_mem (List.mem_of_getElem? hc))
    have hne := List.find?_eq_none.mp hn _ hmem
    exact absurd (beq_self_eq_true c.id) hne
  · obtain ⟨j, d, hd, hid, rfl⟩ := client_call hcall
    obtain rfl := hr.distinct hlen hc hd hid.symm
    obtain rfl : c = d := Option.some.inj (hc.symm.trans hd)
    exact hcall

theorem client_put (incoming : Text) (hid : d.id = c.id) :
    (h.put k d).client incoming = (h.client incoming).update d.seen := by
  have hcalls : (h.calls.set k d).map Call.seen =
      (h.calls.map Call.seen).map fun other => if other.id = d.seen.id then d.seen else other := by
    refine List.ext_getElem? fun j => ?_
    rw [List.getElem?_map, List.getElem?_map, List.getElem?_map]
    rcases Nat.decEq k j with hkj | rfl
    · have hother : ∀ e : Call, h.calls[j]? = some e → e.id ≠ d.id := fun e he h =>
        hkj (hr.distinct hlen hc he (hid.symm.trans h.symm))
      rw [List.getElem?_set_ne hkj]
      rcases Option.eq_none_or_eq_some h.calls[j]? with hn | ⟨e, he⟩
      · simp [hn]
      · simp [he, Call.seen, hother e he]
    · rw [getElem?_set_of_some hc, hc]
      simp [Call.seen, hid]
  have hwriter : (h.put k d).writerId = h.writerId := by
    unfold writerId put
    cases h.writer with
    | writing j =>
      rcases Nat.decEq k j with hkj | rfl
      · simp [List.getElem?_set_ne hkj]
      · simp [hc, getElem?_set_of_some hc, hid]
    | _ => rfl
  unfold client Client.update
  rw [hwriter, put_calls, hcalls, ← List.map_reverse]
  rfl

theorem unlist_eq (hphase : c.stage.phase ≠ .listed) : h.unlist c.id = h := by
  have hkept : h.pending.filter (·.1 != c.id) = h.pending := by
    refine List.filter_eq_self.mpr fun e he => bne_iff_ne.mpr fun hid => ?_
    exact hr.not_pending hlen hc hphase (List.mem_map.mpr ⟨e, he, hid⟩)
  unfold unlist
  rw [hkept]

end Routed

theorem client_unlist (h : Hub) (id : UInt64) (incoming : Text) : (h.unlist id).client incoming =
    { h.client incoming with pending := (h.client incoming).pending.filter (· != id) } := by
  simp [client, unlist, writerId, List.filter_map, Function.comp_def]

-- ---------------------------------------------------------------------------
-- Walks
-- ---------------------------------------------------------------------------

def Reaches (h h' : Hub) : Prop :=
  ∃ moves, h.run moves = some h'

theorem Reaches.refl (h : Hub) : h.Reaches h :=
  ⟨[], rfl⟩

theorem Reaches.step (hr : h.Reaches mid) (hs : mid.step m = some h') : h.Reaches h' := by
  obtain ⟨moves, hrun⟩ := hr
  exact ⟨moves ++ [m], by rw [run_concat, hrun]; exact hs⟩

theorem Reaches.trans (hr : h.Reaches mid) (hr' : mid.Reaches h') : h.Reaches h' := by
  obtain ⟨moves, hrun⟩ := hr'
  exact run_keeps (P := h.Reaches) (fun hs hr => hr.step hs) hrun hr

theorem Reaches.routed (hr : h.Reaches h') (hh : Routed h) : Routed h' := by
  obtain ⟨moves, hrun⟩ := hr
  exact run_keeps (fun hs hr => hr.step hs) hrun hh

theorem put_self (hc : h.calls[k]? = some c) : h.put k c = h := by
  obtain ⟨hk, rfl⟩ := List.getElem?_eq_some_iff.mp hc
  simp [put]

theorem put_put (h : Hub) (k : Nat) (c d : Call) : (h.put k c).put k d = h.put k d := by
  simp [put]

theorem Reaches.turn {a : Act} {s : Stage} (hr : h.Reaches (mid.put k d))
    (hc : mid.calls[k]? = some c) (hn : d.next mid.err mid.gone a = some s)
    (ha : ∀ g e, affect g k e a = some g) : h.Reaches (mid.put k (d.goTo s a)) := by
  have hstep := step_act (h := mid.put k d) (getElem?_set_of_some hc d) hn
  rw [ha, put_put] at hstep
  exact hr.step hstep

theorem Reaches.rejected (hr : h.Reaches (mid.put k d)) (hc : mid.calls[k]? = some c)
    (hs : d.stage = .rejected) :
    h.Reaches (mid.put k { d with stage := .leaving (d.closed mid.err) }) :=
  hr.turn (a := .readCause) hc (by simp [Call.next, hs]) fun _ _ => rfl

theorem Reaches.leaving {outcome : Outcome} (hr : h.Reaches (mid.put k d))
    (hc : mid.calls[k]? = some c) (hs : d.stage = .leaving outcome) :
    h.Reaches ((mid.put k { d with stage := .returned outcome }).unlist d.id) := by
  have hn : d.next mid.err mid.gone .leave = some (.returned outcome) := by simp [Call.next, hs]
  have hstep := step_act (h := mid.put k d) (getElem?_set_of_some hc d) hn
  rw [put_put] at hstep
  exact hr.step hstep

def down (h : Hub) (cause : Cause) : Hub :=
  { h with err := h.err.or (some cause), gone := true }

theorem down_eq {first : Cause} (he : h.err = some first) (hgone : h.gone = h.err.isSome)
    (cause : Cause) : h.down cause = h := by
  obtain ⟨_, _, _, _, _, _, _⟩ := h
  cases he
  cases hgone
  rfl

theorem down_err (h : Hub) (cause : Cause) :
    (h.down cause).gone = (h.down cause).err.isSome ∧ (h.down cause).err ≠ none := by
  unfold down
  cases h.err <;> simp

theorem Reader.IsSettled.down {reader : Reader} (hr : reader.IsSettled h.err) (cause : Cause) :
    reader.IsSettled (h.down cause).err :=
  hr.imp_right fun hr => ⟨hr.1, (h.down_err cause).2⟩

theorem Writer.IsSettled.down {writer : Writer} {calls : Nat} (hw : writer.IsSettled calls h.err)
    (cause : Cause) : writer.IsSettled calls (h.down cause).err :=
  hw.imp_right fun hw => hw.imp_right fun hw => ⟨hw.1, (h.down_err cause).2⟩

theorem Reaches.falls {p : Party} {cause : Cause} (hr : h.Reaches mid)
    (hgone : mid.gone = mid.err.isSome) (hp : mid.charge? p = some cause) :
    h.Reaches (mid.down cause) := by
  rcases Option.eq_none_or_eq_some mid.err with he | ⟨first, he⟩
  · have hblame : mid.step (.blame p) = some { mid with err := some cause } := by
      simp [Hub.step, hp, he]
    have hshut : ({ mid with err := some cause } : Hub).step .shut = some (mid.down cause) := by
      simp [Hub.step, down, hgone, he]
    exact (hr.step hblame).step hshut
  · rw [down_eq he hgone]
    exact hr

/-- A walk leads from here to where everybody is between moves, as the client is then. -/
def Walks (h : Hub) (c : Client) : Prop :=
  ∃ h', h.Reaches h' ∧ h'.Settled ∧ h'.client c.incoming = c

namespace Settled

theorem turned (hs : h.Settled) (hd : d.IsSettled) (hr : h.Reaches h')
    (hcalls : h'.calls = h.calls.set k d) (hgone : h'.gone = h'.err.isSome)
    (hreader : h'.reader.IsSettled h'.err)
    (hwriter : h'.writer.IsSettled h.calls.length h'.err) : h'.Settled := by
  refine ⟨hr.routed hs.routed, fun j e he => ?_, hgone, hreader, ?_⟩
  · rw [hcalls] at he
    rcases getElem?_set_eq_some he with ⟨rfl, rfl⟩ | ⟨-, he⟩
    · exact hd
    · exact hs.call j e he
  · rw [hcalls, List.length_set]
    exact hwriter

section
variable (hs : h.Settled) (hlen : h.calls.length < 2 ^ 64) (hc : h.calls[k]? = some c)
include hs hlen hc

theorem update (hr : h.Reaches (h.put k d)) (hd : d.IsSettled) (hid : d.id = c.id) :
    h.Walks ((h.client incoming).update d.seen) :=
  ⟨_, hr, hs.turned hd hr rfl hs.gone hs.reader hs.writer, hs.routed.client_put hlen hc _ hid⟩

theorem finish {outcome : Outcome} {call : MacroRelay.Call}
    (hr : h.Reaches ((h.put k d).unlist d.id)) (hd : d.IsSettled) (hid : d.id = c.id)
    (hcall : d.seen = { call with stage := .returned outcome }) :
    h.Walks ((h.client incoming).finish call outcome) := by
  refine ⟨_, hr, hs.turned hd hr rfl hs.gone hs.reader hs.writer, ?_⟩
  have hcallId : call.id = d.id := (congrArg MacroRelay.Call.id hcall).symm
  unfold Client.finish
  rw [client_unlist, hs.routed.client_put hlen hc _ hid, hcall, hcallId]
  rfl

theorem finish_early {outcome : Outcome} {call : MacroRelay.Call} (hr : h.Reaches (h.put k d))
    (hd : d.IsSettled) (hid : d.id = c.id)
    (hcall : d.seen = { call with stage := .returned outcome })
    (hstage : d.stage = .returned outcome) :
    h.Walks ((h.client incoming).finish call outcome) := by
  have hput := (hr.routed hs.routed).unlist_eq (by simpa using hlen) (getElem?_set_of_some hc d)
    (by rw [hstage]; exact nofun)
  exact hs.finish hlen hc (by rw [hput]; exact hr) hd hid hcall

end

-- ---------------------------------------------------------------------------
-- Moves of a call
-- ---------------------------------------------------------------------------

variable {client : Client}

theorem move_call {f : MacroRelay.Call → Option Client}
    (hstep : (h.client incoming).call? id >>= f = some client) :
    ∃ (k : Nat) (c : Call), h.calls[k]? = some c ∧ c.id = id ∧ h.Reaches (h.put k c) ∧
      f c.seen = some client := by
  obtain ⟨call, hcall, hf⟩ := Option.bind_eq_some_iff.mp hstep
  obtain ⟨k, c, hc, hid, rfl⟩ := client_call hcall
  refine ⟨k, c, hc, hid, ?_, hf⟩
  rw [put_self hc]
  exact .refl h

theorem checkOpen (hs : h.Settled) (hlen : h.calls.length < 2 ^ 64)
    (hstep : (h.client incoming).step (.checkOpen id) = some client) : h.Walks client := by
  obtain ⟨k, c, hc, rfl, hself, hstep⟩ := move_call hstep
  have hcall := hs.call k c hc
  split at hstep
  · rename_i cause hstage hcause
    cases hstep
    have hgone : h.gone = true := by rw [hs.gone, show h.err = some cause from hcause]; rfl
    have hsee := hself.turn (a := .checkOpen) (s := .refused) hc
      (by simp [Call.next, hcall.stage_eq hstage, hgone, Stage.of]) fun _ _ => rfl
    have hask := hsee.turn (a := .readCause) (s := .returned (c.closed (some cause))) hc
      (by simp [Call.next, show h.err = some cause from hcause]; rfl) fun _ _ => rfl
    exact hs.finish_early hlen hc hask ⟨rfl, hcall.reads⟩ rfl rfl rfl
  · rename_i hstage hcause
    cases hstep
    have hgone : h.gone = false := by rw [hs.gone, show h.err = none from hcause]; rfl
    have hsee := hself.turn (a := .checkOpen) (s := .opened) hc
      (by simp [Call.next, hcall.stage_eq hstage, hgone, Stage.of]) fun _ _ => rfl
    exact hs.update hlen hc hsee ⟨rfl, hcall.reads⟩ rfl
  · cases hstep

theorem checkTime (hs : h.Settled) (hlen : h.calls.length < 2 ^ 64)
    (hstep : (h.client incoming).step (.checkTime id) = some client) : h.Walks client := by
  obtain ⟨k, c, hc, rfl, hself, hstep⟩ := move_call hstep
  have hcall := hs.call k c hc
  split at hstep
  · rename_i why hstage hexpiry
    cases hstep
    have hsee := hself.turn (a := .checkTime) (s := .returned (c.expired why)) hc
      (by simp [Call.next, hcall.stage_eq hstage, show c.expiry = some why from hexpiry, Stage.of])
      fun _ _ => rfl
    exact hs.finish_early hlen hc hsee ⟨rfl, hcall.reads⟩ rfl rfl rfl
  · rename_i hstage hexpiry
    cases hstep
    have hsee := hself.turn (a := .checkTime) (s := .admitted) hc
      (by simp [Call.next, hcall.stage_eq hstage, show c.expiry = none from hexpiry, Stage.of])
      fun _ _ => rfl
    exact hs.update hlen hc hsee ⟨rfl, hcall.reads⟩ rfl
  · cases hstep

theorem register (hs : h.Settled) (hlen : h.calls.length < 2 ^ 64)
    (hstep : (h.client incoming).step (.register id) = some client) : h.Walks client := by
  obtain ⟨k, c, hc, rfl, -, hstep⟩ := move_call hstep
  have hcall := hs.call k c hc
  split at hstep
  · rename_i hstage
    cases hstep
    have hnext : c.next h.err h.gone .register = some .registered := by
      simp [Call.next, hcall.stage_eq hstage, Stage.of]
    have hr := (Reaches.refl h).step (step_act hc hnext)
    refine ⟨_, hr, hs.turned (d := { c with stage := .registered }) ⟨rfl, hcall.reads⟩ hr rfl hs.gone
      hs.reader hs.writer, ?_⟩
    have hput := hs.routed.client_put (d := { c with stage := .registered }) hlen hc incoming rfl
    exact congrArg (fun client : Client => { client with pending := c.id :: client.pending }) hput
  · cases hstep

theorem handOver (hs : h.Settled) (hlen : h.calls.length < 2 ^ 64)
    (hstep : (h.client incoming).step (.handOver id) = some client) : h.Walks client := by
  obtain ⟨k, c, hc, rfl, -, hstep⟩ := move_call hstep
  have hcall := hs.call k c hc
  split at hstep
  · rename_i hstage hwriter hcause
    cases hstep
    have hidle : h.writer = .idle := by
      rcases hs.writer with hw | ⟨j, hw, hj⟩ | ⟨-, he⟩
      · exact hw
      · have hsome : h.writerId = some h.calls[j].id := by simp [writerId, hw, hj]
        cases hsome.symm.trans hwriter
      · exact absurd hcause he
    have hnext : c.next h.err h.gone .handOver = some .handed := by
      simp [Call.next, hcall.stage_eq hstage, Stage.of]
    have hhand : (h.put k { c with stage := .handed }).affect k c .handOver =
        some { h.put k { c with stage := .handed } with writer := .writing k } := by
      simp [affect, put, hidle]
    have hr := (Reaches.refl h).step ((step_act hc hnext).trans hhand)
    have hput := hs.routed.client_put (d := { c with stage := .handed }) hlen hc incoming rfl
    refine ⟨_, hr, hs.turned (d := { c with stage := .handed }) ⟨rfl, hcall.reads⟩ hr rfl hs.gone
      hs.reader (.inr (.inl ⟨k, rfl, (List.getElem?_eq_some_iff.mp hc).1⟩)), ?_⟩
    have hid : ((h.calls.set k { c with stage := .handed })[k]?).map (·.id) = some c.id := by
      rw [getElem?_set_of_some hc]
      rfl
    show ({ (h.put k { c with stage := .handed }).client incoming with
      writer := ((h.calls.set k { c with stage := .handed })[k]?).map (·.id) } : Client) = _
    rw [hid, hput]
    rfl
  · cases hstep

theorem cutOff (hs : h.Settled) (hlen : h.calls.length < 2 ^ 64) (hc : h.calls[k]? = some c)
    (hr : h.Reaches (h.put k { c with stage := .rejected })) : h.Walks ((h.client incoming).finish
      c.seen (.error (.closed c.method (h.err.getD .closed)))) :=
  hs.finish hlen hc ((hr.rejected hc rfl).leaving hc rfl) ⟨rfl, (hs.call k c hc).reads⟩ rfl rfl

theorem stall {why : Expiry} (hs : h.Settled) (hlen : h.calls.length < 2 ^ 64)
    (hc : h.calls[k]? = some c) (hr : h.Reaches (h.put k { c with stage := .stalling why })) :
    h.Walks (((h.client incoming).fail (.stalled c.method why)).finish c.seen (c.expired why)) := by
  have hput := getElem?_set_of_some hc { c with stage := .stalling why }
  have hfall := hr.falls (p := .call k) hs.gone
    (show _ = some (Cause.stalled c.method why) by simp [charge?, hput])
  have hpass : h.Reaches ((h.down (.stalled c.method why)).put k
      { c with stage := .leaving (c.expired why) }) :=
    hfall.step (m := .pass (.call k))
      (by simp [Hub.step, passOn, down, put, getElem?_set_of_some hc]; rfl)
  have hleave := hpass.leaving hc rfl
  have hdown : Routed (h.down (.stalled c.method why)) := hs.routed.of_eq rfl rfl rfl rfl
  refine ⟨_, hleave, hs.turned (d := { c with stage := .returned (c.expired why) })
    ⟨rfl, (hs.call k c hc).reads⟩ hleave rfl (h.down_err _).1 (hs.reader.down _)
    (hs.writer.down _), ?_⟩
  rw [client_unlist,
    hdown.client_put (d := { c with stage := .returned (c.expired why) }) hlen hc _ rfl]
  rfl

theorem noticeWritten (hs : h.Settled) (hlen : h.calls.length < 2 ^ 64)
    (hstep : (h.client incoming).step (.noticeWritten id) = some client) : h.Walks client := by
  obtain ⟨k, c, hc, rfl, hself, hstep⟩ := move_call hstep
  have hcall := hs.call k c hc
  split at hstep
  · rename_i hstage hreport
    cases hstep
    have hsee := hself.turn (a := .noticeReport) (s := .written) hc
      (by simp [Call.next, hcall.stage_eq hstage, show c.report = some true from hreport, Stage.of])
      fun _ _ => rfl
    exact hs.update hlen hc hsee ⟨rfl, hcall.reads⟩ rfl
  · rename_i hstage hreport
    cases hstep
    have hsee := hself.turn (a := .noticeReport) (s := .rejected) hc
      (by simp [Call.next, hcall.stage_eq hstage, show c.report = some false from hreport, Stage.of])
      fun _ _ => rfl
    exact hs.cutOff hlen hc hsee
  · cases hstep

theorem noticeClosed (hs : h.Settled) (hlen : h.calls.length < 2 ^ 64)
    (hstep : (h.client incoming).step (.noticeClosed id) = some client) : h.Walks client := by
  obtain ⟨k, c, hc, rfl, hself, hstep⟩ := move_call hstep
  have hcall := hs.call k c hc
  have hwalk : ∀ cause, h.err = some cause →
      c.stage = .registered ∨ c.stage = .handed ∨ c.stage = .written →
      h.Walks ((h.client incoming).finish c.seen (.error (.closed c.method cause))) := by
    intro cause hcause hstage
    have hgone : h.gone = true := by rw [hs.gone, hcause]; rfl
    have hsee := hself.turn (a := .noticeClosed) (s := .rejected) hc
      (by rcases hstage with h | h | h <;> simp [Call.next, h, hgone]) fun _ _ => rfl
    have hcut : h.Walks ((h.client incoming).finish c.seen
        (.error (.closed c.method (h.err.getD .closed)))) := hs.cutOff hlen hc hsee
    rwa [hcause] at hcut
  split at hstep
  · rename_i cause hstage hcause
    cases hstep
    exact hwalk cause hcause (.inl (hcall.stage_eq hstage))
  · rename_i cause hstage hcause
    cases hstep
    exact hwalk cause hcause (.inr (.inl (hcall.stage_eq hstage)))
  · rename_i cause hstage hcause
    cases hstep
    exact hwalk cause hcause (.inr (.inr (hcall.stage_eq hstage)))
  · cases hstep

theorem takeAnswer (hs : h.Settled) (hlen : h.calls.length < 2 ^ 64)
    (hstep : (h.client incoming).step (.takeAnswer id) = some client) : h.Walks client := by
  obtain ⟨k, c, hc, rfl, hself, hstep⟩ := move_call hstep
  have hcall := hs.call k c hc
  split at hstep
  · rename_i r rest hstage hinbox
    cases hstep
    replace hinbox : c.inbox = r :: rest := hinbox
    have htake := hself.turn (a := .takeAnswer) (s := .leaving (c.outcomeOf r)) hc
      (by simp [Call.next, hcall.stage_eq hstage, hinbox, Stage.of]) fun _ _ => rfl
    refine hs.finish hlen hc (htake.leaving hc rfl) ⟨rfl, hcall.reads⟩ rfl ?_
    simp only [Call.goTo, Call.seen, Stage.seen, hinbox, hcall.outcomeOf, List.tail_cons]
  · cases hstep

theorem expire {why : Expiry} (hs : h.Settled) (hlen : h.calls.length < 2 ^ 64)
    (hstep : (h.client incoming).step (.expire id why) = some client) : h.Walks client := by
  obtain ⟨k, c, hc, rfl, -, hstep⟩ := move_call hstep
  cases hstep
  have hexpire : h.step (.expire k why) =
      some (h.put k { c with expiry := c.expiry.or (some why) }) := by
    simp [Hub.step, hc]
  exact hs.update (d := { c with expiry := c.expiry.or (some why) }) hlen hc
    ((Reaches.refl h).step hexpire) ⟨(hs.call k c hc).stage, (hs.call k c hc).reads⟩ rfl

theorem noticeExpiry (hs : h.Settled) (hlen : h.calls.length < 2 ^ 64)
    (hstep : (h.client incoming).step (.noticeExpiry id) = some client) : h.Walks client := by
  obtain ⟨k, c, hc, rfl, hself, hstep⟩ := move_call hstep
  have hcall := hs.call k c hc
  have hwalk : ∀ why, c.expiry = some why → c.stage = .registered ∨ c.stage = .written →
      h.Walks ((h.client incoming).finish c.seen (c.expired why)) := by
    intro why hexpiry hstage
    have hsee := hself.turn (a := .noticeExpiry) (s := .leaving (c.expired why)) hc
      (by rcases hstage with h | h <;> simp [Call.next, h, hexpiry]) fun _ _ => rfl
    exact hs.finish hlen hc (hsee.leaving hc rfl) ⟨rfl, hcall.reads⟩ rfl rfl
  split at hstep
  · rename_i why hstage hexpiry
    cases hstep
    exact hwalk why hexpiry (.inl (hcall.stage_eq hstage))
  · rename_i why hstage hexpiry
    cases hstep
    exact hwalk why hexpiry (.inr (hcall.stage_eq hstage))
  · rename_i why hstage hexpiry
    have hsee := hself.turn (a := .noticeExpiry) (s := .weary why) hc
      (by simp [Call.next, hcall.stage_eq hstage, show c.expiry = some why from hexpiry, Stage.of])
      fun _ _ => rfl
    split at hstep
    · rename_i hreport
      cases hstep
      have hlook := hsee.turn (a := .lookAgain) (s := .leaving (c.expired why)) hc
        (by simp [Call.next, Call.goTo, show c.report = some true from hreport]; rfl) fun _ _ => rfl
      exact hs.finish hlen hc (hlook.leaving hc rfl) ⟨rfl, hcall.reads⟩ rfl rfl
    · rename_i hreport
      cases hstep
      have hlook := hsee.turn (a := .lookAgain) (s := .rejected) hc
        (by simp [Call.next, Call.goTo, show c.report = some false from hreport]) fun _ _ => rfl
      exact hs.cutOff hlen hc hlook
    · rename_i hreport
      cases hstep
      have hlook := hsee.turn (a := .lookAgain) (s := .stalling why) hc
        (by simp [Call.next, Call.goTo, show c.report = none from hreport]) fun _ _ => rfl
      exact hs.stall hlen hc hlook
  · cases hstep

theorem wrote {well : Bool} (hs : h.Settled) (hlen : h.calls.length < 2 ^ 64)
    (hstep : (h.client incoming).step (.wrote well) = some client) : h.Walks client := by
  obtain ⟨call, hcall, hstep⟩ := Option.bind_eq_some_iff.mp hstep
  obtain ⟨id, hid, hcall⟩ := Option.bind_eq_some_iff.mp hcall
  replace hid : h.writerId = some id := hid
  rcases hs.writer with hw | ⟨k, hw, hk⟩ | ⟨hw, -⟩
  · simp [writerId, hw] at hid
  · obtain ⟨c, hc⟩ : ∃ c, h.calls[k]? = some c := ⟨_, List.getElem?_eq_getElem hk⟩
    obtain rfl : c.id = id := by simpa [writerId, hw, hc] using hid
    obtain rfl : c.seen = call :=
      Option.some.inj ((hs.routed.client_call? hlen hc).symm.trans hcall)
    have hput := hs.routed.client_put (d := { c with report := some well }) hlen hc incoming rfl
    have hreport : h.step (.wrote well) = some { h.put k { c with report := some well } with
        writer := if well then .idle else .failing } := by
      simp [Hub.step, hw, hc]
    have hset : ({ c with report := some well } : Call).IsSettled :=
      ⟨(hs.call k c hc).stage, (hs.call k c hc).reads⟩
    have hr := (Reaches.refl h).step hreport
    cases well with
    | true =>
      cases hstep
      refine ⟨_, hr, hs.turned hset hr rfl hs.gone hs.reader (.inl rfl), ?_⟩
      exact congrArg (fun client : Client => { client with writer := none }) hput
    | false =>
      cases hstep
      have hfall := hr.falls (p := .writer) hs.gone (show _ = some Cause.unwritable by simp [charge?])
      obtain ⟨hgone, herr⟩ := h.down_err .unwritable
      have hpass : h.Reaches
          { (h.put k { c with report := some false }).down .unwritable with writer := .ended } :=
        hfall.step (m := .pass .writer) (by simp [Hub.step, passOn, down])
      refine ⟨_, hpass, hs.turned hset hpass rfl hgone (hs.reader.down _) (.inr (.inr ⟨rfl, herr⟩)),
        ?_⟩
      exact congrArg (fun client : Client => { client.fail .unwritable with writer := none }) hput
  · simp [writerId, hw] at hid

-- ---------------------------------------------------------------------------
-- Moves of the others
-- ---------------------------------------------------------------------------

theorem kept (hs : h.Settled) (hr : h.Reaches h') (hcalls : h'.calls = h.calls)
    (hgone : h'.gone = h'.err.isSome)
    (hreader : h'.reader.IsSettled h'.err)
    (hwriter : h'.writer.IsSettled h.calls.length h'.err) : h'.Settled :=
  ⟨hr.routed hs.routed, fun k c hc => hs.call k c (hcalls ▸ hc), hgone, hreader, by rwa [hcalls]⟩

theorem start {method : Text} (hs : h.Settled)
    (hstep : (h.client incoming).step (.start method) = some client) : h.Walks client := by
  cases hstep
  have hstart : h.step (.start method fun _ => true) = some { h with
      lastId := h.lastId + 1,
      calls := h.calls ++ [{ id := h.lastId + 1, method, reads := fun _ => true }] } := rfl
  have hr := (Reaches.refl h).step hstart
  refine ⟨_, hr, ⟨hr.routed hs.routed, fun k c hc => ?_, hs.gone, hs.reader, ?_⟩, ?_⟩
  · rcases getElem?_concat_eq_some hc with hc | ⟨-, rfl⟩
    · exact hs.call k c hc
    · exact ⟨rfl, rfl⟩
  · refine hs.writer.imp_right fun h => h.imp_left ?_
    rintro ⟨k, hw, hk⟩
    exact ⟨k, hw, by rw [List.length_append]; omega⟩
  · have hwriter : ({ h with
        lastId := h.lastId + 1,
        calls := h.calls ++ [{ id := h.lastId + 1, method, reads := fun _ => true }] } : Hub).writerId =
          h.writerId := by
      rcases hs.writer with hw | ⟨k, hw, hk⟩ | ⟨hw, -⟩
      · simp [writerId, hw]
      · simp [writerId, hw, List.getElem?_append_left hk]
      · simp [writerId, hw]
    simp [Hub.client, hwriter, Call.seen, Stage.seen]

theorem close (hs : h.Settled) (hstep : (h.client incoming).step .close = some client) :
    h.Walks client := by
  cases hstep
  have hr : h.Reaches (h.down .closed) := by
    have hclose := (Reaches.refl h).step (m := .close) rfl
    rcases Option.eq_none_or_eq_some h.err with he | ⟨first, he⟩
    · exact hclose.step (m := .shut) (by simp [Hub.step, down, he, hs.gone])
    · rw [down_eq he hs.gone]
      exact .refl h
  exact ⟨_, hr, hs.kept hr rfl (h.down_err _).1 (hs.reader.down _) (hs.writer.down _), rfl⟩

theorem loseReader {fault : Pack.Fault} (hs : h.Settled)
    (hstep : (h.client incoming).step (.loseReader fault) = some client) : h.Walks client := by
  cases hstep
  rcases hs.reader with hreader | ⟨hreader, he⟩
  · have hfail : h.Reaches { h with reader := .failing fault } :=
      (Reaches.refl h).step (m := .failRead fault) (by simp [Hub.step, hreader])
    have hfall := hfail.falls (p := .reader) hs.gone (show _ = some (Cause.unreadable fault) from rfl)
    have hpass : h.Reaches { h.down (.unreadable fault) with reader := .ended } :=
      hfall.step (m := .pass .reader) (by simp [Hub.step, passOn, down])
    obtain ⟨hgone, herr⟩ := h.down_err (.unreadable fault)
    exact ⟨_, hpass, hs.kept hpass rfl hgone (.inr ⟨rfl, herr⟩) (hs.writer.down _), rfl⟩
  · obtain ⟨first, he⟩ := Option.ne_none_iff_exists'.mp he
    refine ⟨h, .refl h, hs, ?_⟩
    simp [Client.fail, Hub.client, he]

theorem answer {r : Response} (hs : h.Settled) (hlen : h.calls.length < 2 ^ 64)
    (hreader : h.reader = .reading)
    (hstep : (h.client incoming).step (.answer r) = some client) : h.Walks client := by
  have hread : h.Reaches { h with reader := .holding r } :=
    (Reaches.refl h).step (m := .read r) (by simp [Hub.step, hreader])
  simp only [Client.step] at hstep
  rcases hk : h.pending.lookup r.id with _ | k
  · have hlook : h.Reaches { h.unlist r.id with reader := .reading } :=
      hread.step (m := .lookUp) (by simp [Hub.step, unlist, hk])
    have hnot : ¬ (h.client incoming).pending.contains r.id := by
      intro hmem
      obtain ⟨e, he, hid⟩ := List.mem_map.mp (List.contains_iff_mem.mp hmem)
      have hne := List.lookup_eq_none_iff.mp hk e he
      simp [hid] at hne
    have hclient : client = (h.unlist r.id).client incoming := by
      rw [client_unlist]
      split at hstep
      · rw [if_neg hnot] at hstep
        exact (Option.some.inj hstep).symm
      · exact (Option.some.inj hstep).symm
    subst hclient
    exact ⟨_, hlook, hs.kept hlook rfl hs.gone (.inl rfl) hs.writer, rfl⟩
  · have hlook : h.Reaches { h.unlist r.id with reader := .delivering r k } :=
      hread.step (m := .lookUp) (by simp [Hub.step, unlist, hk])
    have hp := mem_of_lookup hk
    obtain ⟨-, c, hc, hid, -, hheard⟩ := hs.routed.pending r.id k hp
    have hinbox : c.inbox = [] := (List.append_eq_nil_iff.mp hheard).1
    have hdeliver : h.Reaches
        { (h.unlist r.id).put k { c with inbox := [r] } with reader := .reading } :=
      hlook.step (m := .deliver) (by simp [Hub.step, hc, hinbox, put])
    have hclient : client = ((h.put k { c with inbox := [r] }).unlist r.id).client incoming := by
      have hlisted : (h.client incoming).pending.contains r.id :=
        List.contains_iff_mem.mpr (List.mem_map_of_mem hp)
      rw [← hid, hs.routed.client_call? hlen hc] at hstep
      rw [← hid] at hlisted
      simp only [hlisted, if_true, show c.seen.inbox = [] from hinbox, List.nil_append] at hstep
      rw [client_unlist, hs.routed.client_put (d := { c with inbox := [r] }) hlen hc _ rfl, ← hid,
        ← Option.some.inj hstep]
      rfl
    subst hclient
    have hcall := hs.call k c hc
    exact ⟨_, hdeliver, hs.turned (d := { c with inbox := [r] }) ⟨hcall.stage, hcall.reads⟩ hdeliver
      rfl hs.gone (.inl rfl) hs.writer, rfl⟩

theorem step {move : MacroRelay.Move} (hs : h.Settled) (hlen : h.calls.length < 2 ^ 64)
    (hstep : (h.client incoming).step move = some client)
    (hheard : ∀ r, move = .answer r → h.err = none) : h.Walks client := by
  cases move with
  | start method => exact hs.start hstep
  | checkOpen id => exact hs.checkOpen hlen hstep
  | checkTime id => exact hs.checkTime hlen hstep
  | register id => exact hs.register hlen hstep
  | handOver id => exact hs.handOver hlen hstep
  | wrote well => exact hs.wrote hlen hstep
  | noticeWritten id => exact hs.noticeWritten hlen hstep
  | noticeClosed id => exact hs.noticeClosed hlen hstep
  | noticeExpiry id => exact hs.noticeExpiry hlen hstep
  | takeAnswer id => exact hs.takeAnswer hlen hstep
  | answer r =>
    refine hs.answer hlen (hs.reader.resolve_right fun h => ?_) hstep
    exact h.2 (hheard r rfl)
  | loseReader fault => exact hs.loseReader hstep
  | close => exact hs.close hstep
  | expire id why => exact hs.expire hlen hstep

theorem perform {moves : List MacroRelay.Move} (hs : h.Settled)
    (ho : (h.client incoming).Orderly moves) : h.Walks ((h.client incoming).perform moves) := by
  induction moves generalizing h incoming with
  | nil => exact ⟨h, .refl h, hs, rfl⟩
  | cons move rest ih =>
    obtain ⟨hlen, hheard⟩ := ho [] move rest rfl
    have hlen : h.calls.length < 2 ^ 64 := by simpa [Hub.client, Client.perform] using hlen
    have hrest := ho.tail
    rw [Client.perform_cons]
    rcases hstep : (h.client incoming).step move with _ | next
    · rw [hstep] at hrest
      exact ih hs hrest
    · rw [hstep] at hrest
      obtain ⟨mid, hr, hmid, hnext⟩ := hs.step hlen hstep hheard
      rw [Option.getD_some] at hrest ⊢
      rw [← hnext] at hrest ⊢
      obtain ⟨last, hr', hlast, hclient⟩ := ih hmid hrest
      exact ⟨last, hr.trans hr', hlast, hclient⟩

end Settled

theorem settled_start : Settled {} :=
  ⟨.start, nofun, rfl, .inl rfl, .inl rfl⟩

end Hub

namespace Client

/-- In a run of a client from its start: a call has responses to its own number only and no more
than one, and the pending are calls that have not returned. -/
theorem perform_routed {moves : List Move} (ho : Orderly {} moves)
    (hlen : (perform {} moves).calls.length < 2 ^ 64) {call : Call}
    (hcall : call ∈ (perform {} moves).calls) :
    (∀ r ∈ call.inbox, r.id = call.id) ∧ call.inbox.length ≤ 1 ∧
      ∀ outcome, call.stage = .returned outcome → call.id ∉ (perform {} moves).pending := by
  have hwalk : Hub.Walks {} (perform {} moves) := Hub.settled_start.perform ho
  obtain ⟨h, -, hs, hclient⟩ := hwalk
  rw [← hclient] at hcall hlen ⊢
  replace hlen : h.calls.length < 2 ^ 64 := by simpa [Hub.client] using hlen
  obtain ⟨c, hc, rfl⟩ := List.mem_map.mp (List.mem_reverse.mp hcall)
  obtain ⟨k, hk⟩ := List.mem_iff_getElem?.mp hc
  have hsound := hs.routed.sound k c hk
  refine ⟨fun r hr => hsound.own r (List.mem_append_left _ hr), ?_, fun outcome hstage => ?_⟩
  · have honce := hsound.once
    rw [Hub.Call.heard, List.length_append] at honce
    exact Nat.le_trans (Nat.le_add_right _ _) honce
  · refine hs.routed.not_pending hlen hk ?_
    rw [(hs.call k c hk).stage_eq hstage]
    simp [Hub.Stage.of, Hub.Stage.phase]

end Client

end MacroRelay
