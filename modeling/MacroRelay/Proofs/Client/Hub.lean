import MacroRelay.Client.Basic
import MacroRelay.Proofs.Lists
import Mathlib.Data.List.Induction

/-!
# A connection, one step at a time

A move of a client does in one go what callers, reader and writer do in several steps, and other
parties can come in between. Here every step stands alone: a call that has seen the connection gone
has yet to ask for the cause, a response that was read has yet to be matched and then handed over,
and a call that knows its outcome has yet to take its number back. Of several things a call could
notice, it may notice any.
-/

namespace MacroRelay

namespace Hub

inductive Stage where
  | numbered
  | opened
  | admitted
  /-- It has found the connection gone before a response could be matched to it. -/
  | refused
  | registered
  | handed
  /-- Its time is up while the writer has its request; it looks once more what became of that. -/
  | weary (why : Expiry)
  /-- Nothing became of it yet: nobody reads at the other end. -/
  | stalling (why : Expiry)
  | written
  /-- It knows that the connection is gone, but not why. -/
  | rejected
  /-- It knows its outcome. A response can still be matched to it. -/
  | leaving (outcome : Outcome)
  | returned (outcome : Outcome)

structure Call where
  id : UInt64
  method : Text
  /-- Results that can be decoded. -/
  reads : Text → Bool
  stage : Stage := .numbered
  expiry : Option Expiry := none
  /-- What the writer said about the request. -/
  report : Option Bool := none
  /-- Room for one response. -/
  inbox : List Response := []
  taken : List Response := []

/-- What a call does of its own accord. -/
inductive Act where
  | checkOpen
  | checkTime
  | register
  | handOver
  | noticeReport
  | noticeClosed
  | noticeExpiry
  | lookAgain
  | readCause
  | takeAnswer
  | leave
deriving DecidableEq

namespace Call

def outcomeOf (c : Call) (r : Response) : Outcome :=
  if r.error ≠ [] then .error (.remote c.method r.error)
  else match r.result with
    | some raw => if raw = [] ∨ c.reads raw then .ok (some raw) else .error (.undecodable c.method)
    | none => .ok none

def expired (c : Call) (why : Expiry) : Outcome :=
  .error (.expired c.method why)

def closed (c : Call) (err : Option Cause) : Outcome :=
  .error (.closed c.method (err.getD .closed))

def next (c : Call) (err : Option Cause) (gone : Bool) : Act → Option Stage
  | .checkOpen =>
    match c.stage with
    | .numbered => some (if gone then .refused else .opened)
    | _ => none
  | .checkTime =>
    match c.stage, c.expiry with
    | .opened, some why => some (.returned (c.expired why))
    | .opened, none => some .admitted
    | _, _ => none
  | .register =>
    match c.stage with
    | .admitted => some .registered
    | _ => none
  | .handOver =>
    match c.stage with
    | .registered => some .handed
    | _ => none
  | .noticeReport =>
    match c.stage, c.report with
    | .handed, some true => some .written
    | .handed, some false => some .rejected
    | _, _ => none
  | .noticeClosed =>
    match c.stage, gone with
    | .registered, true | .handed, true | .written, true => some .rejected
    | _, _ => none
  | .noticeExpiry =>
    match c.stage, c.expiry with
    | .registered, some why | .written, some why => some (.leaving (c.expired why))
    | .handed, some why => some (.weary why)
    | _, _ => none
  | .lookAgain =>
    match c.stage, c.report with
    | .weary why, some true => some (.leaving (c.expired why))
    | .weary _, some false => some .rejected
    | .weary why, none => some (.stalling why)
    | _, _ => none
  | .readCause =>
    match c.stage with
    | .refused => some (.returned (c.closed err))
    | .rejected => some (.leaving (c.closed err))
    | _ => none
  | .takeAnswer =>
    match c.stage, c.inbox with
    | .written, r :: _ => some (.leaving (c.outcomeOf r))
    | _, _ => none
  | .leave =>
    match c.stage with
    | .leaving outcome => some (.returned outcome)
    | _ => none

def goTo (c : Call) (stage : Stage) : Act → Call
  | .takeAnswer => { c with stage, inbox := c.inbox.tail, taken := c.taken ++ c.inbox.take 1 }
  | _ => { c with stage }

end Call

inductive Reader where
  | reading
  | holding (r : Response)
  /-- It has matched the response to a call, which no other response is matched to any more. -/
  | delivering (r : Response) (k : Nat)
  | failing (fault : Pack.Fault)
  | ended

inductive Writer where
  | idle
  | writing (k : Nat)
  | failing
  | ended

/-- Who can find the connection beyond repair. -/
inductive Party where
  | reader
  | writer
  | call (k : Nat)
deriving DecidableEq

inductive Move where
  | start (method : Text) (reads : Text → Bool)
  | act (k : Nat) (a : Act)
  | expire (k : Nat) (why : Expiry)
  | wrote (well : Bool)
  | stop
  /-- The reader has a whole response, whatever the other end chose to send. -/
  | read (r : Response)
  | failRead (fault : Pack.Fault)
  | lookUp
  | deliver
  | blame (p : Party)
  /-- A party that found the connection beyond repair sees it gone and goes on. -/
  | pass (p : Party)
  | close
  | shut

end Hub

/-- A connection with all its parties. Calls go by their place in the list. -/
structure Hub where
  lastId : UInt64 := 0
  /-- The call that a response is matched to by its number; the latest entry for a number counts. -/
  pending : List (UInt64 × Nat) := []
  calls : List Hub.Call := []
  reader : Hub.Reader := .reading
  writer : Hub.Writer := .idle
  err : Option Cause := none
  gone : Bool := false

namespace Hub

def put (h : Hub) (k : Nat) (c : Call) : Hub :=
  { h with calls := h.calls.set k c }

def unlist (h : Hub) (id : UInt64) : Hub :=
  { h with pending := h.pending.filter (·.1 != id) }

def charge? (h : Hub) : Party → Option Cause
  | .reader =>
    match h.reader with
    | .failing fault => some (.unreadable fault)
    | _ => none
  | .writer =>
    match h.writer with
    | .failing => some .unwritable
    | _ => none
  | .call k => do
    let c ← h.calls[k]?
    match c.stage with
    | .stalling why => some (.stalled c.method why)
    | _ => none

def passOn (h : Hub) : Party → Option Hub
  | .reader =>
    match h.reader with
    | .failing _ => some { h with reader := .ended }
    | _ => none
  | .writer =>
    match h.writer with
    | .failing => some { h with writer := .ended }
    | _ => none
  | .call k => do
    let c ← h.calls[k]?
    match c.stage with
    | .stalling why => some (h.put k { c with stage := .leaving (c.expired why) })
    | _ => none

/-- What an act of call `k` does besides leading it on. -/
def affect (h : Hub) (k : Nat) (c : Call) : Act → Option Hub
  | .register => some { h with pending := (c.id, k) :: h.pending }
  | .handOver =>
    match h.writer with
    | .idle => some { h with writer := .writing k }
    | _ => none
  | .leave => some (h.unlist c.id)
  | _ => some h

def step (h : Hub) : Move → Option Hub
  | .start method reads =>
    some { h with lastId := h.lastId + 1, calls := h.calls ++ [{ id := h.lastId + 1, method, reads }] }
  | .act k a => do
    let c ← h.calls[k]?
    let stage ← c.next h.err h.gone a
    (h.put k (c.goTo stage a)).affect k c a
  | .expire k why => do
    let c ← h.calls[k]?
    return h.put k { c with expiry := c.expiry.or (some why) }
  | .wrote well =>
    match h.writer with
    | .writing k => do
      let c ← h.calls[k]?
      return { h.put k { c with report := some well } with writer := if well then .idle else .failing }
    | _ => none
  | .stop =>
    match h.writer, h.gone with
    | .idle, true => some { h with writer := .ended }
    | _, _ => none
  | .read r =>
    match h.reader with
    | .reading => some { h with reader := .holding r }
    | _ => none
  | .failRead fault =>
    match h.reader with
    | .reading => some { h with reader := .failing fault }
    | _ => none
  | .lookUp =>
    match h.reader with
    | .holding r =>
      let reader := match h.pending.lookup r.id with
        | some k => .delivering r k
        | none => .reading
      some { h.unlist r.id with reader }
    | _ => none
  | .deliver =>
    match h.reader with
    | .delivering r k => do
      let c ← h.calls[k]?
      match c.inbox with
      | [] => some { h.put k { c with inbox := [r] } with reader := .reading }
      -- there is no room for another one
      | _ => none
    | _ => none
  | .blame p => do
    let cause ← h.charge? p
    if h.err.isNone then some { h with err := some cause } else none
  | .pass p => if h.gone then h.passOn p else none
  | .close => some { h with err := h.err.or (some .closed) }
  | .shut => if h.err.isSome ∧ ¬ h.gone then some { h with gone := true } else none

def run (h : Hub) (moves : List Move) : Option Hub :=
  moves.foldlM step h

-- ---------------------------------------------------------------------------
-- What a step does
-- ---------------------------------------------------------------------------

namespace Call

inductive Leads (c : Call) (err : Option Cause) (gone : Bool) : Act → Stage → Prop
  | refused (h : c.stage = .numbered) (hg : gone = true) : Leads c err gone .checkOpen .refused
  | opened (h : c.stage = .numbered) (hg : gone = false) : Leads c err gone .checkOpen .opened
  | lapsed (h : c.stage = .opened) (he : c.expiry = some why) :
    Leads c err gone .checkTime (.returned (c.expired why))
  | admitted (h : c.stage = .opened) (he : c.expiry = none) : Leads c err gone .checkTime .admitted
  | registered (h : c.stage = .admitted) : Leads c err gone .register .registered
  | handed (h : c.stage = .registered) : Leads c err gone .handOver .handed
  | written (h : c.stage = .handed) (hr : c.report = some true) :
    Leads c err gone .noticeReport .written
  | unwritten (h : c.stage = .handed) (hr : c.report = some false) :
    Leads c err gone .noticeReport .rejected
  | rejected (h : c.stage = .registered ∨ c.stage = .handed ∨ c.stage = .written)
    (hg : gone = true) : Leads c err gone .noticeClosed .rejected
  | expired (h : c.stage = .registered ∨ c.stage = .written) (he : c.expiry = some why) :
    Leads c err gone .noticeExpiry (.leaving (c.expired why))
  | weary (h : c.stage = .handed) (he : c.expiry = some why) :
    Leads c err gone .noticeExpiry (.weary why)
  | late (h : c.stage = .weary why) (hr : c.report = some true) :
    Leads c err gone .lookAgain (.leaving (c.expired why))
  | lost (h : c.stage = .weary why) (hr : c.report = some false) :
    Leads c err gone .lookAgain .rejected
  | stalling (h : c.stage = .weary why) (hr : c.report = none) :
    Leads c err gone .lookAgain (.stalling why)
  | turnedAway (h : c.stage = .refused) : Leads c err gone .readCause (.returned (c.closed err))
  | cutOff (h : c.stage = .rejected) : Leads c err gone .readCause (.leaving (c.closed err))
  | answered (h : c.stage = .written) (hi : c.inbox = r :: rest) :
    Leads c err gone .takeAnswer (.leaving (c.outcomeOf r))
  | returned (h : c.stage = .leaving outcome) : Leads c err gone .leave (.returned outcome)

variable {c : Call} {err : Option Cause} {gone : Bool} {a : Act} {s : Stage}

theorem next_leads (h : c.next err gone a = some s) : c.Leads err gone a s := by
  cases a with
  | checkOpen =>
    simp only [next] at h
    split at h
    · rename_i hs
      cases h
      cases gone
      · exact .opened hs rfl
      · exact .refused hs rfl
    · cases h
  | checkTime =>
    simp only [next] at h
    split at h
    · rename_i hs he
      cases h
      exact .lapsed hs he
    · rename_i hs he
      cases h
      exact .admitted hs he
    · cases h
  | register =>
    simp only [next] at h
    split at h
    · rename_i hs
      cases h
      exact .registered hs
    · cases h
  | handOver =>
    simp only [next] at h
    split at h
    · rename_i hs
      cases h
      exact .handed hs
    · cases h
  | noticeReport =>
    simp only [next] at h
    split at h
    · rename_i hs hr
      cases h
      exact .written hs hr
    · rename_i hs hr
      cases h
      exact .unwritten hs hr
    · cases h
  | noticeClosed =>
    simp only [next] at h
    split at h
    · rename_i hs
      cases h
      exact .rejected (.inl hs) rfl
    · rename_i hs
      cases h
      exact .rejected (.inr (.inl hs)) rfl
    · rename_i hs
      cases h
      exact .rejected (.inr (.inr hs)) rfl
    · cases h
  | noticeExpiry =>
    simp only [next] at h
    split at h
    · rename_i hs he
      cases h
      exact .expired (.inl hs) he
    · rename_i hs he
      cases h
      exact .expired (.inr hs) he
    · rename_i hs he
      cases h
      exact .weary hs he
    · cases h
  | lookAgain =>
    simp only [next] at h
    split at h
    · rename_i hs hr
      cases h
      exact .late hs hr
    · rename_i hs hr
      cases h
      exact .lost hs hr
    · rename_i hs hr
      cases h
      exact .stalling hs hr
    · cases h
  | readCause =>
    simp only [next] at h
    split at h
    · rename_i hs
      cases h
      exact .turnedAway hs
    · rename_i hs
      cases h
      exact .cutOff hs
    · cases h
  | takeAnswer =>
    simp only [next] at h
    split at h
    · rename_i hs hi
      cases h
      exact .answered hs hi
    · cases h
  | leave =>
    simp only [next] at h
    split at h
    · rename_i hs
      cases h
      exact .returned hs
    · cases h

@[simp] theorem goTo_id (c : Call) (s : Stage) (a : Act) : (c.goTo s a).id = c.id := by
  cases a <;> rfl

@[simp] theorem goTo_stage (c : Call) (s : Stage) (a : Act) : (c.goTo s a).stage = s := by
  cases a <;> rfl

@[simp] theorem goTo_method (c : Call) (s : Stage) (a : Act) : (c.goTo s a).method = c.method := by
  cases a <;> rfl

end Call

@[simp] theorem put_calls (h : Hub) (k : Nat) (c : Call) : (h.put k c).calls = h.calls.set k c := rfl

@[simp] theorem unlist_calls (h : Hub) (id : UInt64) : (h.unlist id).calls = h.calls := rfl

/-- What every step needs, and what it makes of the connection. -/
inductive Stepped (h : Hub) : Move → Hub → Prop
  | start : Stepped h (.start method reads) { h with
      lastId := h.lastId + 1
      calls := h.calls ++ [{ id := h.lastId + 1, method, reads }] }
  | acted (hc : h.calls[k]? = some c) (hl : c.Leads h.err h.gone a s) (hr : a ≠ .register)
    (hh : a ≠ .handOver) (hv : a ≠ .leave) : Stepped h (.act k a) (h.put k (c.goTo s a))
  | registered (hc : h.calls[k]? = some c) (hs : c.stage = .admitted) :
    Stepped h (.act k .register)
      { h.put k { c with stage := .registered } with pending := (c.id, k) :: h.pending }
  | handed (hc : h.calls[k]? = some c) (hs : c.stage = .registered) (hw : h.writer = .idle) :
    Stepped h (.act k .handOver) { h.put k { c with stage := .handed } with writer := .writing k }
  | left (hc : h.calls[k]? = some c) (hs : c.stage = .leaving outcome) :
    Stepped h (.act k .leave) ((h.put k { c with stage := .returned outcome }).unlist c.id)
  | expired (hc : h.calls[k]? = some c) :
    Stepped h (.expire k why) (h.put k { c with expiry := c.expiry.or (some why) })
  | wrote (hw : h.writer = .writing k) (hc : h.calls[k]? = some c) :
    Stepped h (.wrote well) { h.put k { c with report := some well } with
      writer := if well then .idle else .failing }
  | stopped (hw : h.writer = .idle) (hg : h.gone = true) :
    Stepped h .stop { h with writer := .ended }
  | read (hr : h.reader = .reading) : Stepped h (.read r) { h with reader := .holding r }
  | failedRead (hr : h.reader = .reading) :
    Stepped h (.failRead fault) { h with reader := .failing fault }
  | matched (hr : h.reader = .holding r) (hk : h.pending.lookup r.id = some k) :
    Stepped h .lookUp { h.unlist r.id with reader := .delivering r k }
  | dropped (hr : h.reader = .holding r) (hk : h.pending.lookup r.id = none) :
    Stepped h .lookUp { h.unlist r.id with reader := .reading }
  | delivered (hr : h.reader = .delivering r k) (hc : h.calls[k]? = some c) (hi : c.inbox = []) :
    Stepped h .deliver { h.put k { c with inbox := [r] } with reader := .reading }
  | blamed (hc : h.charge? p = some cause) (he : h.err = none) :
    Stepped h (.blame p) { h with err := some cause }
  | passedReader (hr : h.reader = .failing fault) (hg : h.gone = true) :
    Stepped h (.pass .reader) { h with reader := .ended }
  | passedWriter (hw : h.writer = .failing) (hg : h.gone = true) :
    Stepped h (.pass .writer) { h with writer := .ended }
  | passedCall (hc : h.calls[k]? = some c) (hs : c.stage = .stalling why) (hg : h.gone = true) :
    Stepped h (.pass (.call k)) (h.put k { c with stage := .leaving (c.expired why) })
  | closed (he : h.err = none) : Stepped h .close { h with err := some .closed }
  | closedAgain (he : h.err ≠ none) : Stepped h .close h
  | shut (he : h.err ≠ none) (hg : h.gone = false) : Stepped h .shut { h with gone := true }

inductive Turn (h : Hub) (k : Nat) (c : Call) : Move → Call → Prop
  | kept : Turn h k c m c
  | acted (hl : c.Leads h.err h.gone a s) : Turn h k c (.act k a) (c.goTo s a)
  | expired : Turn h k c (.expire k why) { c with expiry := c.expiry.or (some why) }
  | reported (hw : h.writer = .writing k) : Turn h k c (.wrote well) { c with report := some well }
  | delivered (hr : h.reader = .delivering r k) (hi : c.inbox = []) :
    Turn h k c .deliver { c with inbox := [r] }
  | passed (hs : c.stage = .stalling why) (hg : h.gone = true) :
    Turn h k c (.pass (.call k)) { c with stage := .leaving (c.expired why) }

variable {h h' : Hub} {m : Move} {k : Nat} {c c' : Call}

theorem act_stepped {a : Act} (hs : h.step (.act k a) = some h') : Stepped h (.act k a) h' := by
  obtain ⟨c, hc, hs⟩ := Option.bind_eq_some_iff.mp hs
  obtain ⟨stage, hnext, hs⟩ := Option.bind_eq_some_iff.mp hs
  have hl := Call.next_leads hnext
  cases a with
  | register =>
    cases hs
    cases hl with
    | registered hstage => exact .registered hc hstage
  | handOver =>
    simp only [affect] at hs
    split at hs
    · rename_i hw
      cases hs
      cases hl with
      | handed hstage => exact .handed hc hstage hw
    · cases hs
  | leave =>
    cases hs
    cases hl with
    | returned hstage => exact .left hc hstage
  | _ =>
    cases hs
    exact .acted hc hl nofun nofun nofun

theorem pass_stepped {p : Party} (hg : h.gone = true) (hs : h.passOn p = some h') :
    Stepped h (.pass p) h' := by
  cases p with
  | reader =>
    simp only [passOn] at hs
    split at hs
    · rename_i hr
      cases hs
      exact .passedReader hr hg
    · cases hs
  | writer =>
    simp only [passOn] at hs
    split at hs
    · rename_i hw
      cases hs
      exact .passedWriter hw hg
    · cases hs
  | call k =>
    obtain ⟨c, hc, hs⟩ := Option.bind_eq_some_iff.mp hs
    split at hs
    · rename_i why hstage
      cases hs
      exact .passedCall hc hstage hg
    · cases hs

theorem step_stepped (hs : h.step m = some h') : Stepped h m h' := by
  cases m with
  | start method reads =>
    cases hs
    exact .start
  | act k a => exact act_stepped hs
  | expire k why =>
    obtain ⟨c, hc, hs⟩ := Option.bind_eq_some_iff.mp hs
    cases hs
    exact .expired hc
  | wrote well =>
    simp only [step] at hs
    split at hs
    · rename_i k hw
      obtain ⟨c, hc, hs⟩ := Option.bind_eq_some_iff.mp hs
      cases hs
      exact .wrote hw hc
    · cases hs
  | stop =>
    simp only [step] at hs
    split at hs
    · rename_i hw hg
      cases hs
      exact .stopped hw hg
    · cases hs
  | read r =>
    simp only [step] at hs
    split at hs
    · rename_i hr
      cases hs
      exact .read hr
    · cases hs
  | failRead fault =>
    simp only [step] at hs
    split at hs
    · rename_i hr
      cases hs
      exact .failedRead hr
    · cases hs
  | lookUp =>
    simp only [step] at hs
    split at hs
    · rename_i r hr
      cases hk : h.pending.lookup r.id with
      | none =>
        rw [hk] at hs
        cases hs
        exact .dropped hr hk
      | some k =>
        rw [hk] at hs
        cases hs
        exact .matched hr hk
    · cases hs
  | deliver =>
    simp only [step] at hs
    split at hs
    · rename_i r k hr
      obtain ⟨c, hc, hs⟩ := Option.bind_eq_some_iff.mp hs
      split at hs
      · rename_i hi
        cases hs
        exact .delivered hr hc hi
      · cases hs
    · cases hs
  | blame p =>
    obtain ⟨cause, hc, hs⟩ := Option.bind_eq_some_iff.mp hs
    split at hs
    · rename_i he
      cases hs
      exact .blamed hc (Option.isNone_iff_eq_none.mp he)
    · cases hs
  | pass p =>
    simp only [step] at hs
    split at hs
    · rename_i hg
      exact pass_stepped hg hs
    · cases hs
  | close =>
    cases hs
    rcases Option.eq_none_or_eq_some h.err with he | ⟨cause, he⟩
    · rw [he]
      exact .closed he
    · have hkept : { h with err := h.err.or (some .closed) } = h := by
        rw [he, Option.some_or, ← he]
      rw [hkept]
      exact .closedAgain (by rw [he]; exact nofun)
  | shut =>
    simp only [step] at hs
    split at hs
    · rename_i hcond
      cases hs
      exact .shut (Option.isSome_iff_ne_none.mp hcond.1) (by simpa using hcond.2)
    · cases hs

theorem step_calls (hs : h.step m = some h') : h'.calls = h.calls ∨
    (∃ method reads, m = .start method reads ∧
      h'.calls = h.calls ++ [{ id := h.lastId + 1, method, reads }]) ∨
    ∃ k c c', h.calls[k]? = some c ∧ Turn h k c m c' ∧ h'.calls = h.calls.set k c' := by
  cases step_stepped hs with
  | start => exact .inr (.inl ⟨_, _, rfl, rfl⟩)
  | acted hc hl _ _ _ => exact .inr (.inr ⟨_, _, _, hc, .acted hl, rfl⟩)
  | registered hc hstage => exact .inr (.inr ⟨_, _, _, hc, .acted (.registered hstage), rfl⟩)
  | handed hc hstage _ => exact .inr (.inr ⟨_, _, _, hc, .acted (.handed hstage), rfl⟩)
  | left hc hstage => exact .inr (.inr ⟨_, _, _, hc, .acted (.returned hstage), rfl⟩)
  | expired hc => exact .inr (.inr ⟨_, _, _, hc, .expired, rfl⟩)
  | wrote hw hc => exact .inr (.inr ⟨_, _, _, hc, .reported hw, rfl⟩)
  | delivered hr hc hi => exact .inr (.inr ⟨_, _, _, hc, .delivered hr hi, rfl⟩)
  | passedCall hc hstage hg => exact .inr (.inr ⟨_, _, _, hc, .passed hstage hg, rfl⟩)
  | _ => exact .inl rfl

theorem step_call (hs : h.step m = some h') (hc : h'.calls[k]? = some c') :
    (∃ method reads, m = .start method reads ∧ k = h.calls.length ∧
      c' = { id := h.lastId + 1, method, reads }) ∨
    ∃ c, h.calls[k]? = some c ∧ Turn h k c m c' := by
  rcases step_calls hs with hcalls | ⟨method, reads, rfl, hcalls⟩ | ⟨j, was, now, hwas, ht, hcalls⟩
  · exact .inr ⟨c', hcalls ▸ hc, .kept⟩
  · rw [hcalls] at hc
    rcases getElem?_concat_eq_some hc with hc | ⟨hk, rfl⟩
    · exact .inr ⟨c', hc, .kept⟩
    · exact .inl ⟨method, reads, rfl, hk, rfl⟩
  · rw [hcalls] at hc
    rcases getElem?_set_eq_some hc with ⟨rfl, rfl⟩ | ⟨-, hc⟩
    · exact .inr ⟨was, hwas, ht⟩
    · exact .inr ⟨c', hc, .kept⟩

theorem length_step (hs : h.step m = some h') : h.calls.length ≤ h'.calls.length := by
  rcases step_calls hs with hcalls | ⟨method, reads, rfl, hcalls⟩ | ⟨j, was, now, -, -, hcalls⟩ <;>
    simp [hcalls]

theorem step_turn (hs : h.step m = some h') (hc : h.calls[k]? = some c) :
    ∃ c', h'.calls[k]? = some c' ∧ Turn h k c m c' := by
  have hk := (List.getElem?_eq_some_iff.mp hc).1
  have hc' := List.getElem?_eq_getElem (Nat.lt_of_lt_of_le hk (length_step hs))
  rcases step_call hs hc' with ⟨method, reads, -, rfl, -⟩ | ⟨d, hd, ht⟩
  · exact absurd hk (Nat.lt_irrefl _)
  · obtain rfl : c = d := Option.some.inj (hc.symm.trans hd)
    exact ⟨_, hc', ht⟩

theorem step_act {a : Act} {s : Stage} (hc : h.calls[k]? = some c)
    (hn : c.next h.err h.gone a = some s) :
    h.step (.act k a) = (h.put k (c.goTo s a)).affect k c a := by
  simp [step, hc, hn]

theorem run_nil (h : Hub) : h.run [] = some h := rfl

theorem run_cons (moves : List Move) (hs : h.step m = some h') :
    h.run (m :: moves) = h'.run moves := by
  simp [run, List.foldlM_cons, hs]

theorem run_concat (moves : List Move) :
    h.run (moves ++ [m]) = (h.run moves).bind (·.step m) := by
  simp only [run, List.foldlM_append, List.foldlM_cons, List.foldlM_nil]
  cases moves.foldlM step h with
  | none => rfl
  | some mid =>
    show ((mid.step m).bind fun last => some last) = mid.step m
    cases mid.step m <;> rfl

theorem run_induction {P : List Move → Hub → Prop} {h₀ : Hub} (hnil : P [] h₀)
    (hstep : ∀ moves h m h', h₀.run moves = some h → P moves h → h.step m = some h' →
      P (moves ++ [m]) h') {moves : List Move} (hrun : h₀.run moves = some h) : P moves h := by
  induction moves using List.reverseRecOn generalizing h with
  | nil =>
    cases hrun
    exact hnil
  | append_singleton moves m ih =>
    rw [run_concat] at hrun
    obtain ⟨mid, hmid, hs⟩ := Option.bind_eq_some_iff.mp hrun
    exact hstep moves mid m h hmid (ih hmid) hs

theorem run_keeps {P : Hub → Prop} (hP : ∀ {h m h'}, h.step m = some h' → P h → P h')
    {moves : List Move} (hrun : h.run moves = some h') (hh : P h) : P h' :=
  run_induction (P := fun _ => P) hh (fun _ _ _ _ _ hmid hs => hP hs hmid) hrun

end Hub

end MacroRelay
