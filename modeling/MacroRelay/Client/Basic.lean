import MacroRelay.Wire.Call

/-!
# A connection shared by many callers

Callers put numbered requests on one connection and wait for the response with their number.
One writer and one reader work on the connection for all of them. Everything that happens is
a move of one party; a run of the client is any sequence of possible moves.
-/

namespace MacroRelay

inductive Expiry where
  | deadline
  | cancelled
deriving DecidableEq

def Expiry.message : Expiry → Text
  | .deadline => "context deadline exceeded"
  | .cancelled => "context canceled"

inductive Cause where
  | closed
  | unreadable (fault : Pack.Fault)
  | unwritable
  | stalled (method : Text) (why : Expiry)
deriving DecidableEq

def Cause.message : Cause → Text
  | .closed => "macro server connection closed"
  | .unreadable .truncated => "read response: unexpected EOF"
  | .unreadable .malformed => "read response: msgpack: malformed data"
  | .unwritable => "write request: io: read/write on closed pipe"
  | .stalled method why => "write " ++ method ++ ": server stopped reading: " ++ why.message

inductive CallError where
  | closed (method : Text) (cause : Cause)
  | expired (method : Text) (why : Expiry)
  | remote (method message : Text)
  | undecodable (method : Text)
deriving DecidableEq

def CallError.message : CallError → Text
  | .closed method .closed => method ++ ": " ++ Cause.closed.message
  | .closed method cause => method ++ ": " ++ Cause.closed.message ++ " (" ++ cause.message ++ ")"
  | .expired method why => method ++ ": " ++ why.message
  | .remote method message => method ++ ": server error: " ++ message
  | .undecodable method => method ++ ": decode result: malformed data"

/-- The raw result of a call, absent if the response had none. -/
abbrev Outcome := Except CallError (Option Text)

inductive CallStage where
  | numbered
  | opened
  /-- It has seen its own time not run out. -/
  | admitted
  | registered
  | handed
  | written
  | returned (outcome : Outcome)

structure Call where
  id : UInt64
  method : Text
  stage : CallStage := .numbered
  expiry : Option Expiry := none
  report : Option Bool := none
  inbox : List Response := []

structure Client where
  lastId : UInt64 := 0
  pending : List UInt64 := []
  calls : List Call := []
  writer : Option UInt64 := none
  cause : Option Cause := none
  /-- Bytes that do not make a whole response yet. -/
  incoming : Text := []

inductive Move where
  | start (method : Text)
  | checkOpen (id : UInt64)
  | checkTime (id : UInt64)
  | register (id : UInt64)
  | handOver (id : UInt64)
  | wrote (well : Bool)
  | noticeWritten (id : UInt64)
  | noticeClosed (id : UInt64)
  | noticeExpiry (id : UInt64)
  | takeAnswer (id : UInt64)
  | answer (r : Response)
  | loseReader (fault : Pack.Fault)
  | close
  | expire (id : UInt64) (why : Expiry)

namespace Client

def call? (c : Client) (id : UInt64) : Option Call :=
  c.calls.find? (·.id == id)

def update (c : Client) (call : Call) : Client :=
  { c with calls := c.calls.map fun other => if other.id = call.id then call else other }

/-- A call returns and can no longer be answered. -/
def finish (c : Client) (call : Call) (outcome : Outcome) : Client :=
  { c.update { call with stage := .returned outcome } with pending := c.pending.filter (· != call.id) }

/-- Only the first cause counts. -/
def fail (c : Client) (cause : Cause) : Client :=
  { c with cause := c.cause.or (some cause) }

def outcomeOf (method : Text) (r : Response) : Outcome :=
  if r.error ≠ [] then .error (.remote method r.error) else .ok r.result

def step (c : Client) : Move → Option Client
  | .start method =>
    some { c with lastId := c.lastId + 1, calls := { id := c.lastId + 1, method } :: c.calls }
  | .checkOpen id => do
    let call ← c.call? id
    match call.stage, c.cause with
    | .numbered, some cause => some (c.finish call (.error (.closed call.method cause)))
    | .numbered, none => some (c.update { call with stage := .opened })
    | _, _ => none
  | .checkTime id => do
    let call ← c.call? id
    match call.stage, call.expiry with
    | .opened, some why => some (c.finish call (.error (.expired call.method why)))
    | .opened, none => some (c.update { call with stage := .admitted })
    | _, _ => none
  | .register id => do
    let call ← c.call? id
    match call.stage with
    | .admitted => some { c.update { call with stage := .registered } with pending := id :: c.pending }
    | _ => none
  | .handOver id => do
    let call ← c.call? id
    match call.stage, c.writer, c.cause with
    | .registered, none, none => some { c.update { call with stage := .handed } with writer := some id }
    | _, _, _ => none
  | .wrote well => do
    let call ← c.writer >>= c.call?
    let c := { c.update { call with report := some well } with writer := none }
    return if well then c else c.fail .unwritable
  | .noticeWritten id => do
    let call ← c.call? id
    match call.stage, call.report with
    | .handed, some true => some (c.update { call with stage := .written })
    | .handed, some false => some (c.finish call (.error (.closed call.method (c.cause.getD .closed))))
    | _, _ => none
  | .noticeClosed id => do
    let call ← c.call? id
    match call.stage, c.cause with
    | .registered, some cause | .handed, some cause | .written, some cause =>
      some (c.finish call (.error (.closed call.method cause)))
    | _, _ => none
  | .noticeExpiry id => do
    let call ← c.call? id
    match call.stage, call.expiry with
    | .registered, some why | .written, some why =>
      some (c.finish call (.error (.expired call.method why)))
    | .handed, some why =>
      match call.report with
      | some true => some (c.finish call (.error (.expired call.method why)))
      | some false => some (c.finish call (.error (.closed call.method (c.cause.getD .closed))))
      -- the writer is still at it: nobody reads at the other end
      | none => some ((c.fail (.stalled call.method why)).finish call (.error (.expired call.method why)))
    | _, _ => none
  | .takeAnswer id => do
    let call ← c.call? id
    match call.stage, call.inbox with
    | .written, r :: rest => some (c.finish { call with inbox := rest } (outcomeOf call.method r))
    | _, _ => none
  | .answer r =>
    let c' := { c with pending := c.pending.filter (· != r.id) }
    match c.call? r.id with
    | some call =>
      if c.pending.contains r.id then some (c'.update { call with inbox := call.inbox ++ [r] }) else some c'
    | none => some c'
  | .loseReader fault => some (c.fail (.unreadable fault))
  | .close => some (c.fail .closed)
  | .expire id why => do
    let call ← c.call? id
    return c.update { call with expiry := call.expiry.or (some why) }

/-- Makes the moves in turn; those that are not possible are passed over. -/
def perform (c : Client) (moves : List Move) : Client :=
  moves.foldl (fun c m => (c.step m).getD c) c

end Client

end MacroRelay
