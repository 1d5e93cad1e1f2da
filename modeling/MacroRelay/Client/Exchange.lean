import MacroRelay.Client.Basic

/-!
# One call after another

With a single caller the moves come in a fixed order: the request goes out, bytes come in,
and the call returns with the response, with the loss of the connection, or when its time is
up.
-/

namespace MacroRelay.Client

/-- Takes whole responses off the front of what has come in. -/
def digest (fuel : Nat) (c : Client) : Client :=
  match fuel with
  | 0 => c
  | fuel + 1 =>
    if c.cause.isSome ∨ c.incoming = [] then c
    else match Response.codec.readValue c.incoming with
      | .ok (r, rest) => digest fuel ({ c with incoming := rest }.perform [.answer r])
      | .error .truncated => c
      | .error .malformed => c.perform [.loseReader .malformed]

def receive (c : Client) (bytes : Text) : Client :=
  let incoming := c.incoming ++ bytes
  digest incoming.length { c with incoming }

/-- What is wrong with bytes that nothing follows any more. An array whose size is cut off is
taken for anything but a record. -/
def faultAtEnd (incoming : Text) : Pack.Fault :=
  match incoming, Pack.readCount .array incoming with
  | code :: _, .error .truncated =>
    if (Pack.Family.array.sizeBytes? code).isSome then .malformed else .truncated
  | _, _ => .truncated

def hangUp (c : Client) : Client :=
  c.perform [.loseReader (faultAtEnd c.incoming)]

def close (c : Client) : Client :=
  c.perform [.close]

/-- Starts a call and brings it as far as the writer. Its number comes with it. -/
def begin (c : Client) (method : Text) (expiry : Option Expiry) : Client × UInt64 :=
  let id := c.lastId + 1
  (c.perform ([.start method] ++ (expiry.map (Move.expire id)).toList ++
    [.checkOpen id, .checkTime id, .register id, .handOver id]), id)

/-- Whether the writer holds the request of a call. -/
def isSending (c : Client) (id : UInt64) : Bool :=
  c.writer == some id

def sent (c : Client) (id : UInt64) : Client :=
  c.perform [.wrote true, .noticeWritten id]

/-- The caller looks for an answer first and for the loss of the connection then. -/
def settle (c : Client) (id : UInt64) : Client :=
  c.perform [.takeAnswer id, .noticeClosed id]

def giveUp (c : Client) (id : UInt64) (why : Expiry) : Client :=
  c.perform [.expire id why, .noticeExpiry id]

def timeOut (c : Client) (id : UInt64) : Client :=
  c.giveUp id .deadline

def outcome? (c : Client) (id : UInt64) : Option Outcome := do
  match (← c.call? id).stage with
  | .returned outcome => some outcome
  | _ => none

/-- How a call ended; one that nobody answered ends with its time. -/
def outcome (c : Client) (id : UInt64) : Outcome :=
  match c.outcome? id, c.call? id with
  | some outcome, _ => outcome
  | none, some call => .error (.expired call.method .deadline)
  | none, none => .error (.expired [] .deadline)

inductive Frame where
  | bytes : Text → Frame
  | hangUp

def Frame.deliver (c : Client) : Frame → Client
  | .bytes t => c.receive t
  | .hangUp => c.hangUp

def hear (c : Client) (id : UInt64) (frames : List Frame) : Client :=
  frames.foldl (fun c f => (Frame.deliver c f).settle id) (c.settle id)

def await (c : Client) (id : UInt64) (frames : List Frame) : Client :=
  (c.hear id frames).timeOut id

end MacroRelay.Client
