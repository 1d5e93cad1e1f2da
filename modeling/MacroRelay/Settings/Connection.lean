import MacroRelay.Duration

/-!
# Connection settings

Durations are given as text. An empty one is zero, and none may be negative.
-/

namespace MacroRelay

structure ConnectionSettings where
  maxRestarts : Int64 := 0
  backoff : Text := []
  maxBackoff : Text := []
  handshakeTimeout : Text := []
  requestTimeout : Text := []
deriving DecidableEq

structure ConnectionTimes where
  backoff : Duration
  maxBackoff : Duration
  handshakeTimeout : Duration
  requestTimeout : Duration
deriving DecidableEq

inductive ConnectionError where
  | negativeRestarts
  | unreadable (key : Text) (cause : DurationError)
  | negative (key : Text)
deriving DecidableEq

def ConnectionError.message : ConnectionError → Text
  | .negativeRestarts => "connection.max_restarts must not be negative"
  | .unreadable key cause => "connection." ++ key ++ ": " ++ cause.message
  | .negative key => "connection." ++ key ++ " must not be negative"

namespace ConnectionSettings

def time (key given : Text) : Except ConnectionError Duration :=
  if given = [] then .ok 0
  else match Duration.parse given with
    | .error cause => .error (.unreadable key cause)
    | .ok d => if d < 0 then .error (.negative key) else .ok d

/-- The first bad one of the four is reported. -/
def times (c : ConnectionSettings) : Except ConnectionError ConnectionTimes := do
  let backoff ← time "backoff" c.backoff
  let maxBackoff ← time "max_backoff" c.maxBackoff
  let handshakeTimeout ← time "handshake_timeout" c.handshakeTimeout
  let requestTimeout ← time "request_timeout" c.requestTimeout
  return { backoff, maxBackoff, handshakeTimeout, requestTimeout }

def validate (c : ConnectionSettings) : Except ConnectionError ConnectionTimes :=
  if c.maxRestarts < 0 then .error .negativeRestarts else c.times

end ConnectionSettings

end MacroRelay
