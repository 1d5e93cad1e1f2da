import MacroRelay.Supervisor
import MacroRelay.Trial.Network

/-!
# A supervisor with scripted servers

Every attempt has its own server or fails to reach one. Once connected, the server either
drops the connection or stays until the supervisor is stopped.
-/

namespace MacroRelay

structure Attempt where
  dialFault : Option Text := none
  server : MacroServer := {}
  stays : Bool := false

structure Connection where
  handshake : Gen2.HandshakeResult
  restarts : Nat

structure Supervision where
  supervisor : Supervisor Nat
  network : Network := {}
  clientVersion : Text := []
  /-- The attempts to come; the last one repeats. -/
  attempts : List Attempt := []
  dials : List (Option Nat) := []
  connections : List Connection := []
  /-- Stops after this many restarts; zero means never. -/
  stopAfterRestarts : Nat := 0
  /-- Stops when the server of this dial has been greeted; zero means never. -/
  stopInHandshake : Nat := 0

namespace Supervision

def perform (v : Supervision) (moves : List (SupervisorMove Nat)) : Supervision :=
  let supervisor := v.supervisor.perform moves
  { v with supervisor, network := supervisor.closed.foldl Network.close v.network }

def nextAttempt (v : Supervision) : Supervision × Attempt :=
  match v.attempts with
  | [] => (v, {})
  | [a] => (v, a)
  | a :: rest => ({ v with attempts := rest }, a)

def serve (v : Supervision) (server link : Nat) (stays : Bool) : Supervision :=
  let now : Connection := ⟨v.supervisor.handshake, v.supervisor.restarts⟩
  let v := { v with connections := v.connections ++ [now] }
  if stays then v.perform [.cancel, .noticeCancel]
  else
    let v := { v with network := v.network.kill server }
    v.perform [.lost (((v.network.client? link).bind (·.cause)).getD .closed)]

def greet (v : Supervision) (server link : Nat) (stays : Bool) : Supervision :=
  let interrupted := v.stopInHandshake = v.dials.length
  let (network, outcome) := v.network.callUntil (if interrupted then .cancelled else .deadline) link
    Method.handshake.name (Gen2.HandshakeRequest.codec.write (greeting v.clientVersion))
  let v := { v with network }
  let v := if interrupted then v.perform [.cancel] else v
  match Gen2.HandshakeResult.ofOutcome outcome with
  | .error fault => v.perform [.unanswered fault]
  | .ok answer => (v.perform [.answered answer, .publish]).serve server link stays

/-- One attempt, up to the wait for the next or to the end. -/
def round (v : Supervision) : Supervision :=
  let (v, a) := v.nextAttempt
  match a.dialFault with
  | some message => { v with dials := v.dials ++ [none] }.perform [.dialFailed message]
  | none =>
    let server := v.network.servers.length
    let (network, link) := { v.network with servers := v.network.servers ++ [a.server] }.dial server
    ({ v with network, dials := v.dials ++ [some server] }.perform [.dialed link]).greet server link a.stays

/-- No more rounds than attempts are allowed. -/
def rounds : Nat → Supervision → Supervision
  | 0, v => v
  | n + 1, v =>
    let v := v.round
    match v.supervisor.phase with
    | .resting _ =>
      if v.stopAfterRestarts ≠ 0 ∧ v.stopAfterRestarts ≤ v.supervisor.restarts
      then v.perform [.cancel, .noticeCancel] else rounds n (v.perform [.rested])
    | _ => v

def run (v : Supervision) : Supervision :=
  v.rounds (v.supervisor.policy.maxRestarts.toInt.toNat + 1)

def requests (v : Supervision) : List (Option (List Request)) :=
  v.dials.map fun dial => dial.map fun server => (v.network.servers[server]?.map (·.received.toList)).getD []

end Supervision

end MacroRelay
