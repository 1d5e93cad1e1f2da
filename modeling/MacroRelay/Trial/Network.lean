import MacroRelay.Client.Exchange
import MacroRelay.Trial.Server

/-!
# Connections to trial servers

A network holds servers and the clients connected to them, and carries calls from end to end.
-/

namespace MacroRelay

structure Network where
  servers : List MacroServer := []
  links : List (Nat × Client) := []

namespace Network

def dial (n : Network) (server : Nat) : Network × Nat :=
  ({ n with links := n.links ++ [(server, {})] }, n.links.length)

def client? (n : Network) (link : Nat) : Option Client :=
  n.links[link]?.map (·.2)

def setClient (n : Network) (link : Nat) (c : Client) : Network :=
  { n with links := n.links.modify link fun (server, _) => (server, c) }

def kill (n : Network) (server : Nat) : Network :=
  { n with links := n.links.map fun (s, c) => (s, if s = server then c.hangUp else c) }

def close (n : Network) (link : Nat) : Network :=
  { n with links := n.links.modify link fun (server, c) => (server, c.close) }

/-- Carries one call over a connection to its end; without an answer it ends as told. -/
def callUntil (why : Expiry) (n : Network) (link : Nat) (method : Text) (params : Text) :
    Network × Outcome :=
  match n.links[link]? with
  | none => (n, .error (.closed method .closed))
  | some (server, c) =>
    let (c, id) := c.begin method none
    if !c.isSending id then
      let c := c.settle id
      (n.setClient link c, c.outcome id)
    else
      let c := c.sent id
      let request : Request := ⟨id, method, if params = [Pack.nil] then none else some params⟩
      let (s, reply) := (n.servers[server]?.getD {}).handle request
      let n := { n.setClient link c with servers := n.servers.set server s }
      let respond (r : Response) := n.setClient link (c.receive (Response.codec.write r))
      let n := match reply with
        | .result t => respond { id, result := some t }
        | .failure message => respond { id, error := message }
        | .silence => n
        | .hangUp => n.kill server
      let c := (((n.client? link).getD c).hear id []).giveUp id why
      (n.setClient link c, c.outcome id)

def call (n : Network) (link : Nat) (method : Text) (params : Text) : Network × Outcome :=
  n.callUntil .deadline link method params

end Network

end MacroRelay
