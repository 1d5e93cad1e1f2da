import MacroRelay.Relay.Host
import MacroRelay.Trial.Network

/-!
# Trial servers as programs

A trial host knows programs by their paths. Every start makes a new server with the same
scripts.
-/

namespace MacroRelay.Network

/-- Calls as to any other server; a program comes up as a new server with one connection. -/
def host (programs : List (Text × MacroServer)) : Host Network Nat where
  dial n tree c :=
    match c.startFault? tree fun path => (programs.lookup path).isSome with
    | some fault => (n, .error fault)
    | none =>
      let server := (programs.lookup ((c.place tree).resolve c.program)).getD {}
      let (n, link) := { n with servers := n.servers ++ [server] }.dial n.servers.length
      (n, .ok link)
  call := call
  close := close

end MacroRelay.Network
