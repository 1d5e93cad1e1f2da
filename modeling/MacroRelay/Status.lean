import MacroRelay.Text.Basic

/-!
# The status of the connection

A cell publishes whether the server can be used. It starts out pending, may be connected
again after every restart, and never leaves `crashed`.
-/

namespace MacroRelay

/-- `κ` is what a connection is reached by. -/
inductive Status (κ : Type) where
  | pending
  | connected (client : κ)
  | crashed
deriving DecidableEq

inductive StatusFault where
  | noClient
deriving DecidableEq

def StatusFault.message : StatusFault → Text
  | .noClient => "status: Connected with nil client"

namespace Status

def ofClient? : Option κ → Except StatusFault (Status κ)
  | some c => .ok (.connected c)
  | none => .error .noClient

def isPending : Status κ → Bool
  | .pending => true
  | _ => false

def isCrashed : Status κ → Bool
  | .crashed => true
  | _ => false

def client? : Status κ → Option κ
  | .connected c => some c
  | _ => none

def name : Status κ → Text
  | .pending => "pending"
  | .connected _ => "connected"
  | .crashed => "crashed"

end Status

/-- Nothing is stored before the first status is set. -/
abbrev StatusCell (κ : Type) := Option (Status κ)

namespace StatusCell

def load (cell : StatusCell κ) : Status κ := cell.getD .pending

def admits (cell : StatusCell κ) (next : Status κ) : Bool :=
  match cell with
  | none => true
  | some current => !(current.isCrashed || next.isPending)

/-- The cell afterwards and whether the status took effect. -/
def set (cell : StatusCell κ) (next : Status κ) : StatusCell κ × Bool :=
  if cell.admits next then (some next, true) else (cell, false)

end StatusCell

end MacroRelay
