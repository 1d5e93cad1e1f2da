import MacroRelay.Text.Basic

/-!
# The memo

The memo keeps the answers to the most recent keys, most recent first. Looking an answer up
makes its key the most recent one; when there is no room the least recent key goes.
-/

namespace MacroRelay

structure Memo (κ α : Type) where
  capacity : Nat
  entries : List (κ × α) := []

namespace Memo

variable {κ α : Type} [DecidableEq κ]

def without (entries : List (κ × α)) (key : κ) : List (κ × α) :=
  entries.filter fun (k, _) => k ≠ key

def get? (m : Memo κ α) (key : κ) : Option (α × Memo κ α) :=
  (m.entries.lookup key).map fun a => (a, { m with entries := (key, a) :: without m.entries key })

def insert (m : Memo κ α) (key : κ) (a : α) : Memo κ α :=
  { m with entries := ((key, a) :: without m.entries key).take m.capacity }

def clear (m : Memo κ α) : Memo κ α :=
  { m with entries := [] }

end Memo

end MacroRelay
