import MacroRelay.Text.Basic

/-!
# Edit distance

The least number of bytes to insert, delete or replace to make one text of another.
-/

namespace MacroRelay.Text

/-- One row of the table from the row before it: `left` is the entry to the left, `diagonal`
the one above that. -/
def distanceRow (c : UInt8) : (left diagonal : Nat) → List Nat → Text → List Nat
  | left, diagonal, above :: row, d :: rest =>
    let here := if c = d then diagonal else min (min left above) diagonal + 1
    left :: distanceRow c here above row rest
  | left, _, _, _ => [left]

def distanceRows (t : Text) : Text → List Nat → List Nat
  | [], row => row
  | c :: rest, row =>
    match row with
    | [] => []
    | first :: above => distanceRows t rest (distanceRow c (first + 1) first above t)

def distance (s t : Text) : Nat :=
  (distanceRows t s (List.range (t.length + 1))).getLastD 0

end MacroRelay.Text
