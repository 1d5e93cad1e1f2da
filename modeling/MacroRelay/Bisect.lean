/-!
# Search by halving

Both tables of line feeds and lists of names are searched by cutting a range of places in half until
nothing is left of it.
-/

namespace MacroRelay

/-- The first place from `low` on that is not `below`, or `high` if there is none. -/
def bisect (below : Nat → Bool) (low high : Nat) : Nat :=
  if low < high then
    let middle := (low + high) / 2
    if below middle then bisect below (middle + 1) high
    else bisect below low middle
  else low
termination_by high - low

end MacroRelay
