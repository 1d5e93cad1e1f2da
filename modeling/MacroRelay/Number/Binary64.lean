/-!
# Numbers of 53 significant bits

Positive numbers rounded to 53 bits, ties to even, as the arithmetic of double precision
rounds them. Exponents have no limits here: durations stay far inside the range of doubles.
-/

namespace MacroRelay

/-- The number `mantissa * 2 ^ up / 2 ^ down`; at most one of the exponents is not zero. -/
structure Binary64 where
  mantissa : Nat
  up : Nat
  down : Nat
deriving DecidableEq

namespace Binary64

/-- The quotient rounded to the nearest whole number, a half to the even neighbour. -/
def roundDiv (n d : Nat) : Nat :=
  let q := n / d
  let twice := 2 * (n % d)
  if twice < d then q
  else if d < twice then q + 1
  else q + q % 2

def scaled (n d up down : Nat) : Binary64 :=
  ⟨roundDiv (n <<< down) (d <<< up), up, down⟩

def ofRatio (n d : Nat) : Binary64 :=
  if n = 0 then ⟨0, 0, 0⟩
  else
    -- the exponent that brings the quotient between 2^52 and 2^53
    let e : Int := (Nat.log2 n : Int) - Nat.log2 d - 52
    let large := decide (d <<< (52 + e.toNat) ≤ n <<< (-e).toNat)
    let e := if large then e else e - 1
    scaled n d e.toNat (-e).toNat

def ofNat (n : Nat) : Binary64 :=
  ofRatio n 1

def shifted (a : Binary64) (up down : Nat) : Binary64 :=
  let up := a.up + up
  let down := a.down + down
  ⟨a.mantissa, up - down, down - up⟩

def mul (a b : Binary64) : Binary64 :=
  (ofNat (a.mantissa * b.mantissa)).shifted (a.up + b.up) (a.down + b.down)

def div (a b : Binary64) : Binary64 :=
  (ofRatio a.mantissa b.mantissa).shifted (a.up + b.down) (a.down + b.up)

def floor (a : Binary64) : Nat :=
  (a.mantissa <<< a.up) >>> a.down

def toUnits (a : Binary64) (places : Nat) : Nat :=
  roundDiv ((a.mantissa <<< a.up) * Nat.pow 10 places) (1 <<< a.down)

end Binary64

end MacroRelay
