import MacroRelay.Text.Quoted

/-!
# Integers on the command line

An integer may have a sign, a base mark (`0b`, `0o`, `0x`, or a bare leading zero for eight)
and underscores between digits. It has to fit 64 bits.
-/

namespace MacroRelay.CommandLine

inductive IntegerFault where
  | malformed
  | outOfRange
deriving DecidableEq

def IntegerFault.message : IntegerFault → Text
  | .malformed => "invalid syntax"
  | .outOfRange => "value out of range"

namespace Integer

def underscore : UInt8 := 0x5F

def digit? (b : UInt8) : Option Nat :=
  if Text.isDigit b then some (b.toNat - 0x30)
  else if Text.isLower b then some (b.toNat - 0x57)
  else if Text.isUpper b then some (b.toNat - 0x37)
  else none

def base : Text → Nat × Text
  | 0x30 :: m :: d :: rest =>
    if m = 0x62 ∨ m = 0x42 then (2, d :: rest)
    else if m = 0x6F ∨ m = 0x4F then (8, d :: rest)
    else if m = 0x78 ∨ m = 0x58 then (16, d :: rest)
    else (8, m :: d :: rest)
  | 0x30 :: rest => (8, rest)
  | t => (10, t)

/-- The first fault from the left counts. -/
def magnitude (base : Nat) : Nat → Text → Except IntegerFault Nat
  | n, [] => .ok n
  | n, b :: rest =>
    if b = underscore then magnitude base n rest
    else match digit? b with
      | none => .error .malformed
      | some d =>
        if base ≤ d then .error .malformed
        else if UInt64.size ≤ n * base + d then .error .outOfRange
        else magnitude base (n * base + d) rest

/-- Every underscore has a digit or the base mark before it and a digit after it. -/
def underscoresFit (afterDigit : Bool) : Text → Bool
  | [] => true
  | [b] => b ≠ underscore
  | b :: c :: rest =>
    (b ≠ underscore || (afterDigit && c ≠ underscore)) && underscoresFit (b ≠ underscore) (c :: rest)

def isMarked : Text → Bool
  | 0x30 :: m :: _ => [0x62, 0x42, 0x6F, 0x4F, 0x78, 0x58].contains m
  | _ => false

def unsigned (t : Text) : Except IntegerFault Nat := do
  if t = [] then throw .malformed
  let (b, digits) := base t
  let n ← magnitude b 0 digits
  if underscoresFit (isMarked t) (if isMarked t then t.drop 2 else t) then return n
  else throw .malformed

def parse (t : Text) : Except IntegerFault Int := do
  match t with
  | 0x2D :: rest =>
    let n ← unsigned rest
    if Int64.minValue.toInt ≤ -n then return -n else throw .outOfRange
  | _ =>
    let n ← unsigned (if t.head? = some 0x2B then t.drop 1 else t)
    if (n : Int) ≤ Int64.maxValue.toInt then return n else throw .outOfRange

end Integer

end MacroRelay.CommandLine
