import MacroRelay.Number.Binary64
import MacroRelay.Text.Basic

/-!
# Durations

A duration is a signed count of nanoseconds in 64 bits. Its text is a run of decimal numbers,
each with a unit; fractions are taken in double precision.
-/

namespace MacroRelay

abbrev Duration := Int64

inductive DurationError where
  | invalid : Text → DurationError
  | missingUnit : Text → DurationError
  | unknownUnit : Text → Text → DurationError
deriving DecidableEq

/-- In quotes, with every byte outside ASCII and every control character by its value. -/
def DurationError.quote (t : Text) : Text :=
  "\"" ++ (t.flatMap fun b =>
    if b < 0x20 ∨ 0x80 ≤ b then Text.ofString "\\x" ++ Text.hexByte b
    else if b = 0x22 ∨ b = 0x5C then [0x5C, b]
    else [b]) ++ "\""

def DurationError.message : DurationError → Text
  | .invalid whole => "time: invalid duration " ++ quote whole
  | .missingUnit whole => "time: missing unit in duration " ++ quote whole
  | .unknownUnit unit whole => "time: unknown unit " ++ quote unit ++ " in duration " ++ quote whole

namespace Duration

def millisecond : Nat := 1000000

def second : Nat := 1000000000

/-- The micro sign is accepted in both of its code points. -/
def units : List (Text × Nat) :=
  [("ns", 1), ("us", 1000), ("µs", 1000), ("μs", 1000), ("ms", millisecond), ("s", second),
    ("m", 60 * second), ("h", 3600 * second)]

def limit : Nat := 1 <<< 63

/-- The digits at the front as a number, unless it passes the limit. -/
def leadingInt? (t : Text) : Option (Nat × Text) :=
  let n? := (t.takeWhile Text.isDigit).foldlM (fun n b =>
    let next := n * 10 + (b - 0x30).toNat
    if next ≤ limit then some next else none) 0
  n?.map fun n => (n, t.dropWhile Text.isDigit)

/-- Digits of a fraction with their power of ten, which is rounded at every step. Digits that
would pass the limit are dropped. -/
def leadingFraction (t : Text) : Nat × Binary64 :=
  let (n, scale, _) := (t.takeWhile Text.isDigit).foldl (fun (n, scale, full) b =>
    let next := n * 10 + (b - 0x30).toNat
    if full || (limit - 1) / 10 < n || limit < next then (n, scale, true)
    else (next, scale.mul (.ofNat 10), false)) (0, .ofNat 1, false)
  (n, scale)

def fractionPart (fraction : Nat) (scale : Binary64) (unit : Nat) : Nat :=
  ((Binary64.ofNat fraction).mul ((Binary64.ofNat unit).div scale)).floor

def isNumberByte (b : UInt8) : Bool :=
  b == 0x2E || Text.isDigit b

/-- Adds up the number-and-unit pairs of `t` in 64 bits, where twice the limit is nothing. Each
round takes a unit, so `t` gets shorter; `fuel` bounds the rounds. -/
def parseTerms (whole : Text) (fuel : Nat) (total : UInt64) (t : Text) : Except DurationError UInt64 :=
  match fuel, t with
  | _, [] => .ok total
  | 0, _ => .error (.invalid whole)
  | fuel + 1, b :: rest =>
    if !isNumberByte b then .error (.invalid whole)
    else match leadingInt? (b :: rest) with
      | none => .error (.invalid whole)
      | some (n, afterInt) =>
        let fractional := if afterInt.head? = some 0x2E then afterInt.drop 1 else []
        let (fraction, scale) := leadingFraction fractional
        let afterNumber := if afterInt.head? = some 0x2E then fractional.dropWhile Text.isDigit
          else afterInt
        if !Text.isDigit b && !fractional.head?.any Text.isDigit then .error (.invalid whole)
        else
          let unit := afterNumber.takeWhile fun c => !isNumberByte c
          if unit = [] then .error (.missingUnit whole)
          else match units.lookup unit with
            | none => .error (.unknownUnit unit whole)
            | some size =>
              if limit / size < n then .error (.invalid whole)
              else
                let term := n * size + if fraction = 0 then 0 else fractionPart fraction scale size
                let next := total + term.toUInt64
                if limit < term ∨ limit < next.toNat then .error (.invalid whole)
                else parseTerms whole fuel next (afterNumber.dropWhile fun c => !isNumberByte c)

/-- Reads a duration such as `1h2.5s`, with an optional sign. A plain `0` needs no unit. -/
def parse (whole : Text) : Except DurationError Duration :=
  let negative := whole.head? = some 0x2D
  let t := if negative ∨ whole.head? = some 0x2B then whole.drop 1 else whole
  if t = Text.ofString "0" then .ok 0
  else if t = [] then .error (.invalid whole)
  else do
    let total ← parseTerms whole t.length 0 t
    let n := total.toNat
    if negative then return Int64.ofInt (-n)
    else if n < limit then return Int64.ofInt n
    else throw (.invalid whole)

/-- A count of `1 / 10 ^ places` as a decimal without trailing zeros. -/
def decimalWithin (n places : Nat) : Text :=
  let fraction := (Text.decimalPadded places (n % Nat.pow 10 places)).reverse.dropWhile (· == 0x30)
  Text.decimal (n / Nat.pow 10 places) ++ if places = 0 ∨ fraction = [] then [] else 0x2E :: fraction.reverse

/-- Below a second in the largest unit that keeps it above one, otherwise in hours, minutes
and seconds. -/
def text (d : Duration) : Text :=
  let n := d.toInt.natAbs
  let body : Text :=
    if n = 0 then "0s"
    else if n < 1000 then Text.decimal n ++ "ns"
    else if n < millisecond then decimalWithin n 3 ++ "µs"
    else if n < second then decimalWithin n 6 ++ "ms"
    else
      let minutes := n / (60 * second)
      let hours := minutes / 60
      (if hours = 0 then [] else Text.decimal hours ++ Text.ofString "h") ++
      (if minutes = 0 then [] else Text.decimal (minutes % 60) ++ Text.ofString "m") ++
      decimalWithin (n % (60 * second)) 9 ++ "s"
  if d < 0 then "-" ++ body else body

def milliseconds (d : Duration) : Text :=
  let n := d.toInt.natAbs
  let hundredths := ((Binary64.ofNat n).div (Binary64.ofNat millisecond)).toUnits 2
  (if d < 0 then Text.ofString "-" else []) ++ Text.decimal (hundredths / 100) ++ "." ++
    Text.decimalPadded 2 (hundredths % 100) ++ " ms"

end Duration

end MacroRelay
