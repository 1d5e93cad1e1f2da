import MacroRelay.Text.Basic
import MacroRelay.Toml.Syntax

/-!
# Numbers and dates

A number or date is cut out by the bytes that may occur in it and checked afterwards.
Underscores stand between digits, whole numbers have 64 bits, and a float too large for
double precision is refused.
-/

namespace MacroRelay.Toml

def isHexDigit (b : UInt8) : Bool :=
  Text.isDigit b || (0x61 ≤ b && b ≤ 0x66) || (0x41 ≤ b && b ≤ 0x46)

def hexValue (b : UInt8) : Nat :=
  if Text.isDigit b then b.toNat - 0x30 else b.toNat % 0x20 + 9

/-- Every underscore follows a digit, and a digit comes last. The letters up to `f` count as
digits. -/
def underscoresFit (t : Text) : Bool :=
  let (fits, digit) := t.foldl (fun (fits, digit) b =>
    (fits && (b != 0x5F || digit), isHexDigit b)) (true, false)
  fits && digit

/-- A zero in front of further digits, unless it starts a base mark. -/
def hasLeadingZero (t : Text) : Bool :=
  match t with
  | 0x30 :: b :: _ => !(b == 0x62 || b == 0x6F || b == 0x78)
  | s :: 0x30 :: _ :: _ => s == 0x2D || s == 0x2B
  | _ => false

def isUnderscore (b : UInt8) : Bool := b == 0x5F

def digitsValue (base : Nat) (t : Text) : Nat :=
  t.foldl (fun n b => n * base + hexValue b) 0

/-- The value of digits that count, unless there are more of them than 64 bits can need. -/
def digitsValue? (base : Nat) (t : Text) : Option Nat :=
  let digits := t.dropWhile (· == 0x30)
  if digits.length ≤ 64 then some (digitsValue base digits) else none

/-- The value of a whole number whose digits have been checked. -/
def wholeValue? (t : Text) : Option Int :=
  match t.filter (!isUnderscore ·) with
  | 0x30 :: 0x78 :: digits => (digitsValue? 16 digits).map Int.ofNat
  | 0x30 :: 0x6F :: digits => (digitsValue? 8 digits).map Int.ofNat
  | 0x30 :: 0x62 :: digits => (digitsValue? 2 digits).map Int.ofNat
  | 0x2D :: digits => (digitsValue? 10 digits).map fun n => -(Int.ofNat n)
  | 0x2B :: digits => (digitsValue? 10 digits).map Int.ofNat
  | digits => (digitsValue? 10 digits).map Int.ofNat

def integer? (t : Text) : Option Expr := do
  guard (underscoresFit t ∧ !hasLeadingZero t)
  let n ← wholeValue? t
  guard (Int64.minValue.toInt ≤ n ∧ n ≤ Int64.maxValue.toInt)
  return .integer n

def isExponentMark (b : UInt8) : Bool := b == 0x65 || b == 0x45

/-- Cuts at every point and exponent mark. -/
def floatParts (t : Text) : List Text :=
  (t.splitBy fun a b => !(a == 0x2E || isExponentMark a) && !(b == 0x2E || isExponentMark b)).filter
    fun part => part.any fun b => !(b == 0x2E || isExponentMark b)

/-- The digits of an exponent, up to the one that takes it to ten thousand or more. -/
def exponentValue (t : Text) : Nat :=
  t.foldl (fun e b => if e < 10000 then e * 10 + hexValue b else e) 0

/-- The least whole number that rounds to no finite one. It has as many digits as
`largestDigits` says. -/
def overflow : Nat := Nat.pow 2 1024 - Nat.pow 2 970

def largestDigits : Nat := 309

/-- Whether the decimal with these digits in front of and behind its point, times ten to the
exponent, rounds to a finite number. -/
def isFinite (whole fraction : Text) (exponent : Int) : Bool :=
  let digits := (whole ++ fraction).dropWhile (· == 0x30)
  -- how many of the digits stand in front of the point in the end
  let front : Int := digits.length - fraction.length + exponent
  let leading := (digits ++ List.replicate largestDigits 0x30).take largestDigits
  digits.isEmpty || front < largestDigits || (front == largestDigits && digitsValue 10 leading < overflow)

/-- Sign, digits, an optional fraction and an optional exponent, in range. -/
def isDecimal (t : Text) : Bool :=
  let unsigned := if t.head? = some 0x2D ∨ t.head? = some 0x2B then t.drop 1 else t
  let whole := unsigned.takeWhile Text.isDigit
  let rest := unsigned.dropWhile Text.isDigit
  let fraction := if rest.head? = some 0x2E then (rest.drop 1).takeWhile Text.isDigit else []
  let rest := if rest.head? = some 0x2E then (rest.drop 1).dropWhile Text.isDigit else rest
  whole != [] && match rest with
    | [] => isFinite whole fraction 0
    | mark :: power =>
      let digits := if power.head? = some 0x2D ∨ power.head? = some 0x2B then power.drop 1 else power
      let exponent : Int := exponentValue digits
      isExponentMark mark && digits != [] && digits.all Text.isDigit &&
        isFinite whole fraction (if power.head? = some 0x2D then -exponent else exponent)

def pointsFit : Text → Bool
  | [] => true
  | 0x2E :: rest => (rest.head?.any Text.isDigit) && pointsFit rest
  | _ :: rest => pointsFit rest

def float? (t : Text) : Option Expr :=
  let parts := floatParts t
  if parts.all underscoresFit ∧ !(parts.head?.any hasLeadingZero) ∧ pointsFit t ∧
      isDecimal (t.filter (!isUnderscore ·)) then some (.float t)
  else none

def daysIn (year month : Nat) : Nat :=
  if month = 2 then if year % 4 = 0 ∧ (year % 100 ≠ 0 ∨ year % 400 = 0) then 29 else 28
  else if [4, 6, 9, 11].contains month then 30
  else 31

def twoDigits? : Text → Option (Nat × Text)
  | a :: b :: rest =>
    if Text.isDigit a ∧ Text.isDigit b then some (hexValue a * 10 + hexValue b, rest) else none
  | _ => none

def hour? (t : Text) : Option (Nat × Text) :=
  match twoDigits? t with
  | some found => some found
  | none => match t with
    | a :: rest => if Text.isDigit a then some (hexValue a, rest) else none
    | [] => none

def mark? (b : UInt8) (t : Text) : Option Text :=
  if t.head? = some b then some t.tail else none

def date? (t : Text) : Option Text := do
  let year := t.take 4
  guard (year.length = 4 ∧ year.all Text.isDigit)
  let (month, rest) ← twoDigits? (← mark? 0x2D (t.drop 4))
  let (day, rest) ← twoDigits? (← mark? 0x2D rest)
  guard (1 ≤ month ∧ month ≤ 12 ∧ 1 ≤ day ∧ day ≤ daysIn (digitsValue 10 year) month)
  return rest

def time? (t : Text) : Option Text := do
  let (hour, rest) ← hour? t
  let (minute, rest) ← twoDigits? (← mark? 0x3A rest)
  let (second, rest) ← twoDigits? (← mark? 0x3A rest)
  guard (hour < 24 ∧ minute < 60 ∧ second < 60)
  match rest with
  | 0x2E :: digit :: more =>
    if Text.isDigit digit then return more.dropWhile Text.isDigit else return rest
  | _ => return rest

def zone? (t : Text) : Option Text :=
  match t with
  | 0x5A :: rest => some rest
  | sign :: rest => do
    guard (sign = 0x2B ∨ sign = 0x2D)
    let (hours, rest) ← twoDigits? rest
    let (minutes, rest) ← twoDigits? (← mark? 0x3A rest)
    guard (hours ≤ 24 ∧ minutes ≤ 60)
    return rest
  | [] => none

/-- A date, a time, or both with or without a zone. -/
def isDatetime (t : Text) : Bool :=
  match date? t with
  | some [] => true
  | some rest => match mark? 0x54 rest >>= time? with
    | some [] => true
    | some zone => zone? zone == some []
    | none => false
  | none => time? t == some []

/-- A small letter or a blank may stand for the mark between date and time. -/
def datetime? (t : Text) : Option Expr :=
  let trimmed := (t.reverse.dropWhile (· == 0x20)).reverse
  let marked := trimmed.map fun b => if b = 0x7A then 0x5A else if b = 0x74 ∨ b = 0x20 then 0x54 else b
  if isDatetime marked then some (.datetime marked) else none

def isFloatByte (b : UInt8) : Bool :=
  Text.isDigit b || isUnderscore b || isExponentMark b || b == 0x2E || b == 0x2D || b == 0x2B

def isDateByte (b : UInt8) : Bool :=
  Text.isDigit b || [0x2D, 0x3A, 0x54, 0x74, 0x20, 0x2E, 0x5A, 0x7A, 0x2B].contains b

/-- Reads with `check` what `take` keeps of the text. -/
def cut? (take : Text → Text) (check : Text → Option Expr) (t : Text) : Option (Expr × Text) :=
  let item := take t
  (check item).map fun e => (e, t.drop item.length)

def afterDigits (t : Text) : Option UInt8 :=
  (t.dropWhile fun b => Text.isDigit b || isUnderscore b).head?

/-- A decimal number that cannot be a date; a sign may stand in front. -/
def decimal? (t : Text) : Option (Expr × Text) :=
  let signed := (t.take 1).filter (fun b => b == 0x2D || b == 0x2B)
  let body := t.drop signed.length
  match afterDigits body with
  | some b =>
    if b == 0x2E || isExponentMark b then cut? (fun t => signed ++ (t.drop signed.length).takeWhile isFloatByte) float? t
    else whole signed
  | none => whole signed
where
  whole (signed : Text) : Option (Expr × Text) :=
    cut? (fun t => signed ++ (t.drop signed.length).takeWhile
      fun b => Text.isDigit b || isUnderscore b) integer? t

/-- A number in the base of its mark. At least one digit follows the mark. -/
def based? (isBaseDigit : UInt8 → Bool) (t : Text) : Option (Expr × Text) :=
  if (t.drop 2).head?.any isBaseDigit then
    cut? (fun t => t.take 2 ++ (t.drop 2).takeWhile fun b => isBaseDigit b || isUnderscore b) integer? t
  else none

def special? (word : Text) (t : Text) : Option (Expr × Text) :=
  if word.isPrefixOf t then some (.float word, t.drop word.length) else none

/-- A number or date that starts with a digit. -/
def unsigned? (t : Text) : Option (Expr × Text) :=
  match t with
  | 0x30 :: 0x78 :: _ => based? isHexDigit t
  | 0x30 :: 0x6F :: _ => based? (fun b => 0x30 ≤ b && b ≤ 0x37) t
  | 0x30 :: 0x62 :: _ => based? (fun b => b == 0x30 || b == 0x31) t
  | 0x30 :: 0x2D :: _ | 0x30 :: 0x3A :: _ => none
  | _ => match (t.dropWhile Text.isDigit).head? with
    | some 0x2D | some 0x3A => cut? (·.takeWhile isDateByte) datetime? t
    | _ => decimal? t

/-- A number after its sign. -/
def signed? (t : Text) : Option (Expr × Text) :=
  let body := t.drop 1
  let based := body.head? = some 0x30 ∧ ((body.drop 1).head?.any fun b => b == 0x62 || b == 0x6F || b == 0x78)
  if body.head?.any Text.isDigit ∧ ¬based then decimal? t
  else (special? "inf" body <|> special? "nan" body).map fun (_, rest) =>
    (.float (t.take 4), rest)

def boolean? (t : Text) : Option (Expr × Text) :=
  if (Text.ofString "true").isPrefixOf t then some (.boolean true, t.drop 4)
  else if (Text.ofString "false").isPrefixOf t then some (.boolean false, t.drop 5)
  else none

def scalar? (t : Text) : Option (Expr × Text) :=
  match t.head? with
  | none => none
  | some b =>
    if Text.isDigit b then unsigned? t
    else if b = 0x2D ∨ b = 0x2B then signed? t
    else boolean? t <|> special? "inf" t <|> special? "nan" t

end MacroRelay.Toml
