/-!
# Byte text

Text is a list of bytes. Source files may hold any bytes at all and every offset counts
bytes, so nothing here assumes that text is well-formed UTF-8.
-/

namespace MacroRelay

abbrev Text := List UInt8

namespace Text

def ofScalar (n : Nat) : Text :=
  if n < 0x80 then [n.toUInt8]
  else if n < 0x800 then [(0xC0 + n / 0x40).toUInt8, (0x80 + n % 0x40).toUInt8]
  else if n < 0x10000 then
    [(0xE0 + n / 0x1000).toUInt8, (0x80 + n / 0x40 % 0x40).toUInt8, (0x80 + n % 0x40).toUInt8]
  else
    [(0xF0 + n / 0x40000).toUInt8, (0x80 + n / 0x1000 % 0x40).toUInt8,
      (0x80 + n / 0x40 % 0x40).toUInt8, (0x80 + n % 0x40).toUInt8]

def ofString (s : String) : Text :=
  s.toList.flatMap fun c => ofScalar c.toNat

instance : Coe String Text := ⟨ofString⟩

def newline : UInt8 := 0x0A

def decimal (n : Nat) : Text :=
  (Nat.toDigits 10 n).map fun c => c.toNat.toUInt8

def decimalInt : Int → Text
  | .ofNat n => decimal n
  | .negSucc n => "-" ++ decimal (n + 1)

def hexDigit (n : Nat) : UInt8 :=
  if n < 10 then (0x30 + n).toUInt8 else (0x57 + n).toUInt8

def hexByte (b : UInt8) : Text :=
  [hexDigit (b.toNat / 16), hexDigit (b.toNat % 16)]

def hex (t : Text) : Text :=
  t.flatMap hexByte

def hexPadded (width n : Nat) : Text :=
  (List.range width).reverse.map fun i => hexDigit ((n >>> (4 * i)) % 16)

def decimalPadded (width n : Nat) : Text :=
  let digits := decimal n
  List.replicate (width - digits.length) 0x30 ++ digits

/-- The parts with `separator` between neighbours. -/
def joined (separator : Text) (parts : List Text) : Text :=
  List.intercalate separator parts

/-- Cuts at every occurrence of a byte; there is always one part more than cuts. -/
def splitAt (b : UInt8) (t : Text) : List Text :=
  let (last, parts) := t.foldr (fun c (current, parts) =>
    if c = b then ([], current :: parts) else (c :: current, parts)) (([] : Text), [])
  last :: parts

def isDigit (b : UInt8) : Bool := 0x30 ≤ b && b ≤ 0x39

def isLower (b : UInt8) : Bool := 0x61 ≤ b && b ≤ 0x7A

def isUpper (b : UInt8) : Bool := 0x41 ≤ b && b ≤ 0x5A

def contains (t part : Text) : Bool :=
  (List.range (t.length + 1)).any fun i => part.isPrefixOf (t.drop i)

end Text

end MacroRelay
