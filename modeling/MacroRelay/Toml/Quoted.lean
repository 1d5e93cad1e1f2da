import MacroRelay.Text.Utf8
import MacroRelay.Toml.Scalar

/-!
# Quoted text

Text in double quotes has escapes, text in single quotes has none, and either kind may run
over several lines between three quotes.
-/

namespace MacroRelay.Toml

def doubleQuote : UInt8 := 0x22

def singleQuote : UInt8 := 0x27

def backslash : UInt8 := 0x5C

def isLineEnd (b : UInt8) : Bool := b == 0x0A || b == 0x0D

def scalarEscape? (count : Nat) (t : Text) : Option Text :=
  let digits := t.take count
  let n := digitsValue 16 digits
  if digits.length = count ∧ digits.all isHexDigit ∧ (n < 0xD800 ∨ 0xE000 ≤ n) ∧ n < 0x110000 then
    some (Text.ofScalar n)
  else none

/-- What an escape stands for, and how many bytes after the backslash it takes. -/
def escape? (mark : UInt8) (rest : Text) : Option (Text × Nat) :=
  match mark with
  | 0x62 => some ([0x08], 1)
  | 0x74 => some ([0x09], 1)
  | 0x6E => some ([0x0A], 1)
  | 0x66 => some ([0x0C], 1)
  | 0x72 => some ([0x0D], 1)
  | 0x22 => some ([0x22], 1)
  | 0x5C => some ([0x5C], 1)
  | 0x75 => (scalarEscape? 4 rest).map (·, 5)
  | 0x55 => (scalarEscape? 8 rest).map (·, 9)
  | _ => none

/-- Replaces the escapes; `skip` counts bytes of an escape that are still to be passed. -/
def unescape (skip : Nat) : Text → Option Text
  | [] => some []
  | b :: rest =>
    match skip with
    | skip + 1 => unescape skip rest
    | 0 =>
      if b = backslash then do
        let mark ← rest.head?
        let (meant, length) ← escape? mark rest.tail
        return meant ++ (← unescape length rest)
      else return b :: (← unescape 0 rest)

/-- The text up to a closing quote on the same line, as written, and the rest after it. -/
def closeLine (quote : UInt8) (escapes : Bool) : Text → Option (Text × Text)
  | [] => none
  | b :: rest =>
    if b = quote then some ([], rest)
    else if isLineEnd b then none
    else if escapes ∧ b = backslash then
      match rest with
      | [] => none
      | mark :: rest =>
        if isLineEnd mark then none
        else (closeLine quote escapes rest).map fun (text, after) => (b :: mark :: text, after)
    else (closeLine quote escapes rest).map fun (text, after) => (b :: text, after)

def line? (t : Text) : Option (Text × Text) :=
  match t with
  | 0x22 :: rest => do
    let (written, after) ← closeLine doubleQuote true rest
    return (← unescape 0 written, after)
  | 0x27 :: rest => closeLine singleQuote false rest
  | _ => none

/-- The text up to three closing quotes. Up to two more quotes may stand directly in front of
those; `before` is what has been passed, last byte first. A backslash in front of five quotes
lets one more quote through. -/
def closeBlock (quote : UInt8) (escapes : Bool) (before : Text) : Text → Option (Text × Text)
  | [] => none
  | b :: rest =>
    if b = quote then
      match rest with
      | c :: d :: after =>
        if c = quote ∧ d = quote then
          if after.head? = some quote then
            let full := before.take 2 == [quote, quote]
            let excused := escapes && (before.drop 2).head? == some backslash
            if full && !excused then none else closeBlock quote escapes (b :: before) rest
          else some (before.reverse, after)
        else closeBlock quote escapes (b :: before) rest
      | _ => closeBlock quote escapes (b :: before) rest
    else if escapes ∧ b = backslash then
      match rest with
      | [] => none
      | mark :: rest => closeBlock quote escapes (mark :: b :: before) rest
    else closeBlock quote escapes (b :: before) rest

/-- A line end right after the opening quotes does not count. -/
def dropFirstLineEnd : Text → Text
  | 0x0A :: rest => rest
  | 0x0D :: 0x0A :: rest => rest
  | t => t

def isLayout (b : UInt8) : Bool := b == 0x20 || b == 0x09 || isLineEnd b

/-- A backslash at the end of a line goes away with all blanks and line ends after it. `skip`
counts bytes still to be passed over, and `literal` keeps the second half of an escaped
backslash. -/
def joinLines (skip : Nat) (literal : Bool) : Text → Text
  | [] => []
  | b :: rest =>
    match skip with
    | skip + 1 => joinLines skip false rest
    | 0 =>
      let blanks := rest.takeWhile isLayout
      if b ≠ backslash ∨ literal then b :: joinLines 0 false rest
      else if blanks.contains Text.newline then joinLines blanks.length false rest
      else b :: joinLines 0 (rest.head? == some backslash) rest

def block? (t : Text) : Option (Text × Text) :=
  match t with
  | 0x22 :: 0x22 :: 0x22 :: rest => do
    let (written, after) ← closeBlock doubleQuote true [] rest
    return (← unescape 0 (joinLines 0 false (dropFirstLineEnd written)), after)
  | 0x27 :: 0x27 :: 0x27 :: rest => do
    let (written, after) ← closeBlock singleQuote false [] rest
    return (dropFirstLineEnd written, after)
  | _ => none

def quoted? (t : Text) : Option (Text × Text) :=
  match t with
  | a :: b :: c :: _ => if a = b ∧ b = c then block? t else line? t
  | _ => line? t

end MacroRelay.Toml
