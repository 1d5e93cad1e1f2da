import MacroRelay.Text.Printable
import MacroRelay.Text.Utf8

/-!
# Quoted text

Text in double quotes on one line. Printable characters stand for themselves, all others are
escaped, and a byte that belongs to no character is written by its value, so that quoting
loses nothing.
-/

namespace MacroRelay.Text

def escapedScalar (n : Nat) : Text :=
  if n = 0x22 ∨ n = 0x5C then [0x5C, n.toUInt8]
  else if isPrintable n then ofScalar n
  else match n with
    | 0x07 => "\\a"
    | 0x08 => "\\b"
    | 0x0C => "\\f"
    | 0x0A => "\\n"
    | 0x0D => "\\r"
    | 0x09 => "\\t"
    | 0x0B => "\\v"
    | _ =>
      if n < 0x20 ∨ n = 0x7F then "\\x" ++ hexPadded 2 n
      else if n < 0x10000 then "\\u" ++ hexPadded 4 n
      else "\\U" ++ hexPadded 8 n

def escapedPiece : Utf8.Piece → Text
  | .scalar n => escapedScalar n
  | .stray b => "\\x" ++ hexByte b

def quoted (t : Text) : Text :=
  "\"" ++ (Utf8.pieces t).flatMap escapedPiece ++ "\""

end MacroRelay.Text
