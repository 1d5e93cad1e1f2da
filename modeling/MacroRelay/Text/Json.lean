import MacroRelay.Text.Utf8

/-!
# JSON strings

Strings safe to embed in markup: angle brackets, the ampersand and the two line separators
are escaped as well, and a byte that belongs to no character becomes the replacement
character.
-/

namespace MacroRelay.Text

def jsonPiece : Utf8.Piece → Text
  | .stray _ => ofScalar 0xFFFD
  | .scalar n =>
    match n with
    | 0x22 => "\\\""
    | 0x5C => "\\\\"
    | 0x08 => "\\b"
    | 0x0C => "\\f"
    | 0x0A => "\\n"
    | 0x0D => "\\r"
    | 0x09 => "\\t"
    | _ =>
      if n < 0x20 ∨ n = 0x3C ∨ n = 0x3E ∨ n = 0x26 ∨ n = 0x2028 ∨ n = 0x2029 then
        "\\u" ++ hexPadded 4 n
      else ofScalar n

def json (t : Text) : Text :=
  "\"" ++ (Utf8.pieces t).flatMap jsonPiece ++ "\""

end MacroRelay.Text
