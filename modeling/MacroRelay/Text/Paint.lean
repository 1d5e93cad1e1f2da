import MacroRelay.Text.Basic

/-!
# Text in colour

Colours are switched on in front of a text and off behind it.
-/

namespace MacroRelay

/-- Text between two terminal sequences. -/
structure Paint where
  before : Text
  after : Text

namespace Paint

def bold (colour : Nat) : Paint :=
  ⟨"\x1b[" ++ Text.decimal colour ++ ";1m", "\x1b[0;22m"⟩

def plain (colour : Nat) : Paint :=
  ⟨"\x1b[" ++ Text.decimal colour ++ "m", "\x1b[0m"⟩

/-- Bold in the colour of the surroundings. -/
def strong : Paint :=
  ⟨"\x1b[1m", "\x1b[22m"⟩

def apply (p : Paint) (t : Text) : Text :=
  p.before ++ t ++ p.after

end Paint

end MacroRelay
