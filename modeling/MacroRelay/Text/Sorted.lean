import MacroRelay.Bisect
import MacroRelay.Text.Basic

/-!
# Text in byte order

Names are listed in the order of their bytes, each once.
-/

namespace MacroRelay.Text

def before (a b : Text) : Bool := decide (a < b)

/-- In byte order, equal texts kept. -/
def sorted (names : List Text) : List Text :=
  names.mergeSort fun a b => !before b a

def dropRepeats : List Text → List Text
  | a :: b :: rest => if a = b then dropRepeats (b :: rest) else a :: dropRepeats (b :: rest)
  | short => short

def distinct (names : List Text) : List Text :=
  dropRepeats (sorted names)

def listed (names : List Text) (name : Text) : Bool :=
  names[bisect (fun i => before (names.getD i []) name) 0 names.length]? == some name

end MacroRelay.Text
