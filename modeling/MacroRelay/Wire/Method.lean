import MacroRelay.Expansion.Key
import MacroRelay.Wire.Generation

/-!
# Methods of the server

Every expansion has a method of its own in either generation; the two methods that open a
connection are shared.
-/

namespace MacroRelay

inductive Method where
  | handshake
  | catalogue
  | expand : Generation → Shape → Method
deriving DecidableEq

namespace Method

def shapeName : Shape → Text
  | .attribute => "expandAttribute"
  | .derive => "expandDerive"
  | .inline => "expandInline"

def name : Method → Text
  | .handshake => "handshake"
  | .catalogue => "definedMacros"
  | .expand g s => g.name ++ "/" ++ shapeName s

def all : List Method :=
  [handshake, catalogue] ++ [Generation.first, .second].flatMap fun g =>
    [Shape.attribute, .derive, .inline].map (expand g)

def ofName? (t : Text) : Option Method :=
  all.find? (·.name == t)

end Method

end MacroRelay
