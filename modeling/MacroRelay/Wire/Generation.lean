import MacroRelay.Text.Basic

/-!
# Generations of the protocol

In the first generation streams are plain text and answers carry no positions. In the second
streams are lists of tokens with spans, and answers may map their text back to the source.
-/

namespace MacroRelay

inductive Generation where
  | first
  | second
deriving DecidableEq

namespace Generation

def ofNumber? : UInt8 → Option Generation
  | 1 => some .first
  | 2 => some .second
  | _ => none

def number : Generation → UInt8
  | .first => 1
  | .second => 2

def name : Generation → Text
  | .first => "v1"
  | .second => "v2"

end Generation

end MacroRelay
