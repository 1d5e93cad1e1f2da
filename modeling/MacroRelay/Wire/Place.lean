import MacroRelay.Source.Position
import MacroRelay.Wire.Codec

/-!
# Where a request stands

Spans and scopes are written alike in both generations of the protocol.
-/

namespace MacroRelay

def Span.codec : Codec Span :=
  .record ⟨0, 0⟩ [
    .of "start" .word32 (·.start) (fun s n => { s with start := n }),
    .of "end" .word32 (·.stop) (fun s n => { s with stop := n })]

/-- The part of the project a request belongs to, opaque to the server. -/
structure Scope where
  component : Text := []
deriving DecidableEq, Inhabited

def Scope.codec : Codec Scope :=
  .record {} [.of "component" .text (·.component) (fun s t => { s with component := t })]

end MacroRelay
