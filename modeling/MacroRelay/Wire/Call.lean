import MacroRelay.Wire.Codec

/-!
# Calls

Requests and responses travel back to back on one connection and are matched by number.
Parameters and results stay in their written form until someone knows their type.
-/

namespace MacroRelay

structure Request where
  id : UInt64 := 0
  method : Text := []
  params : Option Text := none
deriving DecidableEq, Inhabited

/-- Only one of result and error means anything. -/
structure Response where
  id : UInt64 := 0
  result : Option Text := none
  error : Text := []
deriving DecidableEq, Inhabited

def Request.codec : Codec Request :=
  .record {} [
    .of "id" .word64 (·.id) (fun s n => { s with id := n }),
    .of "method" .text (·.method) (fun s t => { s with method := t }),
    .of "params" .raw (·.params) (fun s r => { s with params := r })]

def Response.codec : Codec Response :=
  .record {} [
    .of "id" .word64 (·.id) (fun s n => { s with id := n }),
    .unlessZero "result" .raw (·.result) (fun s r => { s with result := r }),
    .unlessZero "error" .text (·.error) (fun s t => { s with error := t })]

end MacroRelay
