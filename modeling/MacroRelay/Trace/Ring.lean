import MacroRelay.Trace.Line

/-!
# The ring of recent events

A ring remembers a fixed number of events. It fills its slots in order and then goes round,
each new event taking the place of the oldest.
-/

namespace MacroRelay.Trace

structure Ring where
  level : Level
  size : Nat
  slots : Array Event
  written : Nat

namespace Ring

def defaultSize : Nat := 4096

/-- A size that is not positive asks for the default. -/
def empty (size : Int) (level : Level) : Ring :=
  ⟨level, if size ≤ 0 then defaultSize else size.toNat, #[], 0⟩

/-- The most slots there is room for: addresses have 48 bits, and a slot takes 96 bytes. -/
def mostSlots : Int := 2932031007402

def ofSize (size : Int) (level : Level) : Except SettingError Ring :=
  if mostSlots < size then .error .ringTooLarge else .ok (empty size level)

def emit (r : Ring) (e : Event) : Ring :=
  if !r.level.accepts e.kind e.scope then r
  else
    let slots := if r.written < r.size then r.slots.push e
      else r.slots.setIfInBounds (r.written % r.size) e
    { r with slots, written := r.written + 1 }

def snapshot (r : Ring) : List Event :=
  if r.written ≤ r.size then r.slots.toList
  else
    let head := r.written % r.size
    r.slots.toList.drop head ++ r.slots.toList.take head

/-- Kept end events of a span show its notes as they are now, if they had any. -/
def amend (r : Ring) (spanId : UInt64) (extras : Extras) : Ring :=
  { r with slots := r.slots.map fun e =>
      if e.spanId = spanId ∧ e.kind = Kind.spanEnd ∧ e.extras ≠ [] then { e with extras } else e }

def dump (r : Ring) (f : Format) : List Text :=
  r.snapshot.map (Event.line · f)

end Ring

end MacroRelay.Trace
