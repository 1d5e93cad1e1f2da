import MacroRelay.Duration
import MacroRelay.Text.Columns

/-!
# Timed phases

A timer records named phases of a run; phases may overlap. The wall time runs from the first
start to the last end, and a phase that is still running counts as ended where it started.
-/

namespace MacroRelay

/-- The nearest duration to a count of nanoseconds. -/
def Duration.saturate (nanos : Int) : Duration :=
  Int64.ofInt (max Int64.minValue.toInt (min nanos Int64.maxValue.toInt))

structure Phase where
  name : Text
  note : Text := []
  start : Int
  stop : Option Int := none
deriving DecidableEq

namespace Phase

def ending (p : Phase) : Int := p.stop.getD p.start

def duration (p : Phase) : Duration :=
  Duration.saturate (p.ending - p.start)

def row (p : Phase) : Text :=
  let note : Text := if p.note = [] then "" else "// " ++ p.note
  "  " ++ p.name ++ "\t" ++ p.duration.milliseconds ++ "\t " ++ note ++ "\t\n"

end Phase

abbrev Timer := List Phase

namespace Timer

/-- Starts a phase; its handle is its place in the list. -/
def start (t : Timer) (name : Text) (now : Int) : Timer × Nat :=
  (t ++ [{ name, start := now }], t.length)

/-- A handle that names no phase is ignored. -/
def finish (t : Timer) (handle : Int) (note : Text) (now : Int) : Timer :=
  if handle < 0 then t else t.modify handle.toNat fun p => { p with stop := some now, note }

def wall (t : Timer) : Duration :=
  match t with
  | [] => 0
  | p :: rest => Duration.saturate
      (rest.foldl (fun last q => max last q.ending) p.ending -
        rest.foldl (fun first q => min first q.start) p.start)

/-- The table of all phases, with the wall time in the last row. -/
def summary (t : Timer) : Text :=
  "timings:\n" ++ Text.Columns.align
    (t.flatMap Phase.row ++ ("  wall\t" ++ t.wall.milliseconds ++ "\t\t\n"))

end Timer

end MacroRelay
