import MacroRelay.Trace.Ring

/-!
# Tracers

A tracer writes accepted events to a device as they come, keeps them in a ring, or does both.
A recorder numbers the events of a run, one after another, and hands them to a tracer.
-/

namespace MacroRelay.Trace

/-- An output that receives lines and can be flushed and closed, either of which may fail. -/
structure Device where
  lines : Array Text := #[]
  flushFault : Option Text := none
  closeFault : Option Text := none
  flushes : Nat := 0
  closes : Nat := 0

structure Feed where
  level : Level
  format : Format
  device : Device := {}

namespace Feed

def emit (f : Feed) (e : Event) : Feed :=
  if !f.level.accepts e.kind e.scope then f
  else { f with device := { f.device with lines := f.device.lines.push (e.line f.format) } }

def flush (f : Feed) : Feed × List Text :=
  ({ f with device := { f.device with flushes := f.device.flushes + 1 } }, f.device.flushFault.toList)

/-- Flushes before it closes, and reports both failures. -/
def close (f : Feed) : Feed × List Text :=
  let (f, faults) := f.flush
  ({ f with device := { f.device with closes := f.device.closes + 1 } },
    faults ++ f.device.closeFault.toList)

end Feed

inductive Tracer where
  | silent
  | feed (f : Feed)
  | ring (r : Ring)
  | both (level : Level) (f : Feed) (r : Ring)

namespace Tracer

structure Settings where
  level : Level
  mode : Mode
  format : Format
  path : Text := []
  ringSize : Int
  device : Device := {}

def ofSettings (s : Settings) : Except SettingError Tracer :=
  let f : Feed := ⟨s.level, s.format.resolve s.path, s.device⟩
  let ring := Ring.ofSize s.ringSize s.level
  if s.level = Level.off then .ok .silent
  else if s.mode = Mode.stream then .ok (.feed f)
  else if s.mode = Mode.ring then ring.map .ring
  else if s.mode = Mode.both then ring.map (.both s.level f)
  else .error (.unknownMode s.mode)

def level : Tracer → Level
  | .silent => Level.off
  | .feed f => f.level
  | .ring r => r.level
  | .both l _ _ => l

def enabled (t : Tracer) : Bool := t.level.enabled

def emit (t : Tracer) (e : Event) : Tracer :=
  match t with
  | .silent => .silent
  | .feed f => .feed (f.emit e)
  | .ring r => .ring (r.emit e)
  | .both l f r => .both l (f.emit e) (r.emit e)

def ring? : Tracer → Option Ring
  | .ring r => some r
  | .both _ _ r => some r
  | _ => none

def device? : Tracer → Option Device
  | .feed f => some f.device
  | .both _ f _ => some f.device
  | _ => none

def received (t : Tracer) : Array Text :=
  (t.device?.map (·.lines)).getD #[]

def joinFaults (faults : List Text) : Option Text :=
  if faults = [] then none else some (Text.joined [Text.newline] faults)

def onFeed (step : Feed → Feed × List Text) : Tracer → Tracer × Option Text
  | .feed f => let (f, faults) := step f; (.feed f, joinFaults faults)
  | .both l f r => let (f, faults) := step f; (.both l f r, joinFaults faults)
  | t => (t, none)

def flush (t : Tracer) : Tracer × Option Text := t.onFeed Feed.flush

def close (t : Tracer) : Tracer × Option Text := t.onFeed Feed.close

def amend (t : Tracer) (spanId : UInt64) (extras : Extras) : Tracer :=
  match t with
  | .ring r => .ring (r.amend spanId extras)
  | .both l f r => .both l f (r.amend spanId extras)
  | t => t

end Tracer

/-- A piece of work between its begin event and its end event. Work below the tracer's level
is inert and leaves no events. -/
inductive Activity where
  | inert
  | live (id parent : UInt64) (scope : Scope) (name : Text) (extras : Extras)

/-- The number of the span, zero for inert work. -/
def Activity.id : Activity → UInt64
  | .inert => 0
  | .live id .. => id

structure Recorder where
  tracer : Tracer := .silent
  now : Instant := default
  lastSeq : UInt64 := 0
  lastSpan : UInt64 := 0

namespace Recorder

def emit (r : Recorder) (e : Event) : Recorder :=
  let seq := r.lastSeq + 1
  { r with tracer := r.tracer.emit { e with time := r.now, seq }, lastSeq := seq }

def start (r : Recorder) (scope : Scope) (name : Text) (parent : UInt64) : Recorder × Activity :=
  if !r.tracer.level.admits scope then (r, .inert)
  else
    let id := r.lastSpan + 1
    let r := { r with lastSpan := id }
    (r.emit { seq := 0, kind := Kind.spanBegin, scope, spanId := id, parentId := parent, name },
      .live id parent scope name [])

def attach (r : Recorder) (a : Activity) (key value : Text) : Recorder × Activity :=
  match a with
  | .inert => (r, .inert)
  | .live id parent scope name extras =>
    let extras := extras.set key value
    ({ r with tracer := r.tracer.amend id extras }, .live id parent scope name extras)

def finish (r : Recorder) (a : Activity) (detail : Text) : Recorder :=
  match a with
  | .inert => r
  | .live id parent scope name extras =>
    r.emit { seq := 0, kind := Kind.spanEnd, scope, spanId := id, parentId := parent, name, detail, extras }

def point (r : Recorder) (scope : Scope) (name detail : Text) : Recorder :=
  if !r.tracer.level.admits scope then r
  else r.emit { seq := 0, kind := Kind.point, scope, name, detail }

def fail (r : Recorder) (scope : Scope) (name failure : Text) : Recorder :=
  if !r.tracer.enabled then r
  else r.emit { seq := 0, kind := Kind.failure, scope, name, detail := failure }

end Recorder

end MacroRelay.Trace
