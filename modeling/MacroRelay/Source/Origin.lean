import MacroRelay.Source.Position

/-!
# Where generated text came from

A mapping ties a span of generated text to its origin. A query is answered by the first
mapping that covers it and is not a call site; call sites are the fallback.
-/

namespace MacroRelay

inductive Origin where
  | start : Offset → Origin
  | span : Span → Origin
  | callSite : Span → Origin
  | invalid
deriving DecidableEq, Inhabited

/-- The kinds of valid origins in the order of their wire numbers, which count from one. -/
def Origin.kindNames : List Text := ["start", "span", "call_site"]

def Origin.kindName : Origin → Text
  | .start _ => "start"
  | .span _ => "span"
  | .callSite _ => "call_site"
  | .invalid => "unknown"

def Origin.start? : Origin → Option Offset
  | .start offset => some offset
  | _ => none

def Origin.span? : Origin → Option Span
  | .span target | .callSite target => some target
  | _ => none

def Origin.isCallSite : Origin → Bool
  | .callSite _ => true
  | _ => false

def Origin.text (o : Origin) : Text :=
  match o with
  | .start offset => "start(" ++ Offset.text offset ++ ")"
  | .span target | .callSite target => o.kindName ++ "(" ++ target.text ++ ")"
  | .invalid => "invalid"

structure Mapping where
  generated : Span
  origin : Origin
deriving DecidableEq, Inhabited

namespace Mapping

/-- The source span of a span of generated text, if this mapping covers it. A start origin
shifts the span; the other origins stand for it as a whole. -/
def sourceOf (m : Mapping) (s : Span) : Except PositionFault (Option Span) :=
  if s.isInverted || !m.generated.contains s then .ok none
  else match m.origin with
    | .start offset => do
      let start := offset.advance (← Offset.since s.start m.generated.start)
      return some ⟨start, start.advance (← s.width)⟩
    | .span target | .callSite target => .ok (some target)
    | .invalid => .ok none

def sourceAfter (fallback : Option Span) (s : Span) :
    List Mapping → Except PositionFault (Option Span)
  | [] => .ok fallback
  | m :: rest => do
    match ← m.sourceOf s with
    | none => sourceAfter fallback s rest
    | some out =>
      if m.origin.isCallSite then sourceAfter (fallback.or (some out)) s rest
      else return some out

/-- The answer of the first mapping that covers the span, precise ones before call sites. -/
def bestSource (ms : List Mapping) (s : Span) : Except PositionFault (Option Span) :=
  sourceAfter none s ms

theorem sourceOf_isOk (m : Mapping) (s : Span) : ∃ r, m.sourceOf s = .ok r := by
  unfold sourceOf
  split
  · exact ⟨_, rfl⟩
  · next h =>
    simp only [Bool.or_eq_true, Bool.not_eq_true', not_or, Bool.not_eq_false, Span.isInverted,
      Span.contains, Bool.and_eq_true, decide_eq_true_eq] at h
    split
    · next offset _ =>
      have hs : ¬ s.start < m.generated.start := by
        simpa only [UInt32.not_lt] using h.2.1
      simp only [Offset.since, Span.width, hs, h.1, if_false]
      exact ⟨_, rfl⟩
    · exact ⟨_, rfl⟩
    · exact ⟨_, rfl⟩
    · exact ⟨_, rfl⟩

theorem sourceAfter_isOk (fallback : Option Span) (s : Span) (ms : List Mapping) :
    ∃ r, sourceAfter fallback s ms = .ok r := by
  induction ms generalizing fallback with
  | nil => exact ⟨_, rfl⟩
  | cons m rest ih =>
    obtain ⟨r, hr⟩ := m.sourceOf_isOk s
    simp only [sourceAfter, hr, bind, Except.bind]
    split
    · exact ih _
    · split
      · exact ih _
      · exact ⟨_, rfl⟩

/-- No query reaches a position fault, so callers may ask for the answer alone. -/
def locate? (ms : List Mapping) (s : Span) : Option Span :=
  match bestSource ms s with
  | .ok found => found
  | .error _ => none

theorem bestSource_eq (ms : List Mapping) (s : Span) :
    bestSource ms s = .ok (locate? ms s) := by
  obtain ⟨r, hr⟩ := sourceAfter_isOk none s ms
  simp only [locate?, bestSource, hr]

end Mapping

end MacroRelay
