import MacroRelay.Text.Basic

/-!
# Offsets and spans

An offset is the width of the text before it, so both are words of 32 bits and sums wrap.
Differences do not wrap: asking for a negative one is a fault of the caller, reported with
the two numbers.
-/

namespace MacroRelay

/-- Bytes in a piece of text. -/
abbrev Width := UInt32

/-- Bytes between the start of a file and a position in it. -/
abbrev Offset := UInt32

inductive PositionFault where
  | beforeStart : Offset → Width → PositionFault
  | outOfOrder : Offset → Offset → PositionFault
deriving DecidableEq

def PositionFault.message : PositionFault → Text
  | .beforeStart offset width =>
    "offset " ++ Text.decimal offset.toNat ++ " moved back by " ++ Text.decimal width.toNat
  | .outOfOrder later earlier =>
    "offset " ++ Text.decimal later.toNat ++ " is before " ++ Text.decimal earlier.toNat

def Width.of (t : Text) : Width :=
  t.length.toUInt32

def Offset.advance (o : Offset) (w : Width) : Offset :=
  o + w

def Offset.retreat (o : Offset) (w : Width) : Except PositionFault Offset :=
  if o < w then .error (.beforeStart o w) else .ok (o - w)

def Offset.since (o earlier : Offset) : Except PositionFault Width :=
  if o < earlier then .error (.outOfOrder o earlier) else .ok (o - earlier)

def Offset.text (o : Offset) : Text :=
  Text.decimal o.toNat

/-- A half-open range of offsets. Nothing keeps the end from lying before the start: spans
also arrive from other processes. -/
structure Span where
  start : Offset
  stop : Offset
deriving DecidableEq, Inhabited

namespace Span

def of (start : Offset) (t : Text) : Span :=
  ⟨start, start.advance (Width.of t)⟩

def width (s : Span) : Except PositionFault Width :=
  Offset.since s.stop s.start

def isEmpty (s : Span) : Bool :=
  s.start == s.stop

def isInverted (s : Span) : Bool :=
  s.stop < s.start

def contains (s inner : Span) : Bool :=
  s.start ≤ inner.start && inner.stop ≤ s.stop

theorem isInverted_iff {s : Span} : s.isInverted ↔ s.stop.toNat < s.start.toNat := by
  rw [isInverted, decide_eq_true_eq, UInt32.lt_iff_toNat_lt]

theorem contains_iff {s inner : Span} : s.contains inner ↔
    s.start.toNat ≤ inner.start.toNat ∧ inner.stop.toNat ≤ s.stop.toNat := by
  rw [contains, Bool.and_eq_true, decide_eq_true_eq, decide_eq_true_eq, UInt32.le_iff_toNat_le,
    UInt32.le_iff_toNat_le]

def cover (s other : Span) : Span :=
  ⟨if other.start < s.start then other.start else s.start,
    if s.stop < other.stop then other.stop else s.stop⟩

def text (s : Span) : Text :=
  Offset.text s.start ++ "-" ++ Offset.text s.stop

end Span

abbrev FileId := UInt32

structure FileSpan where
  file : FileId
  span : Span
deriving DecidableEq, Inhabited

def FileSpan.text (s : FileSpan) : Text :=
  Text.decimal s.file.toNat ++ ":" ++ s.span.text

end MacroRelay
