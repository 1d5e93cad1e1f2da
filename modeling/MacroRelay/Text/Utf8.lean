import MacroRelay.Text.Basic

/-!
# UTF-8

A byte machine accepts exactly the well-formed sequences: no overlong form, no surrogate and
nothing above U+10FFFF. Reading never fails; a byte that starts no well-formed sequence is
reported on its own and reading goes on at the next byte.
-/

namespace MacroRelay.Utf8

/-- Inside a sequence the next byte has to lie in a range, and some more follow it. -/
inductive State where
  | boundary
  | inside : UInt8 → UInt8 → Nat → State
deriving DecidableEq

def State.step : State → UInt8 → Option State
  | .boundary, b =>
    if b < 0x80 then some .boundary
    else if b < 0xC2 then none
    else if b ≤ 0xDF then some (.inside 0x80 0xBF 0)
    else if b = 0xE0 then some (.inside 0xA0 0xBF 1)
    else if b = 0xED then some (.inside 0x80 0x9F 1)
    else if b ≤ 0xEF then some (.inside 0x80 0xBF 1)
    else if b = 0xF0 then some (.inside 0x90 0xBF 2)
    else if b ≤ 0xF3 then some (.inside 0x80 0xBF 2)
    else if b = 0xF4 then some (.inside 0x80 0x8F 2)
    else none
  | .inside low high more, b =>
    if low ≤ b ∧ b ≤ high then
      match more with
      | 0 => some .boundary
      | more + 1 => some (.inside 0x80 0xBF more)
    else none

def State.run (s : State) (t : Text) : Option State :=
  t.foldlM State.step s

def valid (t : Text) : Bool :=
  State.boundary.run t == some .boundary

/-- How many bytes belong to a sequence after its first one. -/
def State.missing : State → Nat
  | .boundary => 0
  | .inside _ _ more => more + 1

/-- The scalar value of a sequence, from the first byte's payload and the bytes after it. -/
def payload (lead : UInt8) (tail : Text) : Nat :=
  let first := match tail.length with
    | 0 => lead.toNat
    | 1 => lead.toNat % 0x20
    | 2 => lead.toNat % 0x10
    | _ => lead.toNat % 0x08
  tail.foldl (fun n b => n * 0x40 + b.toNat % 0x40) first

/-- The scalar value at the front and the number of bytes it takes after the first. -/
def front? (lead : UInt8) (rest : Text) : Option (Nat × Nat) :=
  match State.boundary.step lead with
  | none => none
  | some state =>
    let tail := rest.take state.missing
    if state.run tail = some .boundary then some (payload lead tail, state.missing) else none

inductive Piece where
  | scalar : Nat → Piece
  | stray : UInt8 → Piece
deriving DecidableEq

def piecesOnto (done : List Piece) (t : Text) : List Piece :=
  match t with
  | [] => done.reverse
  | b :: rest =>
    match front? b rest with
    | some (n, extra) => piecesOnto (.scalar n :: done) (rest.drop extra)
    | none => piecesOnto (.stray b :: done) rest
termination_by t.length
decreasing_by
  all_goals simp only [List.length_drop, List.length_cons]; omega

def pieces (t : Text) : List Piece :=
  piecesOnto [] t

/-- Scalar values of the text, each stray byte read as U+FFFD. -/
def scalars (t : Text) : List Nat :=
  (pieces t).map fun
    | .scalar n => n
    | .stray _ => 0xFFFD

end MacroRelay.Utf8
