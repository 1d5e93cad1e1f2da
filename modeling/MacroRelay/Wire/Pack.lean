import MacroRelay.Text.Basic

/-!
# MessagePack values

The first byte of a value says what follows it. Sizes of texts, byte strings, arrays and maps
are written in the shortest form of their family; numbers keep the width of their type.
-/

namespace MacroRelay.Pack

def bigEndian (size n : Nat) : Text :=
  (List.range size).reverse.map fun i => (n / Nat.pow 256 i).toUInt8

def ofBigEndian (bytes : Text) : Nat :=
  bytes.foldl (fun n b => n * 256 + b.toNat) 0

inductive Fault where
  | truncated
  | malformed
deriving DecidableEq

abbrev Reading (α : Type) := Except Fault (α × Text)

def dropExact : Nat → Text → Except Fault Text
  | 0, t => .ok t
  | _ + 1, [] => .error .truncated
  | n + 1, _ :: t => dropExact n t

theorem dropExact_length {n : Nat} {t rest : Text} (h : dropExact n t = .ok rest) :
    rest.length ≤ t.length := by
  fun_induction dropExact n t with
  | case1 t => cases h; exact Nat.le_refl _
  | case2 => cases h
  | case3 n b t ih => exact Nat.le_succ_of_le (ih h)

def takeExact (n : Nat) (t : Text) : Reading Text :=
  (dropExact n t).map fun rest => (t.take n, rest)

def readBig (size : Nat) (t : Text) : Reading Nat :=
  (takeExact size t).map fun (bytes, rest) => (ofBigEndian bytes, rest)

/-- A family of heads that carry a size: small sizes inside the head byte itself, larger ones
in a number of bytes after it. -/
structure Family where
  base : UInt8
  limit : Nat
  wide : List (UInt8 × Nat)

namespace Family

def text : Family := ⟨0xA0, 32, [(0xD9, 1), (0xDA, 2), (0xDB, 4)]⟩

def bytes : Family := ⟨0, 0, [(0xC4, 1), (0xC5, 2), (0xC6, 4)]⟩

def array : Family := ⟨0x90, 16, [(0xDC, 2), (0xDD, 4)]⟩

def map : Family := ⟨0x80, 16, [(0xDE, 2), (0xDF, 4)]⟩

def extension : Family := ⟨0, 0, [(0xC7, 1), (0xC8, 2), (0xC9, 4)]⟩

def writeWide (n : Nat) : List (UInt8 × Nat) → Text
  | [] => []
  | [(code, size)] => code :: bigEndian size n
  | (code, size) :: rest => if n < Nat.pow 256 size then code :: bigEndian size n else writeWide n rest

def write (f : Family) (n : Nat) : Text :=
  if n < f.limit then [f.base + n.toUInt8] else writeWide n f.wide

/-- How many bytes after the head `code` hold the size, if it belongs to the family. -/
def sizeBytes? (f : Family) (code : UInt8) : Option Nat :=
  if f.base ≤ code ∧ code.toNat < f.base.toNat + f.limit then some 0 else f.wide.lookup code

/-- The size announced by the head `code`. -/
def read (f : Family) (code : UInt8) (rest : Text) : Reading Nat :=
  match f.sizeBytes? code with
  | none => .error .malformed
  | some 0 => .ok ((code - f.base).toNat, rest)
  | some size => readBig size rest

end Family

def nil : UInt8 := 0xC0

def writeText (t : Text) : Text :=
  Family.text.write t.length ++ t

def writeBytes (t : Text) : Text :=
  Family.bytes.write t.length ++ t

def readBytes : Text → Except Fault (Option Text × Text)
  | [] => .error .truncated
  | code :: rest =>
    if code = nil then .ok (none, rest)
    else do
      let family := if (Family.text.sizeBytes? code).isSome then Family.text else Family.bytes
      let (n, rest) ← family.read code rest
      let (t, rest) ← takeExact n rest
      return (some t, rest)

/-- A text; nil reads as the empty one. -/
def readText (t : Text) : Reading Text :=
  (readBytes t).map fun (t, rest) => (t.getD [], rest)

/-- The number of elements of an array or entries of a map; `none` inside is nil. -/
def readCount (f : Family) : Text → Reading (Option Nat)
  | [] => .error .truncated
  | code :: rest =>
    if code = nil then .ok (none, rest)
    else (f.read code rest).map fun (n, rest) => (some n, rest)

/-- Heads of numbers: how many bytes follow and whether the number is signed. -/
def integerHeads : List (UInt8 × Nat × Bool) :=
  [(0xCC, 1, false), (0xCD, 2, false), (0xCE, 4, false), (0xCF, 8, false),
    (0xD0, 1, true), (0xD1, 2, true), (0xD2, 4, true), (0xD3, 8, true)]

def signExtend (size n : Nat) : Nat :=
  if n < Nat.pow 256 size / 2 then n else UInt64.size - (Nat.pow 256 size - n)

/-- Any whole number, modulo 2^64; nil reads as zero. -/
def readInteger : Text → Reading Nat
  | [] => .error .truncated
  | code :: rest =>
    if code = nil then .ok (0, rest)
    else if code < 0x80 then .ok (code.toNat, rest)
    else if 0xE0 ≤ code then .ok (signExtend 1 code.toNat, rest)
    else match integerHeads.lookup code with
      | some (size, signed) => (readBig size rest).map fun (n, rest) =>
        (if signed then signExtend size n else n, rest)
      | none => .error .malformed

/-- Heads followed by a fixed number of bytes: numbers, floats and small extensions. -/
def fixedSizes : List (UInt8 × Nat) :=
  [(0xC0, 0), (0xC2, 0), (0xC3, 0), (0xCA, 4), (0xCB, 8), (0xCC, 1), (0xCD, 2), (0xCE, 4), (0xCF, 8),
    (0xD0, 1), (0xD1, 2), (0xD2, 4), (0xD3, 8), (0xD4, 2), (0xD5, 3), (0xD6, 5), (0xD7, 9), (0xD8, 17)]

/-- The families with what a size in them counts: plain bytes, then whole values. -/
def sized : List (Family × (Nat → Nat × Nat)) :=
  [(.text, fun n => (n, 0)), (.bytes, fun n => (n, 0)), (.extension, fun n => (n + 1, 0)),
    (.array, fun n => (0, n)), (.map, fun n => (0, 2 * n))]

/-- What follows a head: plain bytes, then whole values. -/
def extent (code : UInt8) (rest : Text) : Except Fault (Nat × Nat) :=
  if code < 0x80 ∨ 0xE0 ≤ code then .ok (0, 0)
  else match fixedSizes.lookup code with
    | some size => .ok (size, 0)
    | none => match sized.find? fun (f, _) => (f.sizeBytes? code).isSome with
      | none => .error .malformed
      | some (f, counted) => do
        let (n, left) ← f.read code rest
        let (bytes, values) := counted n
        return (rest.length - left.length + bytes, values)

/-- Drops `pending` whole values, however deeply nested. -/
def skip (pending : Nat) (t : Text) : Except Fault Text :=
  match pending, t with
  | 0, t => .ok t
  | _ + 1, [] => .error .truncated
  | pending + 1, code :: rest =>
    match extent code rest with
    | .error fault => .error fault
    | .ok (bytes, values) =>
      match _h : dropExact bytes rest with
      | .error fault => .error fault
      | .ok rest => skip (pending + values) rest
termination_by t.length
decreasing_by exact Nat.lt_succ_of_le (dropExact_length _h)

def readRaw (t : Text) : Reading Text :=
  (skip 1 t).map fun rest => (t.take (t.length - rest.length), rest)

end MacroRelay.Pack
