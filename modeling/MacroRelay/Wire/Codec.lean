import MacroRelay.Wire.Pack

/-!
# Messages as records

A codec pairs the written form of a type with a reader. A message is read into a draft, entry
by entry, and every entry works onto what the earlier ones left: of two entries for one field
the later is read onto the former, element by element. An element that a shorter list has
pushed out stays in the draft, and a longer list that comes later is read onto it. The value is
taken from the draft in the end. Besides the written form every value has a view, field by
field, that shows absent and empty sequences alike.
-/

namespace MacroRelay

inductive Datum where
  | absent
  | number : Nat → Datum
  | text : Text → Datum
  /-- A value left in its written form. -/
  | raw : Text → Datum
  | list : List Datum → Datum
  | record : List (Text × Datum) → Datum
deriving Inhabited

inductive Draft where
  /-- A part that the next entry for it replaces as a whole. -/
  | leaf : Datum → Draft
  /-- The elements of a list, and those that were pushed out of it. -/
  | list : (items spare : List Draft) → Draft
  | record : List (Text × Draft) → Draft
deriving Inhabited

namespace Draft

def blank : Draft := .leaf .absent

/-- The places that elements of a list are read onto. -/
def places : Draft → List Draft
  | .list items spare => items ++ spare
  | _ => []

def entries : Draft → List (Text × Draft)
  | .record entries => entries
  | _ => []

def field (d : Draft) (name : Text) : Draft :=
  (d.entries.lookup name).getD blank

def withField (d : Draft) (name : Text) (part : Draft) : Draft :=
  .record ((name, part) :: d.entries.filter fun (other, _) => other != name)

mutual
def datum : Draft → Datum
  | .leaf d => d
  | .list items _ => .list (datums items)
  | .record entries => .record (fieldData entries)
def datums : List Draft → List Datum
  | [] => []
  | d :: rest => d.datum :: datums rest
def fieldData : List (Text × Draft) → List (Text × Datum)
  | [] => []
  | (name, d) :: rest => (name, d.datum) :: fieldData rest
end

end Draft

/-- A sequence that may be absent. An absent one and an empty one are written differently. -/
abbrev Sequence (α : Type) := Option (List α)

def Sequence.items (s : Sequence α) : List α :=
  s.getD []

structure Codec (α : Type) where
  zero : α
  /-- A field that allows it is left out of its record when it holds such a value. -/
  isZero : α → Bool
  write : α → Text
  /-- Reads one written value onto a draft. -/
  read : Draft → Text → Pack.Reading Draft
  view : α → Datum
  ofView : Datum → α

namespace Codec

def readValue (c : Codec α) (t : Text) : Pack.Reading α :=
  (c.read .blank t).map fun (d, rest) => (c.ofView d.datum, rest)

/-- Reads a value from nothing; bytes after it are ignored. -/
def decode? (c : Codec α) (t : Text) : Option α :=
  (c.readValue t).toOption.map (·.1)

def text : Codec Text where
  zero := []
  isZero := List.isEmpty
  write := Pack.writeText
  read _ t := (Pack.readText t).map fun (t, rest) => (.leaf (.text t), rest)
  view := .text
  ofView
    | .text t => t
    | _ => []

def word (code : UInt8) (size : Nat) (toNat : α → Nat) (ofNat : Nat → α) : Codec α where
  zero := ofNat 0
  isZero a := toNat a == 0
  write a := code :: Pack.bigEndian size (toNat a)
  read _ t := (Pack.readInteger t).map fun (n, rest) => (.leaf (.number n), rest)
  view a := .number (toNat a)
  ofView
    | .number n => ofNat n
    | _ => ofNat 0

def word8 : Codec UInt8 := word 0xCC 1 UInt8.toNat Nat.toUInt8

def word16 : Codec UInt16 := word 0xCD 2 UInt16.toNat Nat.toUInt16

def word32 : Codec UInt32 := word 0xCE 4 UInt32.toNat Nat.toUInt32

def word64 : Codec UInt64 := word 0xCF 8 UInt64.toNat Nat.toUInt64

/-- Small numbers written as one byte string. -/
def bytes : Codec (Sequence UInt8) where
  zero := none
  isZero s := s.items.isEmpty
  write
    | some bs => Pack.writeBytes bs
    | none => [Pack.nil]
  read _ t := (Pack.readBytes t).map fun (bs, rest) =>
    (.leaf (match bs with
      | some bs => .list (bs.map fun b => .number b.toNat)
      | none => .absent), rest)
  view s := .list (s.items.map fun b => .number b.toNat)
  ofView
    | .list ds => some (ds.map word8.ofView)
    | _ => none

/-- One whole value carried along in its written form. -/
def raw : Codec (Option Text) where
  zero := none
  isZero r := (r.getD []).isEmpty
  write r := r.getD [Pack.nil]
  read _ t := (Pack.readRaw t).map fun (t, rest) =>
    (.leaf (if t = [Pack.nil] then .absent else .raw t), rest)
  view r := .raw (r.getD [])
  ofView
    | .text t | .raw t => some t
    | _ => none

def writeAll (c : Codec α) : Sequence α → Text
  | none => [Pack.nil]
  | some xs => Pack.Family.array.write xs.length ++ xs.flatMap c.write

/-- Reads `n` elements, each onto what is at its place, behind those `done`, the latest first.
Places that are left over are spare. -/
def readAll (c : Codec α) : Nat → List Draft → List Draft → Text → Pack.Reading Draft
  | 0, places, done, t => .ok (.list done.reverse places, t)
  | n + 1, places, done, t =>
    match c.read (places.head?.getD .blank) t with
    | .ok (d, rest) => readAll c n places.tail (d :: done) rest
    | .error fault => .error fault

def list (c : Codec α) : Codec (Sequence α) where
  zero := none
  isZero s := s.items.isEmpty
  write := c.writeAll
  read old t :=
    match Pack.readCount .array t with
    | .ok (some n, rest) => c.readAll n old.places [] rest
    | .ok (none, rest) => .ok (.blank, rest)
    | .error fault => .error fault
  view s := .list (s.items.map c.view)
  ofView
    | .list ds => some (ds.map c.ofView)
    | _ => none

/-- A list of texts. Reading nil leaves what was there. -/
def texts : Codec (Sequence Text) :=
  { list text with
    read := fun old t =>
      match Pack.readCount .array t with
      | .ok (some n, rest) => text.readAll n old.places [] rest
      | .ok (none, rest) => .ok (old, rest)
      | .error fault => .error fault }

def optional (c : Codec α) : Codec (Option α) where
  zero := none
  isZero := Option.isNone
  write
    | some a => c.write a
    | none => [Pack.nil]
  read
    | old, code :: rest => if code = Pack.nil then .ok (.blank, rest) else c.read old (code :: rest)
    | _, [] => .error .truncated
  view
    | some a => c.view a
    | none => .absent
  ofView
    | .absent => none
    | d => some (c.ofView d)

end Codec

structure Field (σ : Type) where
  name : Text
  isOmitted : σ → Bool
  write : σ → Text
  read : Draft → Text → Pack.Reading Draft
  view : σ → Datum
  adopt : σ → Datum → σ

namespace Field

def of (name : String) (c : Codec α) (get : σ → α) (set : σ → α → σ) : Field σ where
  name := name
  isOmitted _ := false
  write s := c.write (get s)
  read := c.read
  view s := c.view (get s)
  adopt s d := set s (c.ofView d)

/-- A field that is written only when it holds something. -/
def unlessZero (name : String) (c : Codec α) (get : σ → α) (set : σ → α → σ) : Field σ :=
  { of name c get set with isOmitted := fun s => c.isZero (get s) }

def readInto (f : Field σ) (d : Draft) (t : Text) : Pack.Reading Draft :=
  (f.read (d.field f.name) t).map fun (part, rest) => (d.withField f.name part, rest)

/-- Reads entries of a map; unknown names are skipped. -/
def readEntries (fields : List (Field σ)) : Nat → Draft → Text → Pack.Reading Draft
  | 0, d, t => .ok (d, t)
  | n + 1, d, t =>
    match Pack.readText t with
    | .error fault => .error fault
    | .ok (name, rest) =>
      match fields.find? (·.name == name) with
      | some field =>
        match field.readInto d rest with
        | .ok (d, rest) => readEntries fields n d rest
        | .error fault => .error fault
      | none =>
        match Pack.skip 1 rest with
        | .ok rest => readEntries fields n d rest
        | .error fault => .error fault

/-- Reads the fields in order, without their names. -/
def readInOrder : List (Field σ) → Draft → Text → Pack.Reading Draft
  | [], d, t => .ok (d, t)
  | field :: fields, d, t =>
    match field.readInto d t with
    | .ok (d, rest) => readInOrder fields d rest
    | .error fault => .error fault

end Field

namespace Codec

/-- A map from field names in the order given. It is read from a map, from nil, from an empty
array, or from an array with one element for every field. -/
def record (zero : σ) (fields : List (Field σ)) : Codec σ where
  zero := zero
  isZero _ := false
  write s :=
    let kept := fields.filter fun f => !f.isOmitted s
    Pack.Family.map.write kept.length ++ kept.flatMap fun f => Pack.writeText f.name ++ f.write s
  read d t :=
    match Pack.readCount .map t with
    | .ok (some n, rest) => Field.readEntries fields n (.record d.entries) rest
    | .ok (none, rest) => .ok (.record [], rest)
    | .error fault =>
      match Pack.readCount .array t with
      | .ok (some n, rest) =>
        if n = 0 then .ok (.record [], rest)
        else if n = fields.length then Field.readInOrder fields (.record d.entries) rest
        else .error .malformed
      | .error .truncated => .error .truncated
      | _ => .error fault
  view s := .record (fields.map fun f => (f.name, f.view s))
  ofView
    | .record entries => fields.foldl (fun s f =>
      match entries.lookup f.name with
      | some d => f.adopt s d
      | none => s) zero
    | _ => zero

end Codec

end MacroRelay
