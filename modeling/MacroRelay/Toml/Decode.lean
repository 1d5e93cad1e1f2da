import MacroRelay.Toml.Document

/-!
# Reading records out of tables

A record takes its fields by name, letters in any case if no name fits exactly. Keys that fit
no field are left over.
-/

namespace MacroRelay.Toml

/-- Folds a scalar value to the smallest of those that differ only in case, for the letters that
have ASCII forms. -/
def foldScalar (n : Nat) : Nat :=
  if 0x41 ≤ n ∧ n ≤ 0x5A then n + 0x20
  else if n = 0x17F then 0x73
  else if n = 0x212A then 0x6B
  else n

def sameIgnoringCase (a b : Text) : Bool :=
  (Utf8.scalars a).map foldScalar == (Utf8.scalars b).map foldScalar

/-- How a field of a record takes its value; `none` is a value of the wrong type. -/
structure Field (σ : Type) where
  name : Text
  set : σ → Value → Option σ

def Field.find? (fields : List (Field σ)) (key : Text) : Option (Field σ) :=
  (fields.find? (·.name == key)).or (fields.find? fun f => sameIgnoringCase f.name key)

def Table.decode? (fields : List (Field σ)) (t : Table) (record : σ) : Option (σ × List Text) :=
  t.foldlM (fun (record, taken) (key, value) =>
    match Field.find? fields key with
    | none => some (record, taken)
    | some f => do return (← f.set record value, key :: taken)) (record, [])

def Value.text? : Value → Option Text
  | .text t => some t
  | _ => none

def Value.boolean? : Value → Option Bool
  | .boolean b => some b
  | _ => none

/-- A whole number of at least `low` and below `high`. -/
def Value.integer? (low high : Int) : Value → Option Int
  | .integer n => if low ≤ n ∧ n < high then some n else none
  | _ => none

def Value.texts? : Value → Option (List Text)
  | .array items => items.mapM text?
  | _ => none

def Value.table? : Value → Option Table
  | .table t => some t
  | _ => none

end MacroRelay.Toml
