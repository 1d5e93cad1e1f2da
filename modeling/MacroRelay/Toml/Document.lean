import MacroRelay.Toml.Reader
import Std.Data.HashSet

/-!
# What a document means

Statements build a tree of tables. A table that only came about as the parent of another may
be defined later, once; any other key may not be given twice. A key that holds an array is
the exception: a later value replaces it, also when the later value is a table that only comes
about as a parent.
-/

namespace MacroRelay.Toml

inductive Value where
  | text : Text → Value
  | integer : Int → Value
  | float : Text → Value
  | boolean : Bool → Value
  | datetime : Text → Value
  | array : List Value → Value
  | table : List (Text × Value) → Value
  /-- Rows made by headers in double brackets, the latest first. Further statements go to the
  latest one. -/
  | rows : List (List (Text × Value)) → Value

instance : Inhabited Value := ⟨.boolean false⟩

def Value.isArray : Value → Bool
  | .array _ => true
  | _ => false

abbrev Table := List (Text × Value)

namespace Table

def put (name : Text) (value : Value) : Table → Table
  | [] => [(name, value)]
  | (n, v) :: rest => if n = name then (n, value) :: rest else (n, v) :: put name value rest

/-- The table a value stands for while its contents are being built. -/
def ofValue? : Value → Option Table
  | .table t => some t
  | .rows rows => rows.head?
  | _ => none

def backTo (old : Value) (t : Table) : Value :=
  match old with
  | .rows rows => .rows (t :: rows.tail)
  | _ => .table t

def get? (t : Table) : Key → Option Value
  | [] => none
  | [name] => t.lookup name
  | name :: rest => (t.lookup name >>= ofValue?) >>= (get? · rest)

/-- Puts a value below existing tables; fails if something on the way is no table. -/
def set? (t : Table) (value : Value) : Key → Option Table
  | [] => none
  | [name] => some (t.put name value)
  | name :: rest => do
    let parent ← t.lookup name
    let inner ← set? (← ofValue? parent) value rest
    return t.put name (backTo parent inner)

def nested : Key → Table
  | [] => []
  | name :: rest => [(name, .table (nested rest))]

/-- Makes the tables of a path that are missing, and counts those that were there. -/
def establish? (t : Table) : Key → Option (Table × Nat)
  | [] => some (t, 0)
  | name :: rest =>
    match t.lookup name with
    | none => some (t.put name (.table (nested rest)), 0)
    | some old => do
      let (inner, found) ← establish? (← ofValue? old) rest
      return (t.put name (backTo old inner), found + 1)

end Table

/-- A document while it is being built. -/
structure Draft where
  root : Table := []
  /-- Tables that have come about only as parents of others. -/
  implied : Std.HashSet Key := {}
  /-- Keys whose latest value is an array. -/
  arrays : Std.HashSet Key := {}
  /-- Keys in the order of the document, last one first. -/
  keys : List Key := []

namespace Draft

def imply (d : Draft) (key : Key) : Draft :=
  { d with implied := d.implied.insert key }

def confirm (d : Draft) (key : Key) : Draft :=
  { d with implied := d.implied.erase key }

def list (d : Draft) (key : Key) : Draft :=
  { d with keys := key :: d.keys }

def mark (d : Draft) (context : Key) (name : Text) (isArray : Bool) : Draft :=
  let key := if name = [] then context else context ++ [name]
  let key := if key = [] then [[]] else key
  { d with arrays := if isArray then d.arrays.insert key else d.arrays.erase key }

def put? (d : Draft) (key : Key) (value : Value) : Option Draft :=
  (d.root.set? value key).map fun root => { d with root }

def define? (d : Draft) (context : Key) (name : Text) (value : Value) : Option Draft :=
  let key := context ++ [name]
  match d.root.get? key with
  | none => d.put? key value
  | some _ =>
    if d.arrays.contains key then (d.confirm key).put? key value
    else if d.implied.contains key then some (d.confirm key)
    else none

def parents? (d : Draft) (key : Key) : Option Draft := do
  let path := key.dropLast
  let (root, found) ← d.root.establish? path
  let made := (List.range (path.length - found)).map fun i => path.take (found + i + 1)
  return { d with root, implied := made.foldl (·.insert ·) d.implied }

def splitLast (key : Key) : Key × Text :=
  (key.dropLast, key.getLast?.getD [])

def openTable? (d : Draft) (key : Key) : Option Draft := do
  let d ← d.parents? key
  let (context, name) := splitLast key
  d.define? context name (.table [])

def openRow? (d : Draft) (key : Key) : Option Draft := do
  let d ← d.parents? key
  match d.root.get? key with
  | none => d.put? key (.rows [[]])
  | some (.rows rows) => d.put? key (.rows ([] :: rows))
  | some _ => none

def through? (d : Draft) (context : Key) : Key → Option (Draft × Key)
  | [] => some (d, context)
  | part :: rest => do
    let inner := context ++ [part]
    let d ← (d.imply inner).openTable? inner
    d.through? inner rest

mutual
/-- The value of an expression given for a name in a context. Fields of an inline table are
entered into the document on the way. The value itself has them by the last part of their key
alone; it counts where the table replaces an array or stands in one. -/
def value? (d : Draft) (context : Key) (name : Text) (inArray : Bool) : Expr → Option (Draft × Value)
  | .text t => some (d, .text t)
  | .integer n => some (d, .integer n)
  | .float t => some (d, .float t)
  | .boolean b => some (d, .boolean b)
  | .datetime t => some (d, .datetime t)
  | .array items => elements? (d.mark context name true) context name [] items
  | .inline fields =>
    let here := context ++ [name]
    let d := d.imply here
    match if inArray then d.openRow? here else d.openTable? here with
    | none => none
    | some d => entries? d here [] fields
/-- The values of an array behind those `done`, of which the latest is first. -/
def elements? (d : Draft) (context : Key) (name : Text) (done : List Value) : Items → Option (Draft × Value)
  | .nil => some (d, .array done.reverse)
  | .cons item rest =>
    match value? d context name true item with
    | none => none
    | some (d, value) => elements? d context name (value :: done) rest
/-- The fields of an inline table behind those in `done`. -/
def entries? (d : Draft) (here : Key) (done : Table) : Fields → Option (Draft × Value)
  | .nil => some (d, .table done)
  | .cons key item rest =>
    let (path, name) := splitLast key
    match d.through? here path with
    | none => none
    | some (d, context) =>
      match value? (d.list (context ++ [name])) context name false item with
      | none => none
      | some (d, value) =>
        match d.define? context name value with
        | none => none
        | some d => entries? (d.mark context name value.isArray) here (done.put name value) rest
end

/-- A statement below the latest header. -/
def add? (d : Draft) (header : Key) : Statement → Option (Draft × Key)
  | .table key => do return (((← d.openTable? key).mark key [] false).list key, key)
  | .row key => do return (((← d.openRow? key).mark key [] false).list key, key)
  | .assign key item => do
    let (path, name) := splitLast key
    let (d, context) ← d.through? header path
    let (d, value) ← value? (d.list (context ++ [name])) context name false item
    let d ← d.define? context name value
    return (d.mark context name value.isArray, header)

end Draft

structure Document where
  root : Table
  /-- All keys in the order of the text. -/
  keys : List Key

def Document.ofStatements? (statements : List Statement) : Option Document := do
  let (d, _) ← statements.foldlM (fun (d, header) s => d.add? header s) (({} : Draft), ([] : Key))
  return ⟨d.root, d.keys.reverse⟩

def Document.parse? (t : Text) : Option Document :=
  read? t >>= ofStatements?

end MacroRelay.Toml
