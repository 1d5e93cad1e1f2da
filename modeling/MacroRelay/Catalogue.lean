import MacroRelay.Source.FileTree
import MacroRelay.Text.Quoted
import MacroRelay.Text.Sorted
import MacroRelay.Toml.Decode
import MacroRelay.Wire.Gen2
import MacroRelay.Wire.Generation

/-!
# The catalogue of packages

A catalogue says what every package declares and which generation of the protocol it uses.
It holds one entry for a name, in the order of names.
-/

namespace MacroRelay

structure Package where
  name : Text
  attributes : Sequence Text := none
  derives : Sequence Text := none
  inlineMacros : Sequence Text := none
  executables : Sequence Text := none
  generation : Generation := .second
deriving DecidableEq

namespace Package

/-- Drops names that have occurred before. -/
def firsts (names : List Text) : List Text :=
  (names.foldl (fun kept name => if kept.contains name then kept else name :: kept) []).reverse

def declaredAttributes (p : Package) : List Text :=
  firsts (p.attributes.items ++ p.executables.items)

def isExecutable (p : Package) (name : Text) : Bool :=
  p.executables.items.contains name

def toEntry (p : Package) : Gen2.PackageEntry :=
  ⟨p.name, p.attributes, p.derives, p.inlineMacros, p.executables, p.generation.number⟩

end Package

inductive CatalogueError where
  | unnamed
  | unsupported (name : Text) (protocol : UInt8)
  | unreadable (fault : FileFault)
  | malformed
deriving DecidableEq

def CatalogueError.message : CatalogueError → Text
  | .unnamed => "catalogue: package without a name"
  | .unsupported name protocol =>
    "catalogue: package " ++ name.quoted ++ ": unsupported protocol " ++ Text.decimal protocol.toNat
  | .unreadable fault => "catalogue: " ++ fault.message
  | .malformed => "catalogue: toml: malformed data"

structure Catalogue where
  packages : List Package
deriving DecidableEq

namespace Catalogue

/-- Puts a package in its place; a package of the same name is replaced. -/
def insert (p : Package) : List Package → List Package
  | [] => [p]
  | q :: rest =>
    if p.name = q.name then p :: rest
    else if Text.before p.name q.name then p :: q :: rest
    else q :: insert p rest

/-- An entry without a protocol uses the second generation. -/
def package? (e : Gen2.PackageEntry) : Except CatalogueError Package :=
  if e.package = [] then .error .unnamed
  else match Generation.ofNumber? (if e.protocol = 0 then 2 else e.protocol) with
    | some generation =>
      .ok ⟨e.package, e.attributes, e.derives, e.inlineMacros, e.executables, generation⟩
    | none => .error (.unsupported e.package e.protocol)

def ofEntries (entries : List Gen2.PackageEntry) : Except CatalogueError Catalogue := do
  let packages ← entries.foldlM (fun packages e => do return insert (← package? e) packages) []
  return ⟨packages⟩

def ofWire (answer : Gen2.CatalogueResult) : Except CatalogueError Catalogue :=
  ofEntries answer.packages.items

/-- An empty catalogue has no list at all. -/
def toWire (c : Catalogue) : Gen2.CatalogueResult :=
  ⟨if c.packages = [] then none else some (c.packages.map Package.toEntry)⟩

def find? (c : Catalogue) (name : Text) : Option Package :=
  c.packages.find? (·.name == name)

def fields : List (Toml.Field Gen2.PackageEntry) :=
  [⟨"attributes", fun e v => do return { e with attributes := some (← v.texts?) }⟩,
    ⟨"derives", fun e v => do return { e with derives := some (← v.texts?) }⟩,
    ⟨"inline_macros", fun e v => do return { e with inlineMacros := some (← v.texts?) }⟩,
    ⟨"executables", fun e v => do return { e with executables := some (← v.texts?) }⟩,
    ⟨"protocol", fun e v => do return { e with protocol := (← v.integer? 0 256).toNat.toUInt8 }⟩]

/-- The entries of the tables below `package`; anything but a table there counts as nothing. -/
def entries? (table : Toml.Table) : Option (List Gen2.PackageEntry) := do
  let packages : Toml.Field (List (Text × Gen2.PackageEntry)) := ⟨"package", fun found v =>
    (v.table?.getD []).foldlM (fun found (name, v) => do
      let (e, _) ← (← v.table?).decode? fields { package := name }
      return (name, e) :: found.filter (·.1 != name)) found⟩
  let (found, _) ← table.decode? [packages] []
  return (found.mergeSort fun a b => !Text.before b.1 a.1).map (·.2)

def parse (t : Text) : Except CatalogueError Catalogue :=
  match Toml.Document.parse? t >>= fun d => entries? d.root with
  | some entries => ofEntries entries
  | none => .error .malformed

def load (tree : FileTree) (path : Text) : Except CatalogueError Catalogue :=
  match tree.read path with
  | .ok t => parse t
  | .error fault => .error (.unreadable fault)

end Catalogue

end MacroRelay
