import MacroRelay.Path

/-!
# Files on disk

A tree of files is a list of entries by cleaned path, with one working directory that
relative paths are read against. A directory exists because it was made or because something
lies below it. Failures carry the operation and the path as the caller wrote it.
-/

namespace MacroRelay

inductive FileFault where
  | notFound : Text → Text → FileFault
  | notDirectory : Text → Text → FileFault
  | isDirectory : Text → Text → FileFault
  | denied : Text → Text → FileFault
  | invalid : Text → Text → FileFault
  | nameTooLong : Text → Text → FileFault
  | alreadyThere : Text → Text → FileFault
  | argumentsTooLong : Text → Text → FileFault
deriving DecidableEq

def FileFault.message : FileFault → Text
  | .notFound operation path => operation ++ " " ++ path ++ ": no such file or directory"
  | .notDirectory operation path => operation ++ " " ++ path ++ ": not a directory"
  | .isDirectory operation path => operation ++ " " ++ path ++ ": is a directory"
  | .denied operation path => operation ++ " " ++ path ++ ": permission denied"
  | .invalid operation path => operation ++ " " ++ path ++ ": invalid argument"
  | .nameTooLong operation path => operation ++ " " ++ path ++ ": file name too long"
  | .alreadyThere operation path => operation ++ " " ++ path ++ ": file exists"
  | .argumentsTooLong operation path => operation ++ " " ++ path ++ ": argument list too long"

def FileFault.isNotFound : FileFault → Bool
  | .notFound .. => true
  | _ => false

inductive FileEntry where
  | file : Text → FileEntry
  | directory
deriving DecidableEq

/-- Newest entries first; a path occurs at most once. -/
structure FileTree where
  workingDirectory : Text
  entries : List (Text × FileEntry)

namespace FileTree

def empty (workingDirectory : Text) : FileTree :=
  ⟨Path.clean workingDirectory, [(Path.clean workingDirectory, .directory)]⟩

def resolve (tree : FileTree) (path : Text) : Text :=
  Path.against tree.workingDirectory path

def isBelow (dir path : Text) : Bool :=
  if dir = Text.ofString "/" then path != dir else (dir ++ [Path.slash]).isPrefixOf path

def entryAt? (tree : FileTree) (path : Text) : Option FileEntry :=
  match tree.entries.lookup path with
  | some entry => some entry
  | none => if tree.entries.any fun (other, _) => isBelow path other then some .directory else none

/-- The proper ancestors of a cleaned absolute path, outermost first. -/
def ancestors (path : Text) : List Text :=
  let parts := Path.parts path
  (List.range parts.length).map fun n => Path.slash :: Text.joined [Path.slash] (parts.take n)

def bare (path : Text) : Text :=
  (path.reverse.dropWhile (· == Path.slash)).reverse

def names (path : Text) : List Text :=
  (path.splitAt Path.slash).filter (· != [])

/-- The names along a path. A slash at the end stands for the directory itself. -/
def steps (path : Text) : List Text :=
  names path ++ if path.getLast? = some Path.slash then [Text.ofString "."] else []

/-- The system takes no longer name. -/
def longestName : Nat := 255

/-- The system takes no longer path, wherever it leads. -/
def longestPath : Nat := 4095

/-- Goes one step down a path. Only directories can be gone through. -/
def enter (tree : FileTree) (operation path : Text) (here step : Text) : Except FileFault Text :=
  match tree.entryAt? here with
  | none => .error (.notFound operation path)
  | some (.file _) => .error (.notDirectory operation path)
  | some .directory =>
    if longestName < step.length then .error (.nameTooLong operation path)
    else .ok (if step = Text.ofString ".." then Path.parent here else Path.join [here, step])

/-- Where names lead from the start of a path. What they lead to need not exist. -/
def follow (tree : FileTree) (operation path : Text) (names : List Text) : Except FileFault Text :=
  if path = [] then .error (.notFound operation path)
  else if List.contains path 0 then .error (.invalid operation path)
  else if longestPath < path.length then .error (.nameTooLong operation path)
  else names.foldlM (tree.enter operation path)
    (if Path.isAbsolute path then [Path.slash] else tree.workingDirectory)

/-- Where a path leads when it is followed name by name. -/
def walk (tree : FileTree) (operation path : Text) : Except FileFault Text :=
  tree.follow operation path (steps path)

/-- Looks a path up as the system does: a plain file on the way is told apart from a missing
one. -/
def look (tree : FileTree) (operation path : Text) : Except FileFault FileEntry := do
  match tree.entryAt? (← tree.walk operation path) with
  | some entry => return entry
  | none => throw (.notFound operation path)

def read (tree : FileTree) (path : Text) : Except FileFault Text := do
  match ← tree.look "open" path with
  | .file content => return content
  | .directory => throw (.isDirectory "read" path)

def set (tree : FileTree) (path : Text) (entry : FileEntry) : FileTree :=
  { tree with entries := (path, entry) :: tree.entries.filter fun (other, _) => other != path }

/-- Makes an empty file or empties one that is there. A slash at the end asks for a directory,
whatever is there. -/
def create (tree : FileTree) (path : Text) : Except FileFault FileTree := do
  if bare path = path then
    let target ← tree.walk "open" path
    if tree.entryAt? target = some .directory then throw (.isDirectory "open" path)
    return tree.set target (.file [])
  else
    let _ ← tree.follow "open" path ((names path).dropLast ++ [Text.ofString "."])
    throw (.isDirectory "open" path)

def removeAll (tree : FileTree) (path : Text) : FileTree :=
  { tree with entries := tree.entries.filter fun (other, _) => other != path && !isBelow path other }

def above? (path : Text) : Option Text :=
  let front := ((bare path).reverse.dropWhile (· != Path.slash)).reverse
  if front.length ≤ 1 then none else some front.dropLast

/-- The paths of the directories along a path, outermost first, and the path itself; `fuel`
bounds their number. -/
def stations (fuel : Nat) (path : Text) : List Text :=
  match fuel, above? path with
  | fuel + 1, some front => stations fuel front ++ [path]
  | _, _ => [path]

def makeDirectory (tree : FileTree) (path : Text) : Except FileFault FileTree := do
  let target ← tree.follow "mkdir" path (names path)
  match tree.entryAt? target with
  | some .directory => return tree
  | some (.file _) => throw (.alreadyThere "mkdir" path)
  | none => return tree.set target .directory

/-- Makes the directory and its ancestors. A plain file in the way is reported at its own
path. -/
def makeDirectories (tree : FileTree) (path : Text) : Except FileFault FileTree :=
  (stations path.length path).foldlM (fun tree dir =>
    match tree.look "mkdir" dir with
    | .ok .directory => .ok tree
    | .ok (.file _) => .error (.notDirectory "mkdir" dir)
    | .error _ => tree.makeDirectory dir) tree

end FileTree

/-- What can be asked of files without changing any. -/
structure FileSystem where
  workingDirectory : Text
  stat : Text → Except FileFault FileEntry
  read : Text → Except FileFault Text

def FileTree.system (tree : FileTree) : FileSystem :=
  ⟨tree.workingDirectory, tree.look "stat", tree.read⟩

instance : Coe FileTree FileSystem := ⟨FileTree.system⟩

end MacroRelay
