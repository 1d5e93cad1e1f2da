import MacroRelay.Program

/-!
# The executable

Reads the files that a run may look at, runs the program on them and writes back what has
changed. This executable starts no other programs, so a configured server counts as missing.
-/

namespace MacroRelay.Executable

/-- No server can be started and so nothing is ever connected. -/
def host : Host Unit Empty where
  dial world tree c := (world, .error ((c.startFault? tree fun _ => false).getD (.notOnPath c.program)))
  call _ client := nomatch client
  close world _ := world

def toText (bytes : ByteArray) : Text := bytes.toList

def ofText (t : Text) : ByteArray := ⟨t.toArray⟩

def pathOf (t : Text) : String := (String.fromUTF8? (ofText t)).getD ""

def addAt (depth : Nat) (tree : FileTree) (path : Text) : IO FileTree := do
  let target := tree.resolve path
  let here := (← IO.currentDir) / pathOf target
  if ← here.isDir then
    let tree := tree.set target .directory
    match depth with
    | 0 => return tree
    | depth + 1 =>
      let mut tree := tree
      for entry in ← here.readDir do
        tree ← addAt depth tree (Path.join [target, Text.ofString entry.fileName])
      return tree
  else if ← here.pathExists then
    return tree.set target (.file (toText (← IO.FS.readBinFile here)))
  else return tree

def addFile (tree : FileTree) (path : Text) : IO FileTree := do
  let mut tree := tree
  for dir in FileTree.ancestors (tree.resolve path) do
    if tree.entryAt? dir = none then tree ← addAt 0 tree dir
  addAt 0 tree path

def gather (home : CacheHome) (tree : FileTree) (arguments : List Text) : IO FileTree := do
  match CommandLine.Invocation.ofArguments arguments with
  | .ok (.run _ a) =>
    let mut tree := tree
    for dir in tree.workingDirectory :: FileTree.ancestors tree.workingDirectory do
      tree ← addFile tree (Path.join [dir, Settings.fileName])
    for path in a.text "config" [] :: a.text "trace" [] :: a.rest do
      if path ≠ [] then tree ← addFile tree path
    match Program.loadSettings tree a with
    | .error _ => return tree
    | .ok s =>
      if s.trace.output ≠ [] then tree ← addFile tree s.trace.output
      if s.server.catalogue ≠ [] then tree ← addFile tree s.server.catalogue
      for program in s.server.command.head?.toList do
        tree ← addFile tree (Path.join [s.server.dir, program])
      let dir := if s.cache.dir = [] then (home.directory applicationName).toOption.getD [] else s.cache.dir
      if dir = [] then return tree
      addAt 3 (← addFile tree dir) dir
  | _ => return tree

def restore (before after : FileTree) : IO Unit := do
  let cwd ← IO.currentDir
  for (path, entry) in before.entries do
    if after.entryAt? path = none then
      let target := cwd / pathOf path
      match entry with
      | .file _ => if ← target.pathExists then IO.FS.removeFile target
      | .directory => if ← target.isDir then IO.FS.removeDirAll target
  for (path, entry) in after.entries.reverse do
    if before.entryAt? path ≠ some entry then
      let target := cwd / pathOf path
      match entry with
      | .directory => IO.FS.createDirAll target
      | .file content =>
        if let some parent := target.parent then IO.FS.createDirAll parent
        IO.FS.writeBinFile target (ofText content)

def environment (name : String) : IO Text :=
  return Text.ofString ((← IO.getEnv name).getD "")

def run (arguments : List Text) : IO UInt32 := do
  let home : CacheHome := ⟨← environment "XDG_CACHE_HOME", ← environment "HOME"⟩
  let before ← gather home (.empty (Text.ofString (toString (← IO.currentDir)))) arguments
  let done := Program.run host home before () arguments
  (← IO.getStdout).write (ofText done.output)
  (← IO.getStderr).write (ofText done.errors)
  restore before done.files
  return done.exit

end MacroRelay.Executable

def main (args : List String) : IO UInt32 :=
  MacroRelay.Executable.run (args.map MacroRelay.Text.ofString)
