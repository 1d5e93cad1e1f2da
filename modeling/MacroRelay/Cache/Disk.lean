import MacroRelay.Expansion.Key
import MacroRelay.Source.FileTree
import MacroRelay.Wire.Gen2

/-!
# Answers on disk

Every answer has a file of its own, named by its key and filed under the first two digits.
The file holds the number of its layout and the answer. A file with another layout number
counts as missing; one that cannot be read is reported.
-/

namespace MacroRelay

structure DiskEntry where
  layout : UInt16 := 0
  result : Gen2.Result := {}
deriving DecidableEq

def DiskEntry.codec : Codec DiskEntry :=
  .record {} [
    .of "Schema" .word16 (·.layout) (fun s n => { s with layout := n }),
    .of "Result" Gen2.Result.codec (·.result) (fun s r => { s with result := r })]

inductive DiskError where
  | file (fault : FileFault)
  | opening (fault : FileFault)
  | homeless
  | relativeHome
  | unreadable (key : Digest)
deriving DecidableEq

def DiskError.message : DiskError → Text
  | .file fault => fault.message
  | .opening fault => "open disk cache: " ++ fault.message
  | .homeless => "open disk cache: neither $XDG_CACHE_HOME nor $HOME are defined"
  | .relativeHome => "open disk cache: path in $XDG_CACHE_HOME is relative"
  | .unreadable key => "decode " ++ key.hex ++ ": malformed data"

/-- Where a user keeps caches, as the environment tells it. -/
structure CacheHome where
  cacheHome : Text := []
  home : Text := []

def CacheHome.directory (h : CacheHome) (application : Text) : Except DiskError Text :=
  if h.cacheHome = [] then
    if h.home = [] then .error .homeless else .ok (Path.join [h.home ++ "/.cache", application])
  else if !Path.isAbsolute h.cacheHome then .error .relativeHome
  else .ok (Path.join [h.cacheHome, application])

structure DiskCache where
  dir : Text
deriving DecidableEq

namespace DiskCache

/-- The layout that this version writes. -/
def layout : UInt16 := 1

/-- Opens the cache below a directory, which is made if needed. -/
def openAt (tree : FileTree) (dir : Text) : Except DiskError (FileTree × DiskCache) :=
  match tree.makeDirectories dir with
  | .ok tree => .ok (tree, ⟨dir⟩)
  | .error fault => .error (.opening fault)

def folder (c : DiskCache) (key : Digest) : Text :=
  Path.join [c.dir, "expand", key.hex.take 2]

def file (c : DiskCache) (key : Digest) : Text :=
  Path.join [c.folder key, key.hex ++ ".mp"]

def put (c : DiskCache) (tree : FileTree) (key : Digest) (result : Gen2.Result) :
    Except DiskError FileTree :=
  match tree.makeDirectories (c.folder key) with
  | .error fault => .error (.file fault)
  | .ok tree => .ok (tree.set (tree.resolve (c.file key)) (.file (DiskEntry.codec.write ⟨layout, result⟩)))

def get (c : DiskCache) (tree : FileTree) (key : Digest) : Except DiskError (Option Gen2.Result) :=
  match tree.read (c.file key) with
  | .error (.isDirectory ..) => .error (.unreadable key)
  | .error fault => if fault.isNotFound then .ok none else .error (.file fault)
  | .ok content =>
    match DiskEntry.codec.decode? content with
    | none => .error (.unreadable key)
    | some entry => .ok (if entry.layout = layout then some entry.result else none)

/-- Leaves an empty directory. -/
def clear (c : DiskCache) (tree : FileTree) : Except DiskError FileTree :=
  match (tree.removeAll (tree.resolve c.dir)).makeDirectories c.dir with
  | .ok tree => .ok tree
  | .error fault => .error (.file fault)

end DiskCache

end MacroRelay
