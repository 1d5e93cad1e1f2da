import MacroRelay.Bisect
import MacroRelay.Source.FileTree
import MacroRelay.Source.Position
import Std.Data.HashMap

/-!
# Source files and their lines

Files are numbered in the order they are added and never change. A path names the newest file
added under it. Lines and columns count from one; an offset belongs to the line after the last
line feed before it, also when it lies past the end of the text.
-/

namespace MacroRelay

/-- How a file entered the set, one bit each. -/
abbrev FileFlags := UInt8

namespace FileFlags

def virtual : FileFlags := 1

def hadByteOrderMark : FileFlags := 2

def normalizedLineEnds : FileFlags := 4

end FileFlags

structure LineColumn where
  line : UInt32
  column : UInt32
deriving DecidableEq, Inhabited

structure SourceFile where
  id : FileId
  path : Text
  content : Text
  flags : FileFlags
  /-- Offsets of the line feeds, increasing. -/
  lineFeeds : Array Offset

/-- The offsets at which a text holds a line feed, for text placed at `start`. -/
def lineFeedsFrom (start : Offset) (found : Array Offset) : Text → Array Offset
  | [] => found
  | b :: rest =>
    lineFeedsFrom (start + 1) (if b = Text.newline then found.push start else found) rest

namespace SourceFile

def position (f : SourceFile) (off : Offset) : LineColumn :=
  let above := bisect (fun i => f.lineFeeds.getD i 0 < off) 0 f.lineFeeds.size
  let lineStart := if above = 0 then 0 else f.lineFeeds.getD (above - 1) 0 + 1
  ⟨above.toUInt32 + 1, off - lineStart + 1⟩

end SourceFile

structure FileSet where
  files : Array SourceFile
  byPath : Std.HashMap Text FileId

namespace FileSet

def empty : FileSet := ⟨#[], ∅⟩

/-- Always takes a new number; the path then names the new file. -/
def add (s : FileSet) (path content : Text) (flags : FileFlags) : FileSet × FileId :=
  let path := Path.clean path
  let id := s.files.size.toUInt32
  let file := ⟨id, path, content, flags, lineFeedsFrom 0 #[] content⟩
  (⟨s.files.push file, s.byPath.insert path id⟩, id)

def addVirtual (s : FileSet) (path content : Text) : FileSet × FileId :=
  s.add path content .virtual

def byteOrderMark : Text := [0xEF, 0xBB, 0xBF]

/-- Each carriage return right before a line feed is dropped. -/
def dropReturns (t : Text) : Text :=
  (t.foldr (fun b (next, kept) =>
    (some b, if b = 0x0D ∧ next = some Text.newline then kept else b :: kept))
    ((none : Option UInt8), ([] : Text))).2

/-- What is kept of a file's bytes: no leading byte order mark, and line feeds alone where
carriage return and line feed stood together. -/
def normalize (raw : Text) : Text × FileFlags :=
  let (body, mark) := if byteOrderMark.isPrefixOf raw then (raw.drop 3, FileFlags.hadByteOrderMark)
    else (raw, 0)
  let unified := dropReturns body
  (unified, if unified.length < body.length then mark ||| .normalizedLineEnds else mark)

def load (s : FileSet) (tree : FileTree) (path : Text) : Except FileFault (FileSet × FileId) := do
  let (content, flags) := normalize (← tree.read path)
  return s.add path content flags

def get? (s : FileSet) (id : FileId) : Option SourceFile :=
  s.files[id.toNat]?

/-- The newest file added under a path. -/
def lookup (s : FileSet) (path : Text) : Option FileId :=
  s.byPath[Path.clean path]?

/-- Unknown files have the empty path. -/
def filePath (s : FileSet) (id : FileId) : Text :=
  (s.get? id).elim [] (·.path)

/-- Line and column of both ends; zeros for an unknown file. -/
def resolve (s : FileSet) (span : FileSpan) : LineColumn × LineColumn :=
  match s.get? span.file with
  | some f => (f.position span.span.start, f.position span.span.stop)
  | none => (⟨0, 0⟩, ⟨0, 0⟩)

end FileSet

end MacroRelay
