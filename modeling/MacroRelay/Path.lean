import MacroRelay.Text.Basic

/-!
# Slash-separated paths

Paths are cleaned lexically: without looking at any file, `.` and empty parts vanish and `..`
cancels the part before it. The empty path cleans to `.`, and nothing lies above the root.
-/

namespace MacroRelay.Path

def slash : UInt8 := 0x2F

def isAbsolute (p : Text) : Bool :=
  p.head? == some slash

def parts (p : Text) : List Text :=
  (p.splitAt slash).filter fun part => part != [] && part != Text.ofString "."

/-- Adds one part to the parts kept so far, innermost first. -/
def keep (rooted : Bool) (kept : List Text) (part : Text) : List Text :=
  if part = Text.ofString ".." then
    match kept with
    | [] => if rooted then [] else [part]
    | last :: outer => if last = Text.ofString ".." then part :: kept else outer
  else part :: kept

def clean (p : Text) : Text :=
  let rooted := isAbsolute p
  let kept := ((parts p).foldl (keep rooted) []).reverse
  let body := Text.joined [slash] kept
  if rooted then slash :: body
  else if body = [] then "."
  else body

/-- Empty elements are skipped; the rest is joined and cleaned. -/
def join (elements : List Text) : Text :=
  match elements.filter (· != []) with
  | [] => []
  | kept => clean (Text.joined [slash] kept)

def against (dir p : Text) : Text :=
  if isAbsolute p then clean p else join [dir, p]

def parent (p : Text) : Text :=
  clean (p.reverse.dropWhile (· != slash)).reverse

def fileName (p : Text) : Text :=
  (p.reverse.takeWhile (· != slash)).reverse

end MacroRelay.Path
