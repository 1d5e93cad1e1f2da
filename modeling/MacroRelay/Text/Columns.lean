import MacroRelay.Text.Utf8

/-!
# Aligned columns

Tabs end cells and line feeds end lines. A column is a block of adjacent lines that have a
cell there, each cell set to the right in the width of the widest one plus a gap. Text after
the last tab of a line is no cell. A form feed ends a line and every column with it, and
between two bytes `0xFF` tabs and line ends are ordinary text.
-/

namespace MacroRelay.Text.Columns

/-- A line as its cells; the last one is the text after the last tab. -/
abbrev Line := List Text

/-- The pieces read so far: the current cell and line backwards, whether text is literal, and
finished lines backwards with a flag on those that end in a form feed. -/
structure Cut where
  literal : Bool := false
  cell : Text := []
  line : Line := []
  lines : List (Line × Bool) := []

def Cut.add (c : Cut) (b : UInt8) : Cut :=
  if b = 0xFF then { c with literal := !c.literal, cell := b :: c.cell }
  else if c.literal then { c with cell := b :: c.cell }
  else if b = 0x09 ∨ b = 0x0B then { c with cell := [], line := c.cell.reverse :: c.line }
  else if b = 0x0A ∨ b = 0x0C then
    { c with
      cell := [], line := []
      lines := ((c.cell.reverse :: c.line).reverse, b == 0x0C) :: c.lines }
  else { c with cell := b :: c.cell }

/-- Characters in a cell; the marks around literal text take no room. -/
def width (cell : Text) : Nat :=
  (Utf8.pieces cell).length - cell.count 0xFF

def gap : Nat := 2

def cellAt? (column : Nat) (cells : Line) : Option Text :=
  if column + 1 < cells.length then cells[column]? else none

/-- For each line the widest cell between it and the start of its block. -/
def runningWidths (column : Nat) (lines : List (Line × Bool)) : List Nat :=
  (lines.foldl (fun (widest, done) (line, ends) =>
    let here := match cellAt? column line with
      | some cell => max widest (width cell + gap)
      | none => 0
    (if ends then 0 else here, here :: done)) (0, [])).2.reverse

/-- The same from the end of the block. -/
def runningWidthsBack (column : Nat) (lines : List (Line × Bool)) : List Nat :=
  lines.foldr (fun (line, ends) done =>
    let below := if ends then 0 else done.headD 0
    (match cellAt? column line with
      | some cell => max below (width cell + gap)
      | none => 0) :: done) []

def columnWidths (column : Nat) (lines : List (Line × Bool)) : List Nat :=
  List.zipWith max (runningWidths column lines) (runningWidthsBack column lines)

def setRight (cell : Text) (total : Nat) : Text :=
  List.replicate (total - width cell) 0x20 ++ cell

def setLine (line : Line) (widths : List Nat) : Text :=
  (List.zipWith setRight line.dropLast widths).flatten ++ line.getLast?.getD []

def align (t : Text) : Text :=
  let cut := t.foldl Cut.add {}
  let lines := cut.lines.reverse
  let last : Line := (cut.cell.reverse :: cut.line).reverse
  let all := lines ++ [(last, false)]
  let columns := (all.map fun (line, _) => line.length).foldl max 0
  let table := (List.range columns).map fun column => columnWidths column all
  let set := (List.range all.length).map fun i =>
    setLine ((all[i]?.map (·.1)).getD []) (table.map fun widths => widths.getD i 0)
  joined [newline] set

end MacroRelay.Text.Columns
