import MacroRelay.Proofs.Relay.Origins
import MacroRelay.Proofs.Source.Lines
import MacroRelay.Proofs.Source.Loading
import MacroRelay.Proofs.Source.Mappings

/-!
# Line by line

What is printed of generated code is one entry for each of its lines that is not empty. The offset that
is carried from line to line is the place of the line in the text, so each line is looked up with its own
span, and what is shown is where the source of that span starts in the input file.
-/

namespace MacroRelay

open Text (newline)

-- ---------------------------------------------------------------------------
-- The lines of a text
-- ---------------------------------------------------------------------------

/-- The lines of a text, in order: with a line feed between any two they are the text, and each has its
number and the place where it stands. -/
structure Text.ListedBy (t : Text) (ls : List TextLine) : Prop where
  joined : Text.joined [newline] (ls.map (·.text)) = t
  unbroken : ∀ l ∈ ls, newline ∉ l.text
  number : ∀ k l, ls[k]? = some l → l.number = k + 1
  first : ls.head?.map (·.start) = some 0
  next : ls.IsChain fun l l' => l'.start = l.stop + 1
  stop_le : ∀ l ∈ ls, l.stop ≤ t.length
  cut : ∀ l ∈ ls, t.extract l.start l.stop = l.text

namespace TextLine

variable {number start : Nat} {lines : List Text} {l : TextLine}

theorem map_text_row (number start : Nat) (lines : List Text) :
    (row number start lines).map (·.text) = lines := by
  induction lines generalizing number start with
  | nil => rfl
  | cons line rest ih => rw [row, List.map_cons, ih]

theorem number_of_row {k : Nat} (h : (row number start lines)[k]? = some l) : l.number = number + k := by
  induction lines generalizing number start k with
  | nil => cases h
  | cons line rest ih =>
    cases k with
    | zero =>
      obtain rfl := Option.some.inj h
      rfl
    | succ k =>
      rw [row, List.getElem?_cons_succ] at h
      rw [ih h]
      omega

theorem row_head? (number start : Nat) (hne : lines ≠ []) :
    (row number start lines).head?.map (·.start) = some start := by
  obtain ⟨line, rest, rfl⟩ := List.exists_cons_of_ne_nil hne
  rfl

theorem row_isChain (number start : Nat) (lines : List Text) :
    (row number start lines).IsChain fun l l' => l'.start = l.stop + 1 := by
  match lines with
  | [] => exact .nil
  | [line] => exact .singleton _
  | line :: next :: rest =>
    have ih := row_isChain (number + 1) (start + (line.length + 1)) (next :: rest)
    exact .cons_cons (Nat.add_assoc start line.length 1).symm ih

theorem exists_of_mem_row {number start : Nat} {lines : List Text} (h : l ∈ row number start lines) :
    ∃ front behind, Text.joined [newline] lines = front ++ (l.text ++ behind) ∧
      l.start = start + front.length := by
  match lines with
  | [line] =>
    obtain rfl := List.mem_singleton.mp h
    exact ⟨[], [], by simp [Text.joined, List.intercalate], rfl⟩
  | line :: next :: rest =>
    rw [Text.joined_cons_cons]
    rcases List.mem_cons.mp h with rfl | h
    · exact ⟨[], newline :: Text.joined [newline] (next :: rest), by simp, rfl⟩
    · obtain ⟨front, behind, htext, hstart⟩ := exists_of_mem_row h
      refine ⟨line ++ newline :: front, behind, by rw [htext]; simp, ?_⟩
      rw [hstart, List.length_append, List.length_cons]
      omega

end TextLine

theorem Text.listedBy_lines (t : Text) : t.ListedBy t.lines where
  joined := by rw [lines, TextLine.map_text_row, joined_splitAt]
  unbroken l hl := by
    have htext : l.text ∈ t.lines.map (·.text) := List.mem_map_of_mem hl
    rw [lines, TextLine.map_text_row] at htext
    exact not_mem_splitAt htext
  number k l h := by rw [TextLine.number_of_row h, Nat.add_comm]
  first := TextLine.row_head? 1 0 (splitAt_ne_nil newline t)
  next := TextLine.row_isChain 1 0 _
  stop_le l := stop_le_of_mem_lines
  cut l hl := by
    obtain ⟨front, behind, htext, hstart⟩ := TextLine.exists_of_mem_row hl
    rw [joined_splitAt] at htext
    rw [Nat.zero_add] at hstart
    simp [htext, TextLine.stop, hstart]

-- ---------------------------------------------------------------------------
-- Where a line leads
-- ---------------------------------------------------------------------------

namespace Mapping

variable {ms : List Mapping} {s out : Span}

theorem locate?_eq (ms : List Mapping) (s : Span) : locate? ms s =
    ((precise ms).findSome? (·.target? s)).or ((callSites ms).findSome? (·.target? s)) :=
  Except.ok.inj ((bestSource_eq ms s).symm.trans (bestSource_two_searches ms s))

theorem locate?_eq_none (hs : ¬ s.isInverted) : locate? ms s = none ↔ ∀ m ∈ ms, ¬ m.Covers s := by
  rw [locate?_eq, Option.or_eq_none_iff, findSome?_target?_eq_none, findSome?_target?_eq_none,
    or_iff_right hs, or_iff_right hs, ← forall_mem_iff]

theorem leadTo_of_locate? (h : locate? ms s = some out) : LeadTo (precise ms) s out ∨
    (∀ m ∈ precise ms, ¬ m.Covers s) ∧ LeadTo (callSites ms) s out := by
  rw [locate?_eq] at h
  rcases Option.or_eq_some_iff.mp h with hfirst | ⟨hnone, hsecond⟩
  · exact .inl (leadTo_of_findSome? hfirst)
  · have hs := not_isInverted_of_findSome? hsecond
    exact .inr ⟨(findSome?_target?_eq_none.mp hnone).resolve_left hs, leadTo_of_findSome? hsecond⟩

end Mapping

/-- The line is looked up with the span that it has in the text. Nothing is found just if no mapping with a
valid origin covers the whole line. -/
structure TextLine.LooksUp (l : TextLine) (ms : List Mapping) (found : Option Span) : Prop where
  start : l.span.start.toNat = l.start
  stop : l.span.stop.toNat = l.stop
  lookup : Mapping.bestSource ms l.span = .ok found
  missing : found = none ↔ ∀ m ∈ ms, ¬ m.Covers l.span
  source : ∀ out, found = some out → Mapping.LeadTo (Mapping.precise ms) l.span out ∨
    (∀ m ∈ Mapping.precise ms, ¬ m.Covers l.span) ∧ Mapping.LeadTo (Mapping.callSites ms) l.span out

theorem TextLine.looksUp {l : TextLine} (h : l.stop < 2 ^ 32) (ms : List Mapping) :
    l.LooksUp ms (Mapping.locate? ms l.span) := by
  have hle : l.start ≤ l.stop := Nat.le_add_right l.start l.text.length
  have hstart : l.span.start.toNat = l.start := UInt32.toNat_ofNat_of_lt' (Nat.lt_of_le_of_lt hle h)
  have hstop : l.span.stop.toNat = l.stop := UInt32.toNat_ofNat_of_lt' h
  have hs : ¬ l.span.isInverted := by
    rw [Span.isInverted_iff, hstart, hstop]
    omega
  exact ⟨hstart, hstop, Mapping.bestSource_eq ms l.span, Mapping.locate?_eq_none hs,
    fun _ => Mapping.leadTo_of_locate?⟩

def SourceFile.placeText (f : SourceFile) : Option Span → Text
  | none => "?"
  | some out => f.path ++ ":" ++ (f.position out.start).text

namespace GeneratedFile

variable {sources : FileSet} {id : FileId} {f : SourceFile}

theorem lineOrigin_eq (hget : sources.get? id = some f) (g : GeneratedFile) (number : Nat) (s : Span) :
    g.lineOrigin sources id number s =
      originLine number (f.placeText (Mapping.locate? g.mappings s)) := by
  rw [lineOrigin, Mapping.bestSource_eq, originLine]
  cases Mapping.locate? g.mappings s with
  | none => rfl
  | some out => simp [SourceFile.placeText, FileSet.filePath, FileSet.resolve, hget]

/-- There is one entry for every line that is not empty, in the order of the lines. It has the number of
the line and the line and column of the input file where the source of the line starts. -/
theorem origins_by_line {g : GeneratedFile} {es : List FileSet.Edit}
    (hfits : g.content.length < 2 ^ 32) (hget : (FileSet.empty.edits es).1.get? id = some f) :
    g.content.ListedBy g.content.lines ∧
    (∀ l ∈ g.content.lines, l.LooksUp g.mappings (Mapping.locate? g.mappings l.span)) ∧
    g.origins (FileSet.empty.edits es).1 id =
      (g.content.lines.filter (·.text ≠ [])).flatMap (fun l =>
        originLine l.number (f.placeText (Mapping.locate? g.mappings l.span))) ∧
    (f.content.Indexable → Scanned f.content f.position) := by
  refine ⟨g.content.listedBy_lines, fun l hl => ?_, ?_, ?_⟩
  · exact TextLine.looksUp (Nat.lt_of_le_of_lt (Text.stop_le_of_mem_lines hl) hfits) g.mappings
  · rw [origins_eq]
    exact List.flatMap_congr fun l _ => lineOrigin_eq hget g l.number l.span
  · intro hfeeds
    rw [(FileSet.lists_edits es).get?, Option.map_eq_some_iff] at hget
    obtain ⟨added, -, rfl⟩ := hget
    exact .of_place fun off hoff => SourceFile.Indexed.position ⟨rfl, hfeeds⟩ hoff

/-- An empty line between two others, and no line feed at the end. The second mapping covers the last line,
the first one only a part of it. -/
def spaced : GeneratedFile where
  name := "proc_macro_tool"
  content := "ab\n\ncd"
  mappings := [⟨⟨0, 5⟩, .start 11⟩, ⟨⟨4, 6⟩, .callSite ⟨2, 9⟩⟩]

theorem origins_by_line_spaced :
    let sources := (FileSet.empty.edits [.addVirtual "lib.cairo" "x\n#[tool]\nfn f() {}"]).1
    spaced.content.length < 2 ^ 32 ∧
    (∃ f, sources.get? 0 = some f ∧ f.content.Indexable ∧ Scanned f.content f.position) ∧
    spaced.content.ListedBy [⟨1, 0, "ab"⟩, ⟨2, 3, []⟩, ⟨3, 4, "cd"⟩] ∧
    spaced.origins sources 0 = "//   gen:1 -> lib.cairo:3:2\n//   gen:3 -> lib.cairo:2:1\n" := by
  intro sources
  have hfits : spaced.content.length < 2 ^ 32 := by decide
  have hget : sources.get? 0 = some (FileSet.Addition.file 0 ⟨"lib.cairo", "x\n#[tool]\nfn f() {}", .virtual⟩) :=
    rfl
  have hfeeds : Text.Indexable "x\n#[tool]\nfn f() {}" := .of_length_le (by decide)
  obtain ⟨hlisted, -, horigins, hscanned⟩ := origins_by_line hfits hget
  refine ⟨hfits, ⟨_, hget, hfeeds, hscanned hfeeds⟩, hlisted, ?_⟩
  rw [horigins]
  decide +kernel

end GeneratedFile

end MacroRelay
