import MacroRelay.Proofs.Text.Lines
import MacroRelay.Proofs.Trace.Sinks

/-!
# Records of a trace

As JSON, an event is one line whatever it tells, since every text in it is quoted. As plain text, names,
details and notes are written as they are, and each line feed in them breaks the line: a trace has one
record for every event exactly if none of them holds one.
-/

namespace MacroRelay.Trace

open Text (newline)

variable {e : Event} {es : List Event} {f : Format}

-- ---------------------------------------------------------------------------
-- The texts of an event
-- ---------------------------------------------------------------------------

/-- No text of the event holds a line feed. -/
structure Event.Unbroken (e : Event) : Prop where
  name : newline ∉ e.name
  detail : newline ∉ e.detail
  extras : ∀ note ∈ e.extras, newline ∉ note.1 ∧ newline ∉ note.2

def Event.feeds (e : Event) : Nat :=
  e.name.count newline + e.detail.count newline +
    (e.extras.map fun note => note.1.count newline + note.2.count newline).sum

theorem Event.unbroken_iff : e.Unbroken ↔ e.feeds = 0 := by
  have hextras : (e.extras.map fun note => note.1.count newline + note.2.count newline).sum = 0 ↔
      ∀ note ∈ e.extras, newline ∉ note.1 ∧ newline ∉ note.2 := by
    simp only [List.sum_eq_zero_iff_forall_eq_nat, List.forall_mem_map, Nat.add_eq_zero_iff, List.count_eq_zero]
  rw [feeds, Nat.add_eq_zero_iff, Nat.add_eq_zero_iff, hextras, List.count_eq_zero, List.count_eq_zero]
  exact ⟨fun h => ⟨⟨h.name, h.detail⟩, h.extras⟩, fun h => ⟨h.1.1, h.1.2, h.2⟩⟩

theorem newline_not_mem_nameOf {names : List Text} (h : ∀ name ∈ names, newline ∉ name)
    (first n : UInt8) : newline ∉ nameOf first names n := by
  unfold nameOf
  split
  · decide
  · rw [List.getD_eq_getElem?_getD]
    cases hname : names[(n - first).toNat]? with
    | none => exact (by decide : newline ∉ Text.ofString "unknown")
    | some name => exact h name (List.mem_of_getElem? hname)

theorem newline_not_mem_mark (k : Kind) : newline ∉ k.mark := by
  unfold Kind.mark
  repeat' split
  all_goals decide

theorem newline_not_mem_seqColumn (n : UInt64) : newline ∉ seqColumn n := by
  simp only [seqColumn, List.mem_append, List.mem_replicate, not_or, not_and]
  exact ⟨fun _ => by decide, Text.newline_not_mem_decimal _⟩

-- ---------------------------------------------------------------------------
-- Plain text
-- ---------------------------------------------------------------------------

namespace Event

theorem count_newline_detail (detail : Text) :
    (if detail = [] then ("" : Text) else " (" ++ detail ++ ")").count newline =
      detail.count newline := by
  have hopen : (Text.ofString " (").count newline = 0 := by decide
  have hclose : (Text.ofString ")").count newline = 0 := by decide
  split
  · rename_i hnil
    rw [hnil]
    rfl
  · rw [List.count_append, List.count_append, hopen, hclose, Nat.zero_add, Nat.add_zero]

theorem count_newline_extras (extras : Extras) :
    (if extras = [] then ("" : Text)
      else " \x7b" ++ Text.joined ", " (extras.map fun (k, v) => k ++ [0x3D] ++ v) ++ "\x7d").count newline =
      (extras.map fun note => note.1.count newline + note.2.count newline).sum := by
  have hopen : (Text.ofString " \x7b").count newline = 0 := by decide
  have hclose : (Text.ofString "\x7d").count newline = 0 := by decide
  split
  · rename_i hnil
    rw [hnil]
    rfl
  · rw [List.count_append, List.count_append, hopen, hclose, Nat.zero_add, Nat.add_zero,
      Text.count_joined (by decide), List.map_map]
    congr 2
    funext note
    simp [newline]

theorem count_newline_plain (e : Event) : e.plain.count newline = e.feeds + 1 := by
  have hmark := List.count_eq_zero_of_not_mem (newline_not_mem_mark e.kind)
  have hscope : e.scope.name.count newline = 0 :=
    List.count_eq_zero_of_not_mem (newline_not_mem_nameOf (by decide) _ _)
  have hseq := List.count_eq_zero_of_not_mem (newline_not_mem_seqColumn e.seq)
  have hindent : (if e.parentId = 0 then ("" : Text) else "  ").count newline = 0 := by
    split <;> decide
  have hconst : (Text.ofString "[").count newline = 0 ∧ (Text.ofString "] ").count newline = 0 ∧
      (Text.ofString " ").count newline = 0 ∧ (Text.ofString ":").count newline = 0 := by
    decide
  simp only [plain, List.count_append, hmark, hscope, hseq, hindent, hconst, count_newline_detail,
    count_newline_extras, List.count_singleton_self, Nat.zero_add, Nat.add_zero, feeds]

theorem plain_eq_concat (e : Event) : ∃ body, e.plain = body ++ [newline] :=
  ⟨_, rfl⟩

-- ---------------------------------------------------------------------------
-- JSON
-- ---------------------------------------------------------------------------

theorem newline_not_mem_jsonObject {fields : List (Text × Text)}
    (h : ∀ field ∈ fields, newline ∉ field.2) : newline ∉ jsonObject fields := by
  simp only [jsonObject, List.mem_append, not_or]
  refine ⟨⟨by decide, Text.not_mem_joined (by decide) ?_⟩, by decide⟩
  rintro part hpart
  obtain ⟨field, hfield, rfl⟩ := List.mem_map.mp hpart
  simp only [List.mem_append, not_or]
  exact ⟨⟨Text.newline_not_mem_json _, by decide⟩, h field hfield⟩

theorem newline_not_mem_field {value : Text} (h : newline ∉ value) (empty : Bool) (key : Text) :
    ∀ field ∈ (if empty then [] else [(key, value)] : List (Text × Text)), newline ∉ field.2 := by
  cases empty <;> simp [h]

/-- Every text in it is quoted, so it does not matter what they hold. -/
theorem json_isLine (e : Event) : e.json.IsLine := by
  have hnumber (n : UInt64) := Text.newline_not_mem_decimal n.toNat
  have hextra : newline ∉ jsonObject (e.extras.map fun (k, v) => (k, v.json)) := by
    refine newline_not_mem_jsonObject (List.forall_mem_map.mpr fun note _ => ?_)
    exact Text.newline_not_mem_json note.2
  refine ⟨_, rfl, ?_⟩
  split
  · decide +kernel
  · refine newline_not_mem_jsonObject ?_
    simp only [List.forall_mem_append]
    refine ⟨⟨⟨⟨⟨⟨?_, newline_not_mem_field (hnumber _) _ _⟩, newline_not_mem_field (hnumber _) _ _⟩, ?_⟩,
      newline_not_mem_field (Text.newline_not_mem_json _) _ _⟩, newline_not_mem_field hextra _ _⟩, ?_⟩
    all_goals simp [Text.newline_not_mem_json, hnumber]

-- ---------------------------------------------------------------------------
-- Lines of a trace
-- ---------------------------------------------------------------------------

theorem line_eq_concat (e : Event) (f : Format) : ∃ body, e.line f = body ++ [newline] := by
  unfold line
  split
  · exact ⟨_, rfl⟩
  · exact ⟨_, rfl⟩

theorem line_isLine_iff (e : Event) (f : Format) : (e.line f).IsLine ↔ f = Format.json ∨ e.Unbroken := by
  by_cases hf : f = Format.json
  · rw [line, if_pos hf]
    exact iff_of_true e.json_isLine (.inl hf)
  · obtain ⟨body, hbody⟩ := e.plain_eq_concat
    have hcount := e.count_newline_plain
    rw [hbody, List.count_append, List.count_singleton_self] at hcount
    rw [line, if_neg hf, or_iff_right hf, hbody, Text.isLine_iff_count, unbroken_iff]
    omega

end Event

/-- The text has a record for each event, and that is its line, if no text of an event breaks a line of the
format. If one does, there are more records than events. -/
structure TellsEach (f : Format) (es : List Event) (t : Text) : Prop where
  each : f = Format.json ∨ (∀ e ∈ es, e.Unbroken) → t.records = es.map fun e => (e.line f).dropLast
  more : ¬ (f = Format.json ∨ ∀ e ∈ es, e.Unbroken) → es.length < t.records.length

theorem tellsEach_lines (f : Format) (es : List Event) : TellsEach f es (es.flatMap (·.line f)) := by
  constructor
  · intro h
    refine Text.records_flatMap fun e he => (e.line_isLine_iff f).mpr ?_
    exact h.imp_right fun hall => hall e he
  · intro h
    obtain ⟨hf, hsome⟩ := not_or.mp h
    simp only [not_forall] at hsome
    obtain ⟨e, he, hbroken⟩ := hsome
    refine Text.length_lt_records (fun e => e.line_eq_concat f) ⟨e, he, ?_⟩
    rw [e.line_isLine_iff f]
    exact not_or.mpr ⟨hf, hbroken⟩

namespace Event

/-- As JSON every event is one line, and as plain text every event is whose texts hold no line feed. So it
is with what a ring dumps and with what a feed has written: there is one record for each of the events, or
more. -/
theorem one_line_iff (f : Format) :
    (∀ e : Event, (e.line f).IsLine ↔ f = Format.json ∨ e.Unbroken) ∧
    (∀ r : Ring, TellsEach f r.snapshot (r.dump f).flatten) ∧
    ∀ (l : Level) (events : List Event),
      TellsEach f (l.passing events) (events.foldl Feed.emit ⟨l, f, {}⟩).device.lines.toList.flatten := by
  refine ⟨fun e => e.line_isLine_iff f, fun r => ?_, fun l events => ?_⟩
  · rw [Ring.dump, ← List.flatMap_def]
    exact tellsEach_lines f r.snapshot
  · have hwritten : (events.foldl Feed.emit ⟨l, f, {}⟩).device.lines.toList =
        (l.passing events).map (·.line f) := by
      rw [Feed.emits_eq]
      simp
    rw [hwritten, ← List.flatMap_def]
    exact tellsEach_lines f (l.passing events)

/-- A failure that was told in two lines. -/
def torn : Event where
  seq := 1
  kind := Kind.failure
  scope := Scope.process
  name := "expand"
  detail := "bad reply\nretry"

/-- One event, and two records of it. -/
theorem torn_not_one_line : ¬ (torn.line Format.text).IsLine ∧
    (torn.line Format.text).records = [Text.ofString "[     1] ! process:expand (bad reply", "retry)"] ∧
    (torn.line Format.json).IsLine := by
  have hbroken : ¬ torn.Unbroken := fun h => absurd h.detail (by decide)
  refine ⟨?_, by decide +kernel, torn.json_isLine⟩
  rw [line_isLine_iff]
  exact not_or.mpr ⟨by decide, hbroken⟩

end Event

end MacroRelay.Trace
