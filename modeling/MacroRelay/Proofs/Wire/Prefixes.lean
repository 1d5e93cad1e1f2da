import MacroRelay.Proofs.Wire.Values
import MacroRelay.Wire.Gen2

/-!
# Readers go on

What can be read of a text can be read of every longer text, and leaves the rest of that. So a
value that takes up a whole text cannot be read from a beginning of the text.
-/

namespace MacroRelay

namespace Pack

/-- What is read does not depend on what follows it. -/
def GoesOn (read : Text → Reading α) : Prop :=
  ∀ ⦃t a rest⦄, read t = .ok (a, rest) → ∀ s, read (t ++ s) = .ok (a, rest ++ s)

namespace GoesOn

variable {read : Text → Reading α}

theorem done (a : α) : GoesOn fun t => .ok (a, t) := by
  rintro t _ _ ⟨⟩ s
  rfl

theorem fail (fault : Fault) : GoesOn fun _ => (.error fault : Reading α) := nofun

theorem choice {c : Prop} [Decidable c] {read' : Text → Reading α} (h : GoesOn read)
    (h' : GoesOn read') : GoesOn fun t => if c then read t else read' t := by
  by_cases hc : c
  · simpa [hc] using h
  · simpa [hc] using h'

theorem map (h : GoesOn read) (f : α → β) :
    GoesOn fun t => (read t).map fun (a, rest) => (f a, rest) := by
  intro t b rest hb s
  obtain ⟨⟨a, left⟩, ha, hb⟩ := map_ok.mp hb
  cases hb
  simp only [h ha s, Except.map]

/-- Nothing is left of a text that is read as a whole, so no beginning of it can be read. -/
theorem cut (h : GoesOn read) {a b : α} {t s rest : Text} (hwhole : read (t ++ s) = .ok (a, []))
    (hs : s ≠ []) : read t ≠ .ok (b, rest) := by
  intro hread
  have hsame := (h hread s).symm.trans hwhole
  simp only [Except.ok.injEq, Prod.mk.injEq, List.append_eq_nil_iff] at hsame
  exact hs hsame.2.2

end GoesOn

theorem takeExact_goesOn (n : Nat) : GoesOn (takeExact n) := by
  intro t part rest h s
  obtain ⟨left, hdrop, h⟩ := map_ok.mp h
  cases h
  obtain ⟨front, rfl, rfl⟩ := dropExact_eq hdrop
  rw [List.append_assoc, takeExact_append, List.take_left]

theorem readBig_goesOn (size : Nat) : GoesOn (readBig size) :=
  (takeExact_goesOn size).map ofBigEndian

theorem Family.read_goesOn (f : Family) (code : UInt8) : GoesOn (f.read code) := by
  unfold Family.read
  cases f.sizeBytes? code with
  | none => exact .fail _
  | some size =>
    cases size with
    | zero => exact .done _
    | succ size => exact readBig_goesOn _

theorem readCount_goesOn (f : Family) : GoesOn (readCount f) := by
  intro t n rest h s
  cases t with
  | nil => cases h
  | cons code t =>
    have htail := GoesOn.choice (c := code = nil) (.done none) ((f.read_goesOn code).map some)
    exact htail h s

theorem readBytes_goesOn : GoesOn readBytes := by
  intro t part rest h s
  cases t with
  | nil => cases h
  | cons code t =>
    by_cases hnil : code = nil
    · simp only [readBytes, hnil, List.cons_append, if_true] at h ⊢
      cases h
      rfl
    · simp only [readBytes, hnil, List.cons_append, if_false, bind, Except.bind] at h ⊢
      generalize (if (Family.text.sizeBytes? code).isSome then Family.text else Family.bytes) =
        family at h ⊢
      cases hsize : family.read code t with
      | error fault => simp [hsize] at h
      | ok out =>
        cases hpart : takeExact out.1 out.2 with
        | error fault => simp [hsize, hpart] at h
        | ok out' =>
          simp only [hsize, hpart] at h
          simp only [family.read_goesOn code hsize s, takeExact_goesOn _ hpart s]
          cases h
          rfl

theorem readText_goesOn : GoesOn readText :=
  readBytes_goesOn.map (·.getD [])

theorem readInteger_goesOn : GoesOn readInteger := by
  intro t n rest h s
  cases t with
  | nil => cases h
  | cons code t =>
    have htail : GoesOn fun rest => readInteger (code :: rest) := by
      refine .choice (.done 0) (.choice (.done _) (.choice (.done _) ?_))
      cases integerHeads.lookup code with
      | none => exact .fail _
      | some head =>
        exact (readBig_goesOn head.1).map fun n => if head.2 then signExtend head.1 n else n
    exact htail h s

theorem skip_goesOn {k : Nat} {t rest : Text} (h : skip k t = .ok rest) (s : Text) :
    skip k (t ++ s) = .ok (rest ++ s) := by
  obtain ⟨vs, rfl, hvs, rfl⟩ := skip_values h
  have hskip := skip_row (fun v hv => (hvs v hv).skip) 0 (rest ++ s)
  rw [Nat.zero_add, skip] at hskip
  rw [List.append_assoc, hskip]

theorem readCount_map_of_array {t rest : Text} {n : Nat}
    (h : readCount .array t = .ok (some n, rest)) : readCount .map t = .error .malformed := by
  cases t with
  | nil => cases h
  | cons code t =>
    by_cases hnil : code = nil
    · simp [readCount, hnil] at h
    · obtain ⟨⟨m, left⟩, hread, -⟩ := map_ok.mp (by simpa only [readCount, if_neg hnil] using h)
      have harray : (Family.array.sizeBytes? code).isSome := by
        rw [Option.isSome_iff_ne_none]
        intro hnone
        simp [Family.read, hnone] at hread
      have hmap : Family.map.sizeBytes? code = none := by
        refine Option.not_isSome_iff_eq_none.mp fun hmap => ?_
        obtain ⟨-, -, hthird⟩ := sized_apart code ((.array, fun n => (0, n)), 3)
          (List.mem_zipIdx_iff_getElem?.mpr rfl) harray
        obtain ⟨-, -, hfourth⟩ := sized_apart code ((.map, fun n => (0, 2 * n)), 4)
          (List.mem_zipIdx_iff_getElem?.mpr rfl) hmap
        cases hthird.symm.trans hfourth
      simp [readCount, hnil, Family.read, hmap, Except.map]

end Pack

-- ---------------------------------------------------------------------------
-- Messages
-- ---------------------------------------------------------------------------

namespace Codec

/-- Whatever a value is read onto, it does not depend on what follows it. -/
def GoesOn (c : Codec α) : Prop := ∀ d, Pack.GoesOn (c.read d)

theorem GoesOn.readValue {c : Codec α} (h : c.GoesOn) : Pack.GoesOn c.readValue :=
  (h .blank).map fun d => c.ofView d.datum

theorem text_goesOn : text.GoesOn := fun _ =>
  Pack.readText_goesOn.map fun t => Draft.leaf (.text t)

theorem word_goesOn {code : UInt8} {size : Nat} {toNat : α → Nat} {ofNat : Nat → α} :
    (word code size toNat ofNat).GoesOn := fun _ =>
  Pack.readInteger_goesOn.map fun n => Draft.leaf (.number n)

theorem readAll_goesOn {c : Codec α} (hc : c.GoesOn) (n : Nat) (places done : List Draft) :
    Pack.GoesOn (c.readAll n places done) := by
  intro t d rest h s
  fun_induction readAll c n places done t with
  | case1 places done t =>
    cases h
    rfl
  | case2 n places done t part left hr ih => simp only [readAll, hc _ hr s, ih h]
  | case3 => cases h

theorem list_goesOn {c : Codec α} (hc : c.GoesOn) : c.list.GoesOn := by
  intro old t d rest h s
  simp only [list] at h ⊢
  split at h
  · rename_i n left hn
    simp only [Pack.readCount_goesOn _ hn s, readAll_goesOn hc n _ _ h s]
  · rename_i left hn
    cases h
    simp only [Pack.readCount_goesOn _ hn s]
  · cases h

theorem optional_goesOn {c : Codec α} (hc : c.GoesOn) : c.optional.GoesOn := by
  intro old t d rest h s
  cases t with
  | nil => cases h
  | cons code t =>
    have hvalue : Pack.GoesOn fun t => c.read old (code :: t) := fun t d rest h s => hc old h s
    exact Pack.GoesOn.choice (c := code = Pack.nil) (.done _) hvalue h s

end Codec

namespace Field

def GoesOn (f : Field σ) : Prop := ∀ d, Pack.GoesOn (f.read d)

@[simp] theorem of_goesOn {c : Codec α} {name : String} {get : σ → α} {set : σ → α → σ} :
    (of name c get set).GoesOn ↔ c.GoesOn := Iff.rfl

@[simp] theorem unlessZero_goesOn {c : Codec α} {name : String} {get : σ → α} {set : σ → α → σ} :
    (unlessZero name c get set).GoesOn ↔ c.GoesOn := Iff.rfl

theorem readInto_goesOn {f : Field σ} (hf : f.GoesOn) (d : Draft) : Pack.GoesOn (f.readInto d) :=
  (hf _).map fun part => d.withField f.name part

theorem readEntries_goesOn {fields : List (Field σ)} (hf : ∀ f ∈ fields, f.GoesOn) (n : Nat)
    (d : Draft) : Pack.GoesOn (readEntries fields n d) := by
  intro t d' rest h s
  fun_induction readEntries fields n d t with
  | case1 =>
    cases h
    rfl
  | case2 => cases h
  | case3 n d t name left hname field hfind d1 left1 hr ih =>
    have hfield := readInto_goesOn (hf field (List.mem_of_find?_eq_some hfind)) d hr s
    simp only [readEntries, Pack.readText_goesOn hname s, hfind, hfield, ih h]
  | case4 => cases h
  | case5 n d t name left hname hfind left1 hskip ih =>
    simp only [readEntries, Pack.readText_goesOn hname s, hfind, Pack.skip_goesOn hskip s, ih h]
  | case6 => cases h

theorem readInOrder_goesOn {fields : List (Field σ)} (hf : ∀ f ∈ fields, f.GoesOn) (d : Draft) :
    Pack.GoesOn (readInOrder fields d) := by
  intro t d' rest h s
  fun_induction readInOrder fields d t with
  | case1 =>
    cases h
    rfl
  | case2 field fields d t d1 left hr ih =>
    have hfield := readInto_goesOn (hf field List.mem_cons_self) d hr s
    simp only [readInOrder, hfield, ih (fun f hm => hf f (List.mem_cons_of_mem _ hm)) h]
  | case3 => cases h

end Field

namespace Codec

theorem record_goesOn {zero : σ} {fields : List (Field σ)} (hf : ∀ f ∈ fields, f.GoesOn) :
    (record zero fields).GoesOn := by
  intro d t d' rest h s
  simp only [record] at h ⊢
  split at h
  · rename_i n left hn
    simp only [Pack.readCount_goesOn _ hn s, Field.readEntries_goesOn hf n _ h s]
  · rename_i left hn
    cases h
    simp only [Pack.readCount_goesOn _ hn s]
  · split at h
    · -- an array in place of the map
      rename_i n left hn
      have harray := Pack.readCount_goesOn _ hn s
      simp only [harray, Pack.readCount_map_of_array harray]
      split at h
      · rename_i hzero
        cases h
        simp only [hzero, if_true]
      · rename_i hzero
        simp only [hzero, if_false]
        split at h
        · rename_i hall
          simp only [hall, if_true, Field.readInOrder_goesOn hf _ h s]
        · cases h
    · cases h
    · cases h

end Codec

open Codec

theorem Span.goesOn : Span.codec.GoesOn :=
  record_goesOn (by simp [word32, word_goesOn])

namespace Gen2

theorem Stream.goesOn : Stream.codec.GoesOn := by
  have hcontent : StreamToken.contentCodec.GoesOn :=
    record_goesOn (by simp [text_goesOn, Span.goesOn])
  have htoken : StreamToken.codec.GoesOn := record_goesOn (by simp [hcontent])
  have hmetadata : Metadata.codec.GoesOn := record_goesOn (by simp [text_goesOn])
  exact record_goesOn (by simp [list_goesOn htoken, hmetadata])

theorem Result.goesOn : Result.codec.GoesOn := by
  have hdiagnostic : Diagnostic.codec.GoesOn :=
    record_goesOn (by simp [text_goesOn, word8, word_goesOn, optional_goesOn Span.goesOn])
  have horigin : WireOrigin.codec.GoesOn :=
    record_goesOn (by simp [word8, word32, word_goesOn, Span.goesOn])
  have hmapping : WireMapping.codec.GoesOn :=
    record_goesOn (by simp [Span.goesOn, horigin])
  exact record_goesOn
    (by simp [Stream.goesOn, list_goesOn hdiagnostic, list_goesOn hmapping])

end Gen2

end MacroRelay
