import MacroRelay.Proofs.Source.Lines

/-!
# Files as they are loaded

Loading takes a byte order mark from the front of a file and one carriage return from the end of every
line that a line feed ends. Line feeds stay, so every byte that is kept stays in its line.
-/

namespace MacroRelay

namespace Text

variable {t line : Text} {lines : List Text}

theorem joined_cons_cons (separator first next : Text) (rest : List Text) :
    joined separator (first :: next :: rest) = first ++ separator ++ joined separator (next :: rest) := by
  simp [joined, List.intercalate_cons_cons]

theorem joined_splitAt (b : UInt8) (t : Text) : joined [b] (splitAt b t) = t := by
  induction t with
  | nil => rfl
  | cons c t ih =>
    obtain ⟨first, rest, ht⟩ := List.exists_cons_of_ne_nil (splitAt_ne_nil b t)
    rw [ht] at ih
    by_cases hc : c = b
    · subst hc
      rw [splitAt_cons_self, ht, joined_cons_cons, ih]
      rfl
    · rw [splitAt_cons_ne hc ht, ← ih]
      cases rest <;> simp [joined, List.intercalate]

def withoutReturn (line : Text) : Text :=
  if line.getLast? = some 0x0D then line.dropLast else line

/-- Lines as they are stored. No line feed ends the last one, so it is left alone. -/
def storedLines (lines : List Text) : List Text :=
  lines.dropLast.map withoutReturn ++ lines.getLast?.toList

theorem storedLines_cons_cons (first next : Text) (rest : List Text) :
    storedLines (first :: next :: rest) = withoutReturn first :: storedLines (next :: rest) := by
  simp [storedLines]

theorem storedLines_ne_nil (h : lines ≠ []) : storedLines lines ≠ [] := by
  simp [storedLines, List.getLast?_eq_some_getLast h]

theorem length_withoutReturn_le (line : Text) : (withoutReturn line).length ≤ line.length := by
  rw [withoutReturn]
  split <;> simp

theorem length_withoutReturn_lt :
    (withoutReturn line).length < line.length ↔ line.getLast? = some 0x0D := by
  rw [withoutReturn]
  split
  · rename_i hlast
    have hne : line ≠ [] := by
      rintro rfl
      cases hlast
    have hpos := List.length_pos_iff.mpr hne
    simp [hlast]
    omega
  · rename_i hlast
    simp [hlast]

theorem length_joined_storedLines (b : UInt8) (lines : List Text) :
    (joined [b] (storedLines lines)).length ≤ (joined [b] lines).length ∧
      ((joined [b] (storedLines lines)).length < (joined [b] lines).length ↔
        ∃ line ∈ lines.dropLast, line.getLast? = some 0x0D) := by
  match lines with
  | [] => simp [storedLines, joined]
  | [last] => simp [storedLines]
  | first :: next :: rest =>
    obtain ⟨hle, hlt⟩ := length_joined_storedLines b (next :: rest)
    have hfirst := length_withoutReturn_le first
    obtain ⟨next', rest', hstored⟩ :=
      List.exists_cons_of_ne_nil (storedLines_ne_nil (List.cons_ne_nil next rest))
    rw [storedLines_cons_cons, hstored, joined_cons_cons, joined_cons_cons, ← hstored,
      List.dropLast_cons_cons, List.exists_mem_cons_iff, ← hlt, ← length_withoutReturn_lt]
    simp only [List.length_append]
    omega

end Text

namespace FileSet

open Text

variable {t line raw : Text}

-- ---------------------------------------------------------------------------
-- Carriage returns
-- ---------------------------------------------------------------------------

theorem dropReturns_nil : dropReturns [] = [] := rfl

theorem dropReturns_cons (b : UInt8) (t : Text) : dropReturns (b :: t) =
    if b = 0x0D ∧ t.head? = some newline then dropReturns t else b :: dropReturns t := by
  cases t <;> rfl

theorem dropReturns_of_not_mem (h : newline ∉ t) : dropReturns t = t := by
  induction t with
  | nil => rfl
  | cons b t ih =>
    obtain ⟨-, ht⟩ := not_or.mp (mt List.mem_cons.mpr h)
    have hnext : t.head? ≠ some newline := fun hhead => ht (List.mem_of_head? hhead)
    rw [dropReturns_cons, if_neg fun hboth => hnext hboth.2, ih ht]

theorem dropReturns_line (h : newline ∉ line) (rest : Text) :
    dropReturns (line ++ newline :: rest) = withoutReturn line ++ newline :: dropReturns rest := by
  induction line with
  | nil =>
    rw [List.nil_append, dropReturns_cons, if_neg fun hboth => absurd hboth.1 (by decide)]
    rfl
  | cons b line ih =>
    obtain ⟨-, hline⟩ := not_or.mp (mt List.mem_cons.mpr h)
    rw [List.cons_append, dropReturns_cons, ih hline]
    cases line with
    | nil => by_cases hb : b = 0x0D <;> simp [withoutReturn, hb]
    | cons c line =>
      have hc : c ≠ newline := fun hc => hline (hc ▸ List.mem_cons_self)
      have hlast : withoutReturn (b :: c :: line) = b :: withoutReturn (c :: line) := by
        simp only [withoutReturn, List.getLast?_cons_cons, List.dropLast_cons_cons]
        split <;> rfl
      rw [if_neg (by simp [hc]), hlast, List.cons_append]

theorem dropReturns_joined {lines : List Text} (hne : lines ≠ []) (h : ∀ line ∈ lines, newline ∉ line) :
    dropReturns (joined [newline] lines) = joined [newline] (storedLines lines) := by
  match lines with
  | [last] =>
    have hlast := dropReturns_of_not_mem (h last List.mem_cons_self)
    simpa [storedLines, joined, List.intercalate] using hlast
  | first :: next :: rest =>
    obtain ⟨hfirst, hrest⟩ := List.forall_mem_cons.mp h
    have ih := dropReturns_joined (List.cons_ne_nil next rest) hrest
    obtain ⟨next', rest', hstored⟩ :=
      List.exists_cons_of_ne_nil (storedLines_ne_nil (List.cons_ne_nil next rest))
    rw [joined_cons_cons, List.append_assoc, List.singleton_append, dropReturns_line hfirst, ih,
      storedLines_cons_cons, hstored, joined_cons_cons, List.append_assoc, List.singleton_append]

theorem dropReturns_eq (t : Text) :
    dropReturns t = joined [newline] (storedLines (t.splitAt newline)) := by
  rw [← dropReturns_joined (splitAt_ne_nil _ _) fun line => not_mem_splitAt, joined_splitAt]

-- ---------------------------------------------------------------------------
-- The byte order mark
-- ---------------------------------------------------------------------------

/-- The byte order mark of a file, if it has one. -/
def markOf (raw : Text) : Text :=
  if byteOrderMark <+: raw then byteOrderMark else []

def unmarked (raw : Text) : Text :=
  raw.drop (markOf raw).length

theorem markOf_append_unmarked (raw : Text) : markOf raw ++ unmarked raw = raw := by
  rw [unmarked, markOf]
  split
  · rename_i h
    obtain ⟨body, rfl⟩ := h
    rw [List.drop_left]
  · rfl

theorem normalize_eq (raw : Text) : normalize raw =
    (dropReturns (unmarked raw),
      let mark := if byteOrderMark <+: raw then .hadByteOrderMark else 0
      if (dropReturns (unmarked raw)).length < (unmarked raw).length
        then mark ||| .normalizedLineEnds else mark) := by
  simp only [normalize, unmarked, markOf, List.isPrefixOf_iff_prefix]
  by_cases hmark : byteOrderMark <+: raw
  · simp only [if_pos hmark]
    rfl
  · simp only [if_neg hmark]
    rfl

theorem normalize_flags (raw : Text) :
    (normalize raw).2 &&& .virtual = 0 ∧
    ((normalize raw).2 &&& .hadByteOrderMark ≠ 0 ↔ byteOrderMark <+: raw) ∧
    ((normalize raw).2 &&& .normalizedLineEnds ≠ 0 ↔
      ∃ line ∈ ((unmarked raw).splitAt newline).dropLast, line.getLast? = some 0x0D) := by
  have hshorter := (length_joined_storedLines newline ((unmarked raw).splitAt newline)).2
  rw [← dropReturns_eq, joined_splitAt] at hshorter
  rw [← hshorter, normalize_eq]
  by_cases hmark : byteOrderMark <+: raw <;>
    by_cases hlt : (dropReturns (unmarked raw)).length < (unmarked raw).length <;>
    simp only [hmark, hlt, if_true, if_false] <;> decide

-- ---------------------------------------------------------------------------
-- Places on disk
-- ---------------------------------------------------------------------------

/-- Where the bytes that are kept of a text at some place lie, and where it ends. -/
def keptFrom (place : Nat) : Text → List Nat
  | [] => [place]
  | b :: rest =>
    if b = 0x0D ∧ rest.head? = some newline then keptFrom (place + 1) rest
    else place :: keptFrom (place + 1) rest

/-- Where the bytes of the stored text lie in the file on disk, and where that ends. -/
def diskPlaces (raw : Text) : List Nat :=
  keptFrom (markOf raw).length (unmarked raw)

theorem length_keptFrom (place : Nat) (t : Text) :
    (keptFrom place t).length = (dropReturns t).length + 1 := by
  induction t generalizing place with
  | nil => rfl
  | cons b t ih =>
    rw [keptFrom, dropReturns_cons]
    split
    · exact ih _
    · rw [List.length_cons, List.length_cons, ih]

theorem le_of_mem_keptFrom {start place : Nat} (h : place ∈ keptFrom start t) : start ≤ place := by
  induction t generalizing start with
  | nil => exact Nat.le_of_eq (List.mem_singleton.mp h).symm
  | cons b t ih =>
    rw [keptFrom] at h
    split at h
    · exact Nat.le_of_succ_le (ih h)
    · rcases List.mem_cons.mp h with rfl | h
      · exact Nat.le_refl _
      · exact Nat.le_of_succ_le (ih h)

theorem keptFrom_pairwise (place : Nat) (t : Text) : (keptFrom place t).Pairwise (· < ·) := by
  induction t generalizing place with
  | nil => exact List.pairwise_singleton _ _
  | cons b t ih =>
    rw [keptFrom]
    split
    · exact ih _
    · exact .cons (fun other hother => le_of_mem_keptFrom hother) (ih _)

theorem getElem?_keptFrom {front body : Text} {i place : Nat}
    (h : (keptFrom front.length body)[i]? = some place) :
    (front ++ body)[place]? = (dropReturns body)[i]? ∧
      (front ++ body).feedsBelow place = front.count newline + (dropReturns body).feedsBelow i := by
  induction body generalizing front i with
  | nil =>
    obtain ⟨hi, rfl⟩ := List.getElem?_eq_some_iff.mp h
    obtain rfl : i = 0 := Nat.lt_one_iff.mp hi
    simp [keptFrom, feedsBelow, dropReturns_nil]
  | cons b body ih =>
    have hmove : front ++ b :: body = (front ++ [b]) ++ body := by simp
    have hlength : front.length + 1 = (front ++ [b]).length := by simp
    rw [keptFrom, hlength] at h
    rw [dropReturns_cons]
    split at h
    · rename_i hreturn
      have hfeed : b ≠ newline := by
        rw [hreturn.1]
        decide
      obtain ⟨hbyte, hfeeds⟩ := ih h
      rw [hmove, if_pos hreturn]
      refine ⟨hbyte, hfeeds.trans ?_⟩
      simp [List.count_append, hfeed]
    · rename_i hkept
      rw [if_neg hkept]
      cases i with
      | zero =>
        obtain rfl := Option.some.inj h
        simp [feedsBelow]
      | succ i =>
        obtain ⟨hbyte, hfeeds⟩ := ih (List.getElem?_cons_succ ▸ h)
        rw [hmove]
        refine ⟨hbyte, hfeeds.trans ?_⟩
        simp [feedsBelow, List.count_append, List.count_cons]
        omega

-- ---------------------------------------------------------------------------
-- Loading
-- ---------------------------------------------------------------------------

/-- A file that was loaded from bytes on disk: its text has their lines, without a byte order mark and
without a carriage return in front of a line feed. A position in it has the line on disk. -/
structure LoadedFrom (f : SourceFile) (raw : Text) : Prop where
  content : f.content = joined [newline] (storedLines ((unmarked raw).splitAt newline))
  onDisk : f.flags &&& .virtual = 0
  marked : f.flags &&& .hadByteOrderMark ≠ 0 ↔ byteOrderMark <+: raw
  normalized : f.flags &&& .normalizedLineEnds ≠ 0 ↔
    ∃ line ∈ ((unmarked raw).splitAt newline).dropLast, line.getLast? = some 0x0D
  places : (diskPlaces raw).Pairwise (· < ·) ∧ (diskPlaces raw).length = f.content.length + 1
  kept : ∀ i place : Nat, (diskPlaces raw)[i]? = some place →
    raw[place]? = f.content[i]? ∧ raw.feedsBelow place = f.content.feedsBelow i
  line : f.content.Indexable → ∀ (off : Offset) (place : Nat), off.toNat + 1 < 2 ^ 32 →
    (diskPlaces raw)[off.toNat]? = some place → (f.position off).line.toNat = 1 + raw.feedsBelow place

theorem loadedFrom_normalize (id : FileId) (path raw : Text) :
    LoadedFrom (Addition.file id ⟨path, (normalize raw).1, (normalize raw).2⟩) raw := by
  obtain ⟨honDisk, hmarked, hnormalized⟩ := normalize_flags raw
  have hcontent : (normalize raw).1 = dropReturns (unmarked raw) :=
    congrArg Prod.fst (normalize_eq raw)
  have hkept {i place : Nat} (h : (diskPlaces raw)[i]? = some place) :
      raw[place]? = (normalize raw).1[i]? ∧ raw.feedsBelow place = (normalize raw).1.feedsBelow i := by
    have hbody := getElem?_keptFrom h
    have hmark : (markOf raw).count newline = 0 := by
      rw [markOf]
      split <;> decide
    rwa [markOf_append_unmarked, hmark, Nat.zero_add, ← hcontent] at hbody
  exact {
    content := hcontent.trans (dropReturns_eq _)
    onDisk := honDisk
    marked := hmarked
    normalized := hnormalized
    places := by
      refine ⟨keptFrom_pairwise _ _, ?_⟩
      rw [diskPlaces, length_keptFrom, ← hcontent]
      rfl
    kept _ _ := hkept
    line hfeeds off place hoff h := by
      rw [(SourceFile.Indexed.position ⟨rfl, hfeeds⟩ hoff).1, (hkept h).2]
      rfl }

/-- Loading fails just if the file cannot be read, and then leaves the set as it is. Otherwise it adds
one file, which has the lines of the file on disk. -/
theorem load_keeps_lines (s : FileSet) (tree : FileTree) (path : Text) :
    (∀ fault, tree.read path = .error fault →
      s.load tree path = .error fault ∧ s.edit (.load tree path) = (s, none)) ∧
    (∀ raw, tree.read path = .ok raw → ∃ f, LoadedFrom f raw ∧ f.path = Path.clean path ∧
      s.load tree path = .ok (⟨s.files.push f, s.byPath.insert f.path f.id⟩, f.id)) := by
  constructor
  · intro fault hread
    simp [edit, load_eq, hread, Except.map]
  · intro raw hread
    refine ⟨_, loadedFrom_normalize s.files.size.toUInt32 path raw, rfl, ?_⟩
    rw [load_eq, hread]
    rfl

/-- One file, with a byte order mark and three kinds of carriage returns. -/
def markedTree : FileTree :=
  ⟨Text.ofString "/", [(Text.ofString "/a", .file (byteOrderMark ++ Text.ofString "x\r\r\ny\rz\r"))]⟩

theorem load_keeps_lines_marked :
    markedTree.read "./a" = .ok (byteOrderMark ++ Text.ofString "x\r\r\ny\rz\r") ∧
    (∃ f : SourceFile, f.content = Text.ofString "x\r\ny\rz\r" ∧ f.path = Text.ofString "a" ∧
      empty.load markedTree "./a" = .ok (⟨#[f], empty.byPath.insert f.path f.id⟩, f.id)) ∧
    markedTree.read "b" = .error (.notFound "open" "b") ∧
    empty.edit (.load markedTree "b") = (empty, none) := by
  have hread : markedTree.read "./a" = .ok (byteOrderMark ++ Text.ofString "x\r\r\ny\rz\r") := by rfl
  have hmissing : markedTree.read "b" = .error (.notFound "open" "b") := by rfl
  obtain ⟨f, hf, hpath, hload⟩ := (load_keeps_lines empty markedTree "./a").2 _ hread
  have hfault := (load_keeps_lines empty markedTree "b").1 _ hmissing
  exact ⟨hread, ⟨f, hf.content.trans (by decide), hpath.trans (by decide), hload⟩, hmissing, hfault.2⟩

end FileSet

end MacroRelay
