import MacroRelay.Proofs.Path.Cleaning
import MacroRelay.Source.FileSet
import Mathlib.Algebra.Group.Nat.Defs
import Mathlib.Data.List.Induction

/-!
# Files are added and never change

A set of files is the list of what was added to it, in the order of numbers, and the paths are a second
view of the same list: a path names the file that was added last under it, however the path is spelled.
-/

namespace MacroRelay

namespace FileSet

variable {s s' : FileSet} {path content : Text} {flags : FileFlags}

-- ---------------------------------------------------------------------------
-- Growing
-- ---------------------------------------------------------------------------

structure Grown (s s' : FileSet) : Prop where
  keeps : ∀ id f, s.get? id = some f → s'.get? id = some f
  size : s.files.size ≤ s'.files.size

theorem Grown.refl (s : FileSet) : s.Grown s := ⟨fun _ _ h => h, Nat.le_refl _⟩

theorem Grown.trans {s s' s'' : FileSet} (h : s.Grown s') (h' : s'.Grown s'') : s.Grown s'' :=
  ⟨fun id f hf => h'.keeps id f (h.keeps id f hf), Nat.le_trans h.size h'.size⟩

theorem size_add (path content : Text) (flags : FileFlags) :
    (s.add path content flags).1.files.size = s.files.size + 1 :=
  Array.size_push _

theorem toNat_add (h : s.files.size < 2 ^ 32) (path content : Text) (flags : FileFlags) :
    (s.add path content flags).2.toNat = s.files.size :=
  UInt32.toNat_ofNat_of_lt' h

theorem grown_add (s : FileSet) (path content : Text) (flags : FileFlags) :
    s.Grown (s.add path content flags).1 := by
  refine ⟨fun id f hf => ?_, by rw [size_add]; omega⟩
  obtain ⟨hlt, rfl⟩ := Array.getElem?_eq_some_iff.mp hf
  exact Array.getElem?_push_lt hlt

theorem get?_add (h : s.files.size < 2 ^ 32) (path content : Text) (flags : FileFlags) :
    (s.add path content flags).1.get? (s.add path content flags).2 =
      some ⟨(s.add path content flags).2, Path.clean path, content, flags,
        lineFeedsFrom 0 #[] content⟩ := by
  rw [get?, toNat_add h]
  exact Array.getElem?_push_size

-- ---------------------------------------------------------------------------
-- Edits
-- ---------------------------------------------------------------------------

/-- What is asked of a set of files. A file is loaded from the tree as it is then. -/
inductive Edit where
  | add : Text → Text → FileFlags → Edit
  | addVirtual : Text → Text → Edit
  | load : FileTree → Text → Edit

def edit (s : FileSet) : Edit → FileSet × Option FileId
  | .add path content flags => ((s.add path content flags).1, some (s.add path content flags).2)
  | .addVirtual path content => ((s.addVirtual path content).1, some (s.addVirtual path content).2)
  | .load tree path =>
    match s.load tree path with
    | .ok (s', id) => (s', some id)
    | .error _ => (s, none)

def edits (s : FileSet) (es : List Edit) : FileSet × List FileId :=
  es.foldl (fun (s, ids) e => ((s.edit e).1, ids ++ (s.edit e).2.toList)) (s, [])

structure Addition where
  path : Text
  content : Text
  flags : FileFlags

def Addition.file (id : FileId) (a : Addition) : SourceFile :=
  ⟨id, Path.clean a.path, a.content, a.flags, lineFeedsFrom 0 #[] a.content⟩

def Edit.addition? : Edit → Option Addition
  | .add path content flags => some ⟨path, content, flags⟩
  | .addVirtual path content => some ⟨path, content, .virtual⟩
  | .load tree path => (tree.read path).toOption.map fun raw => ⟨path, (normalize raw).1, (normalize raw).2⟩

theorem load_eq (s : FileSet) (tree : FileTree) (path : Text) :
    s.load tree path = (tree.read path).map fun raw => s.add path (normalize raw).1 (normalize raw).2 := by
  rw [load]
  cases tree.read path <;> rfl

theorem edit_eq (s : FileSet) (e : Edit) : s.edit e = match e.addition? with
    | some a => ((s.add a.path a.content a.flags).1, some (s.add a.path a.content a.flags).2)
    | none => (s, none) := by
  cases e with
  | add path content flags => rfl
  | addVirtual path content => rfl
  | load tree path =>
    rw [edit, load_eq, Edit.addition?]
    cases tree.read path <;> rfl

theorem edits_concat (s : FileSet) (es : List Edit) (e : Edit) : s.edits (es ++ [e]) =
    (((s.edits es).1.edit e).1, (s.edits es).2 ++ ((s.edits es).1.edit e).2.toList) := by
  simp [edits, List.foldl_append]

theorem grown_edit (s : FileSet) (e : Edit) : s.Grown (s.edit e).1 := by
  rw [edit_eq]
  cases e.addition? with
  | none => exact .refl s
  | some a => exact s.grown_add a.path a.content a.flags

theorem grown_edits_append (s : FileSet) (es more : List Edit) :
    (s.edits es).1.Grown (s.edits (es ++ more)).1 := by
  induction more using List.reverseRecOn with
  | nil =>
    rw [List.append_nil]
    exact .refl _
  | append_singleton more e ih =>
    rw [← List.append_assoc, edits_concat]
    exact ih.trans (grown_edit _ e)

/-- What additions keep, as long as there are at most `n` files, is so after any edits. -/
theorem edits_induction {P : FileSet → List FileId → List Addition → Prop} {n : Nat} {es : List Edit}
    (hn : (empty.edits es).1.files.size ≤ n) (start : P empty [] [])
    (add : ∀ s ids added (a : Addition), s.files.size < n → P s ids added →
      P (s.add a.path a.content a.flags).1 (ids ++ [(s.add a.path a.content a.flags).2]) (added ++ [a])) :
    P (empty.edits es).1 (empty.edits es).2 (es.filterMap Edit.addition?) := by
  induction es using List.reverseRecOn with
  | nil => exact start
  | append_singleton es e ih =>
    rw [edits_concat] at hn ⊢
    have ih := ih (Nat.le_trans ((empty.edits es).1.grown_edit e).size hn)
    rw [edit_eq] at hn ⊢
    rw [List.filterMap_append]
    cases he : e.addition? with
    | none => simpa [he] using ih
    | some a =>
      rw [he] at hn
      dsimp only at hn ⊢
      rw [size_add] at hn
      simpa [he] using add _ _ _ a hn ih

-- ---------------------------------------------------------------------------
-- The list
-- ---------------------------------------------------------------------------

def Lists (s : FileSet) (added : List Addition) : Prop :=
  s.files.toList = added.mapIdx fun i a => a.file i.toUInt32

variable {added : List Addition} {id : FileId} {f : SourceFile} {e : Edit} {es : List Edit}

theorem Lists.size (h : s.Lists added) : s.files.size = added.length := by
  rw [← Array.length_toList, h, List.length_mapIdx]

theorem Lists.get? (h : s.Lists added) : s.get? id = added[id.toNat]?.map (Addition.file id) := by
  rw [FileSet.get?, ← Array.getElem?_toList, h, List.getElem?_mapIdx]
  simp

theorem Lists.filePath (h : s.Lists added) :
    s.filePath id = added[id.toNat]?.elim [] (Path.clean ·.path) := by
  rw [FileSet.filePath, h.get?]
  cases added[id.toNat]? <;> rfl

theorem Lists.add (h : s.Lists added) (a : Addition) :
    (s.add a.path a.content a.flags).1.Lists (added ++ [a]) := by
  rw [Lists, List.mapIdx_concat, ← h, ← h.size]
  exact Array.toList_push

theorem lists_edits (es : List Edit) : (empty.edits es).1.Lists (es.filterMap Edit.addition?) :=
  edits_induction (P := fun s _ added => s.Lists added) (Nat.le_refl _) rfl
    fun _ _ _ a _ h => h.add a

theorem ids_edits (hroom : (empty.edits es).1.files.size ≤ 2 ^ 32) :
    (empty.edits es).2.map UInt32.toNat = List.range (empty.edits es).1.files.size := by
  refine edits_induction (P := fun s ids _ => ids.map UInt32.toNat = List.range s.files.size)
    hroom rfl fun s ids _ a hs h => ?_
  rw [size_add, List.range_succ, List.map_append, h, List.map_singleton, toNat_add hs]

-- ---------------------------------------------------------------------------
-- The paths
-- ---------------------------------------------------------------------------

/-- The largest number among the files with the path. -/
structure IsNewest (s : FileSet) (path : Text) (id : FileId) : Prop where
  valid : id.toNat < s.files.size
  named : s.filePath id = path
  newest : ∀ other : FileId, other.toNat < s.files.size → s.filePath other = path → other ≤ id

/-- The table of paths has the newest file of each. -/
def Names (s : FileSet) : Prop :=
  ∀ path id, s.byPath[path]? = some id ↔ s.IsNewest path id

section
variable (hroom : s.files.size < 2 ^ 32) (path content : Text) (flags : FileFlags)
include hroom

theorem lt_size_add (id : FileId) : id.toNat < (s.add path content flags).1.files.size ↔
    id = (s.add path content flags).2 ∨ id.toNat < s.files.size := by
  rw [size_add, ← UInt32.toNat_inj, toNat_add hroom]
  omega

theorem filePath_add (id : FileId) : (s.add path content flags).1.filePath id =
    if id = (s.add path content flags).2 then Path.clean path else s.filePath id := by
  by_cases hid : id = (s.add path content flags).2
  · rw [if_pos hid, hid, filePath, get?_add hroom]
    rfl
  · have hne : id.toNat ≠ s.files.size := fun heq =>
      hid (UInt32.toNat_inj.mp (heq.trans (toNat_add hroom path content flags).symm))
    have hfiles : (s.add path content flags).1.files = s.files.push _ := rfl
    rw [if_neg hid, filePath, filePath, get?, get?, hfiles, Array.getElem?_push, if_neg hne]

theorem isNewest_add_self :
    (s.add path content flags).1.IsNewest (Path.clean path) (s.add path content flags).2 := by
  refine ⟨(lt_size_add hroom ..).mpr (.inl rfl), by rw [filePath_add hroom, if_pos rfl], ?_⟩
  intro other hother _
  rw [UInt32.le_iff_toNat_le]
  rcases (lt_size_add hroom ..).mp hother with rfl | hother
  · exact Nat.le_refl _
  · rw [toNat_add hroom]
    omega

theorem isNewest_add_of_ne {other : Text} (hne : Path.clean path ≠ other) (id : FileId) :
    (s.add path content flags).1.IsNewest other id ↔ s.IsNewest other id := by
  have hold {file : FileId} (hfile : file.toNat < s.files.size) :
      file.toNat < (s.add path content flags).1.files.size ∧
        (s.add path content flags).1.filePath file = s.filePath file := by
    refine ⟨(lt_size_add hroom ..).mpr (.inr hfile), ?_⟩
    rw [filePath_add hroom, if_neg]
    rintro rfl
    rw [toNat_add hroom] at hfile
    exact Nat.lt_irrefl _ hfile
  have hback {file : FileId} (hfile : file.toNat < (s.add path content flags).1.files.size)
      (hpath : (s.add path content flags).1.filePath file = other) :
      file.toNat < s.files.size ∧ s.filePath file = other := by
    rw [filePath_add hroom] at hpath
    split at hpath
    · exact absurd hpath hne
    · rename_i hfile'
      exact ⟨((lt_size_add hroom ..).mp hfile).resolve_left hfile', hpath⟩
  constructor
  · rintro ⟨hvalid, hnamed, hnewest⟩
    obtain ⟨hvalid, hnamed⟩ := hback hvalid hnamed
    refine ⟨hvalid, hnamed, fun file hfile hpath => ?_⟩
    exact hnewest file (hold hfile).1 ((hold hfile).2.trans hpath)
  · rintro ⟨hvalid, hnamed, hnewest⟩
    refine ⟨(hold hvalid).1, (hold hvalid).2.trans hnamed, fun file hfile hpath => ?_⟩
    obtain ⟨hfile, hpath⟩ := hback hfile hpath
    exact hnewest file hfile hpath

end

theorem IsNewest.unique {id' : FileId} (h : s.IsNewest path id) (h' : s.IsNewest path id') : id = id' :=
  UInt32.le_antisymm (h'.newest id h.valid h.named) (h.newest id' h'.valid h'.named)

theorem Names.add (hs : s.Names) (hroom : s.files.size < 2 ^ 32) (path content : Text)
    (flags : FileFlags) : (s.add path content flags).1.Names := by
  intro other id
  have hinsert : (s.add path content flags).1.byPath[other]? =
      if Path.clean path == other then some (s.add path content flags).2 else s.byPath[other]? :=
    Std.HashMap.getElem?_insert
  have hself := isNewest_add_self hroom path content flags
  rw [hinsert]
  by_cases hother : Path.clean path = other
  · rw [if_pos (beq_iff_eq.mpr hother), Option.some_inj, ← hother]
    exact ⟨fun h => h ▸ hself, fun h => hself.unique h⟩
  · rw [if_neg (mt beq_iff_eq.mp hother), hs, isNewest_add_of_ne hroom _ _ _ hother]

theorem names_empty : empty.Names := by
  intro path id
  constructor
  · intro h
    simp [empty] at h
  · intro h
    exact absurd h.valid (Nat.not_lt_zero _)

theorem names_edits (hroom : (empty.edits es).1.files.size ≤ 2 ^ 32) : (empty.edits es).1.Names :=
  edits_induction (P := fun s _ _ => s.Names) hroom names_empty
    fun _ _ _ a hs h => h.add hs a.path a.content a.flags

theorem Names.lookup_eq_some (h : s.Names) :
    s.lookup path = some id ↔ s.IsNewest (Path.clean path) id :=
  h _ _

theorem exists_isNewest (id : FileId) (hid : id.toNat < s.files.size) : ∃ newest, s.IsNewest (s.filePath id) newest := by
  by_cases hnewer : ∃ other : FileId, other.toNat < s.files.size ∧
      s.filePath other = s.filePath id ∧ id.toNat < other.toNat
  · obtain ⟨other, hother, hpath, hlt⟩ := hnewer
    exact hpath ▸ exists_isNewest other hother
  · refine ⟨id, hid, rfl, fun other hother hpath => ?_⟩
    rw [UInt32.le_iff_toNat_le]
    exact Nat.le_of_not_lt fun hlt => hnewer ⟨other, hother, hpath, hlt⟩
termination_by s.files.size - id.toNat

theorem Lists.clean_filePath (h : s.Lists added) (hid : id.toNat < s.files.size) :
    Path.clean (s.filePath id) = s.filePath id := by
  rw [h.size] at hid
  rw [h.filePath, List.getElem?_eq_getElem hid]
  exact Path.clean_clean _

/-- Every file is found under its path, unless a newer one has the same path. -/
theorem Names.lookup_filePath (h : s.Names) (hs : s.Lists added) (hid : id.toNat < s.files.size) :
    ∃ newest, s.lookup (s.filePath id) = some newest ∧ id ≤ newest ∧
      s.filePath newest = s.filePath id := by
  obtain ⟨newest, hnewest⟩ := exists_isNewest id hid
  refine ⟨newest, ?_, hnewest.newest id hid rfl, hnewest.named⟩
  rw [h.lookup_eq_some, hs.clean_filePath hid]
  exact hnewest

-- ---------------------------------------------------------------------------
-- Any history
-- ---------------------------------------------------------------------------

/-- A set that holds what was added, with the numbers that were given out for it. -/
structure Records (s : FileSet) (ids : List FileId) (added : List Addition) : Prop where
  size : s.files.size = added.length
  ids : ids.map UInt32.toNat = List.range s.files.size
  get? : ∀ id, s.get? id = added[id.toNat]?.map (Addition.file id)
  filePath : ∀ id, s.filePath id = added[id.toNat]?.elim [] (Path.clean ·.path)
  lookup : ∀ path id, s.lookup path = some id ↔ s.IsNewest (Path.clean path) id
  lookup_filePath : ∀ id : FileId, id.toNat < s.files.size → ∃ newest,
    s.lookup (s.filePath id) = some newest ∧ id ≤ newest ∧ s.filePath newest = s.filePath id

/-- After any edits that there were numbers for, a set holds what they added, and goes on to hold it.
Its paths are the clean ones, which the lexical rules lead to and do not change any more. -/
theorem edits_append_only (es : List Edit) (hroom : (empty.edits es).1.files.size ≤ 2 ^ 32) :
    (empty.edits es).1.Records (empty.edits es).2 (es.filterMap Edit.addition?) ∧
    (∀ more, (empty.edits es).1.Grown (empty.edits (es ++ more)).1) ∧
    (∀ p q, Path.IsCleaned p q ↔ q = Path.clean p) ∧
    (∀ p, Path.clean (Path.clean p) = Path.clean p) := by
  have hlists := lists_edits es
  have hnames := names_edits hroom
  refine ⟨?_, empty.grown_edits_append es, fun p q => Path.isCleaned_iff, Path.clean_clean⟩
  exact {
    size := hlists.size
    ids := ids_edits hroom
    get? _ := hlists.get?
    filePath _ := hlists.filePath
    lookup _ _ := hnames.lookup_eq_some
    lookup_filePath _ hid := hnames.lookup_filePath hlists hid }

/-- One path, spelled in two ways, and a file that is not there. -/
def respelled : List Edit :=
  [.add "a/./b" "x" 0, .load (FileTree.empty "/") "a/b", .addVirtual "a/c//../b/" "y"]

theorem edits_append_only_respelled : (empty.edits respelled).1.files.size ≤ 2 ^ 32 ∧
    (empty.edits respelled).2.map UInt32.toNat = [0, 1] ∧
    (empty.edits respelled).1.filePath 0 = Text.ofString "a/b" ∧
    (empty.edits respelled).1.lookup "./a/b" = some 1 := by
  have hroom : (empty.edits respelled).1.files.size ≤ 2 ^ 32 := by decide
  obtain ⟨h, -⟩ := edits_append_only respelled hroom
  refine ⟨hroom, h.ids, by rw [h.filePath]; decide, (h.lookup _ _).mpr ⟨by decide, by decide, ?_⟩⟩
  intro other hother _
  have hsize : (empty.edits respelled).1.files.size = 2 := by decide
  rw [UInt32.le_iff_toNat_le]
  change _ ≤ 1
  omega

end FileSet

end MacroRelay
