import MacroRelay.Proofs.Cache.Footprint
import MacroRelay.Proofs.Source.Directories
import MacroRelay.Proofs.Wire.Prefixes
import Mathlib.Data.List.Basic

/-!
# A disk cache as a map

The files of a disk cache are the leaves of its directory: no directory stands in the place of one
and no plain file in the way to one. So what is read under a key is what stands at the place of its
file, which only writing under that key and clearing the cache change.
-/

namespace MacroRelay

theorem DiskEntry.codec_goesOn : DiskEntry.codec.GoesOn :=
  Codec.record_goesOn (by simp [Codec.word16, Codec.word_goesOn, Gen2.Result.goesOn])

namespace DiskCache

open MacroRelay.Path FileTree

variable {c : DiskCache} {tree tree' : FileTree} {key other : Digest} {hs front : List Text}
  {path p content : Text}

-- ---------------------------------------------------------------------------
-- Beside the files
-- ---------------------------------------------------------------------------

theorem fileNameOf_not_mem_trail (key other : Digest) : fileNameOf key ∉ trail other := by
  have hdot : 0x2E ∈ fileNameOf key := List.mem_append_right _ (by decide)
  intro hmem
  rcases List.mem_cons.mp hmem with heq | hmem
  · rw [heq] at hdot
    exact absurd hdot (by decide)
  · rw [List.mem_singleton.mp (List.mem_filter.mp hmem).1] at hdot
    exact Text.not_mem_hex (by decide) other (List.mem_of_mem_take hdot)

theorem not_prefix_trail (key other : Digest) :
    ¬ trail key ++ [fileNameOf key] <+: trail other := fun h =>
  fileNameOf_not_mem_trail key other (h.subset (by simp))

theorem eq_of_prefix_trail
    (h : trail key ++ [fileNameOf key] <+: trail other ++ [fileNameOf other]) : key = other := by
  rcases List.prefix_concat_iff.mp h with heq | h
  · have hname := List.singleton_inj.mp (List.append_inj_right' heq rfl)
    exact Text.hex_inj (List.append_cancel_right hname)
  · exact absurd h (not_prefix_trail key other)

def Beside (p q : Text) : Prop := q ≠ p ∧ isBelow p q = false

theorem Home.beside (h : c.Home tree hs) (key : Digest) (hway : front <+: hs ++ trail other) :
    Beside (c.target tree key) (rooted front) := by
  have hplain : ∀ n ∈ front, Plain n := fun n hn => h.plain_folder other n (hway.subset hn)
  have hnot : ¬ hs ++ (trail key ++ [fileNameOf key]) <+: front := fun hinit =>
    not_prefix_trail key other ((List.prefix_append_right_inj hs).mp (hinit.trans hway))
  rw [h.target]
  refine ⟨fun heq => hnot ?_, Bool.eq_false_iff.mpr fun hbelow => hnot ?_⟩
  · obtain rfl := rooted_inj hplain (h.plain_target key) heq
    exact List.prefix_refl _
  · exact ((isBelow_rooted (h.plain_target key) hplain).mp hbelow).1

theorem Home.isBelow_target (h : c.Home tree hs) (key other : Digest) :
    isBelow (c.target tree key) (c.target tree other) = false := by
  rw [h.target, h.target]
  refine Bool.eq_false_iff.mpr fun hbelow => ?_
  obtain ⟨hinit, hne⟩ := (isBelow_rooted (h.plain_target key) (h.plain_target other)).mp hbelow
  obtain rfl := eq_of_prefix_trail ((List.prefix_append_right_inj hs).mp hinit)
  exact hne rfl

-- ---------------------------------------------------------------------------
-- Tidy trees
-- ---------------------------------------------------------------------------

/-- The files of the cache are leaves, and no plain file is in the way to one. -/
structure Tidy (c : DiskCache) (tree : FileTree) : Prop where
  settled : tree.Settled
  beside : ∀ key, ∀ p ∈ tree.places c.dir, Beside (c.target tree key) p
  ways : ∀ key, ∀ p ∈ tree.places (c.folder key), tree.file? p = none
  file : ∀ key, ∀ e ∈ tree.entries, e.1 = c.target tree key → e.2 ≠ .directory
  leaf : ∀ key, ∀ e ∈ tree.entries, isBelow (c.target tree key) e.1 = false

/-- And the directory of the cache is there. -/
structure Ready (c : DiskCache) (tree : FileTree) : Prop extends Tidy c tree where
  there : ∀ p ∈ tree.places (clean c.dir), tree.entryAt? p = some .directory

theorem Tidy.beside_places (h : c.Tidy tree) (key : Digest)
    (hp : p ∈ tree.places (c.folder other)) : Beside (c.target tree key) p := by
  obtain ⟨hs, hhome⟩ := home h.settled c
  rcases hhome.folder other p hp with hp | ⟨front, hfront, rfl⟩
  · exact h.beside key p ((h.settled.clean_way c.dir).2 p hp)
  · exact hhome.beside key ((List.prefix_append_right_inj hs).mpr hfront)

theorem Tidy.entryAt?_target (h : c.Tidy tree) (key : Digest) :
    tree.entryAt? (c.target tree key) = (tree.file? (c.target tree key)).map .file := by
  have hany : (tree.entries.any fun e => isBelow (c.target tree key) e.1) = false :=
    List.any_eq_false.mpr fun e he => by simp [h.leaf key e he]
  unfold entryAt? file?
  cases hl : tree.entries.lookup (c.target tree key) with
  | none => simp only [hany]; rfl
  | some entry =>
    cases entry with
    | file content => rfl
    | directory => exact absurd rfl (h.file key _ (mem_of_lookup hl) rfl)

theorem Tidy.overwrite (h : c.Tidy tree) (key : Digest) (content : Text) :
    c.Tidy (c.overwrite tree key content) where
  settled := h.settled
  beside := h.beside
  ways other p hp := by
    rw [DiskCache.overwrite, file?_set, if_neg (h.beside_places key hp).1]
    exact h.ways other p hp
  file other e he heq := by
    rcases mem_set he with rfl | he
    · simp
    · exact h.file other e he heq
  leaf other e he := by
    rcases mem_set he with rfl | he
    · obtain ⟨hs, hhome⟩ := home h.settled c
      exact hhome.isBelow_target other key
    · exact h.leaf other e he

theorem Ready.overwrite (h : c.Ready tree) (key : Digest) (content : Text) :
    c.Ready (c.overwrite tree key content) where
  toTidy := h.toTidy.overwrite key content
  there p hp :=
    entryAt?_set_ne (h.beside key p ((h.settled.clean_way c.dir).2 p hp)).1 (h.there p hp)

theorem Tidy.made (h : c.Tidy tree) (hmade : Made path tree tree')
    (hpath : ∀ p ∈ tree.places path, ∀ key, Beside (c.target tree key) p) : c.Tidy tree' where
  settled := hmade.files.settled h.settled
  beside key p hp := by
    rw [hmade.files.places] at hp
    rw [target_congr hmade.files.workingDirectory]
    exact h.beside key p hp
  ways key p hp := by
    rw [hmade.files.places] at hp
    rw [hmade.files.files, h.ways key p hp]
  file key e he heq := by
    rw [target_congr hmade.files.workingDirectory] at heq
    rcases hmade.entries e he with he | ⟨-, hplace, -⟩
    · exact h.file key e he heq
    · exact absurd heq (hpath e.1 hplace key).1
  leaf key e he := by
    rw [target_congr hmade.files.workingDirectory]
    rcases hmade.entries e he with he | ⟨-, hplace, -⟩
    · exact h.leaf key e he
    · exact (hpath e.1 hplace key).2

theorem Tidy.removeAll (h : c.Tidy tree) (path : Text) : c.Tidy (tree.removeAll path) where
  settled := h.settled
  beside := h.beside
  ways key p hp := by
    rw [file?_removeAll, ite_eq_right_iff]
    exact fun _ => h.ways key p hp
  file key e he := h.file key e (List.mem_filter.mp he).1
  leaf key e he := h.leaf key e (List.mem_filter.mp he).1

-- ---------------------------------------------------------------------------
-- Opening, putting and clearing
-- ---------------------------------------------------------------------------

def Empty (c : DiskCache) (tree : FileTree) : Prop :=
  ∀ key, tree.entryAt? (c.target tree key) = none ∧
    ∀ p ∈ tree.places (c.folder key), tree.file? p = none

theorem empty_of_directories (h : ∀ e ∈ tree.entries, e.2 = .directory ∧
    ∀ key, Beside (c.target tree key) e.1) : c.Empty tree := by
  refine fun key => ⟨entryAt?_eq_none.mpr ⟨?_, fun e he => ((h e he).2 key).2⟩, fun p hp => ?_⟩
  · refine Option.eq_none_iff_forall_ne_some.mpr fun entry hl => ?_
    exact ((h _ (mem_of_lookup hl)).2 key).1 rfl
  · refine Option.eq_none_iff_forall_ne_some.mpr fun content hfile => ?_
    cases (h _ (mem_of_lookup (file?_eq_some.mp hfile))).1

theorem ready_of_openAt {dir : Text} (ht : tree.Settled) (hopen : openAt tree dir = .ok (tree', c))
    (hempty : c.Empty tree') : c.Ready tree' := by
  unfold openAt at hopen
  split at hopen
  · rename_i made hmake
    cases hopen
    obtain ⟨hthere, hmade⟩ := makeDirectories_way ht hmake
    have ht' := hmade.files.settled ht
    have hway (p : Text) (hp : p ∈ tree'.places dir) : tree'.entryAt? p = some .directory := by
      rw [hmade.files.places] at hp
      exact hthere p hp
    refine ⟨⟨ht', fun key p hp => ⟨?_, Bool.eq_false_iff.mpr fun hbelow => ?_⟩,
      fun key => (hempty key).2, fun key e he heq => ?_, fun key e he => ?_⟩,
      fun p hp => hway p ((ht'.clean_way dir).2 p hp)⟩
    · rintro rfl
      cases (hempty key).1.symm.trans (hway _ hp)
    · obtain ⟨hs, hhome⟩ := home ht' ⟨dir⟩
      obtain ⟨names, rfl, hnames⟩ := ht'.places_rooted dir p hp
      have hnone := (hempty key).1
      rw [hhome.target] at hbelow hnone
      have hsome : tree'.entryAt? (rooted names) ≠ none := by simp [hway _ hp]
      exact entryAt?_ne_none_of_below (hhome.plain_target key) hnames hbelow hsome hnone
    · have hlookup := (entryAt?_eq_none.mp (hempty key).1).1
      rw [← heq] at hlookup
      exact absurd hlookup (by simpa using ⟨_, he⟩)
    · exact (entryAt?_eq_none.mp (hempty key).1).2 e he
  · cases hopen

theorem put_ready (h : c.Ready tree) {r : Gen2.Result} (hput : c.put tree key r = .ok tree') :
    c.Ready tree' ∧ ∀ other, tree'.file? (c.target tree' other) =
      if other = key then some (written r)
      else tree.file? (c.target tree other) := by
  obtain ⟨made, hmake, rfl⟩ := put_eq_ok hput
  obtain ⟨-, hmade⟩ := makeDirectories_way h.settled hmake
  have hready : c.Ready made := by
    refine ⟨h.toTidy.made hmade fun p hp key => h.beside_places key hp, fun p hp => ?_⟩
    rw [hmade.files.places] at hp
    exact hmade.grows p _ (h.there p hp)
  refine ⟨hready.overwrite key _, fun other => ?_⟩
  rw [← target_congr hmade.files.workingDirectory other, ← hmade.files.files]
  exact file?_overwrite hready.settled key other _

theorem clear_ready (h : c.Ready tree) (hclear : c.clear tree = .ok tree') :
    c.Ready tree' ∧ ∀ key, tree'.file? (c.target tree' key) = none := by
  unfold clear at hclear
  split at hclear
  · rename_i made hmake
    cases hclear
    have htidy := h.toTidy.removeAll (tree.resolve c.dir)
    obtain ⟨hthere, hmade⟩ := makeDirectories_way htidy.settled hmake
    refine ⟨⟨htidy.made hmade fun p hp key => htidy.beside key p hp, fun p hp => ?_⟩, fun key => ?_⟩
    · rw [hmade.files.places] at hp
      exact hthere p ((htidy.settled.clean_way c.dir).2 p hp)
    · obtain ⟨hs, hhome⟩ := home h.settled c
      have hbelow : isBelow (tree.resolve c.dir) (c.target tree key) = true := by
        rw [hhome.dir, hhome.target, isBelow_rooted hhome.plain (hhome.plain_target key)]
        exact ⟨List.prefix_append _ _, by simp⟩
      have hsame : c.target tree' key = c.target tree key :=
        target_congr (hmade.files.workingDirectory.trans rfl) key
      rw [hsame, hmade.files.files, file?_removeAll, if_neg (by simp [hbelow])]
  · cases hclear

-- ---------------------------------------------------------------------------
-- Reading an answer
-- ---------------------------------------------------------------------------

def reading (key : Digest) : Option Text → Except DiskError (Option Gen2.Result)
  | none => .ok none
  | some content =>
    match DiskEntry.codec.decode? content with
    | none => .error (.unreadable key)
    | some entry => .ok (if entry.layout = layout then some entry.result else none)

theorem file_eq (c : DiskCache) (key : Digest) :
    c.file key = c.folder key ++ slash :: fileNameOf key := by
  refine join_clean (clean_join (c.folder_ne_nil key)) ?_ (plain_fileNameOf key)
  rw [(c.folder_names key).1]
  exact List.append_ne_nil_of_right_ne_nil _ (List.cons_ne_nil _ _)

theorem steps_file (c : DiskCache) (key : Digest) :
    steps (c.file key) = FileTree.names (c.folder key) ++ [fileNameOf key] := by
  obtain ⟨⟨hne, hslash, -⟩, -⟩ := plain_fileNameOf key
  have hlast : (c.file key).getLast? ≠ some slash := by
    rw [file_eq, List.append_cons, List.getLast?_append_of_ne_nil _ hne]
    exact fun h => hslash (List.mem_of_getLast? h)
  have hname : FileTree.names (fileNameOf key) = [fileNameOf key] := by
    rw [FileTree.names, Text.splitAt_of_not_mem hslash]
    simp [hne]
  rw [steps, if_neg hlast, List.append_nil, file_eq, names_append, hname]

theorem file_rooted (hplain : ∀ n ∈ hs, Plain n) (key : Digest) :
    (⟨rooted hs⟩ : DiskCache).file key = rooted (hs ++ (trail key ++ [fileNameOf key])) := by
  obtain ⟨hparts, habs⟩ := file_names ⟨rooted hs⟩ key
  have hall : ∀ n ∈ hs ++ (trail key ++ [fileNameOf key]), Plain n :=
    List.forall_mem_append.mpr ⟨hplain, plain_names key⟩
  have hclean : clean ((⟨rooted hs⟩ : DiskCache).file key) = (⟨rooted hs⟩ : DiskCache).file key :=
    clean_join (by rw [← file, file_eq]; simp)
  rw [clean_rooted hplain, parts_rooted fun n hn => (hplain n hn).1] at hparts
  rw [clean_rooted hplain] at habs
  rw [← hclean, clean_of_isAbsolute habs, hparts, foldl_keep_plain hall, List.append_nil,
    List.reverse_reverse]

theorem takes_file (hplain : ∀ n ∈ hs, Plain n) (hzero : ∀ n ∈ hs, 0 ∉ n)
    (hlong : ∀ n ∈ hs, n.length ≤ longestName) (hlength : (rooted hs).length + 78 ≤ longestPath)
    (hkey : key.length = 32) : Takes ((⟨rooted hs⟩ : DiskCache).file key) := by
  have hhex : key.hex.length = 64 := by
    simp [Text.hex, Text.hexByte, List.length_flatMap, hkey]
  have hzeros : 0 ∉ key.hex := Text.not_mem_hex (by decide) key
  have hnames : trail key ++ [fileNameOf key] =
      [Text.ofString "expand", key.hex.take 2, fileNameOf key] := by
    have hne : key.hex.take 2 ≠ [] := List.ne_nil_of_length_pos (by simp [hhex])
    simp [trail, shelf, hne]
  have hshelf : (key.hex.take 2).length = 2 := by rw [List.length_take, hhex]; rfl
  have hfile : (fileNameOf key).length = 67 := by rw [fileNameOf, List.length_append, hhex]; rfl
  have hall : ∀ n ∈ trail key ++ [fileNameOf key], Plain n := plain_names key
  rw [file_rooted hplain]
  refine takes_rooted (List.forall_mem_append.mpr ⟨?_, ?_⟩) (List.forall_mem_append.mpr ⟨hzero, ?_⟩)
    (List.forall_mem_append.mpr ⟨hlong, ?_⟩) ?_
  · exact fun n hn => (hplain n hn).1
  · exact fun n hn => (hall n hn).1
  · rw [hnames]
    simp only [List.forall_mem_cons]
    refine ⟨by decide, fun h => hzeros (List.mem_of_mem_take h), fun h => ?_, by simp⟩
    exact (List.mem_append.mp h).elim hzeros (by decide)
  · rw [hnames]
    simp only [List.forall_mem_cons, hshelf, hfile]
    exact ⟨by decide, by decide, by decide, by simp⟩
  · have hlast : (rooted (trail key ++ [fileNameOf key])).length = 78 := by
      rw [hnames, rooted_cons_cons, rooted_cons_cons, rooted]
      simp only [List.cons_append, List.length_cons, List.length_append, hshelf, Text.joined,
        List.intercalate_singleton, hfile]
      rfl
    cases hs with
    | nil => rw [List.nil_append, hlast]; decide
    | cons n hs =>
      rw [rooted_append (List.cons_ne_nil n hs) (by simp), List.length_append, hlast]
      exact hlength

theorem Ready.way (h : c.Ready tree) (hfile : tree.file? (c.target tree key) = some content) :
    ∀ p ∈ tree.places (c.folder key), tree.entryAt? p = some .directory := by
  intro p hp
  obtain ⟨hs, hhome⟩ := home h.settled c
  rcases hhome.folder key p hp with hdir | ⟨front, hfront, rfl⟩
  · exact h.there p hdir
  · have hplain : ∀ n ∈ hs ++ front, Plain n := fun n hn =>
      hhome.plain_folder key n (((List.prefix_append_right_inj hs).mpr hfront).subset hn)
    have hbelow : isBelow (rooted (hs ++ front)) (c.target tree key) = true := by
      rw [hhome.target, isBelow_rooted hplain (hhome.plain_target key)]
      have hinit := hfront.trans (List.prefix_append (trail key) [fileNameOf key])
      refine ⟨(List.prefix_append_right_inj hs).mpr hinit, fun heq => ?_⟩
      obtain rfl := List.append_cancel_left heq
      exact not_prefix_trail key key hfront
    have htarget : tree.entryAt? (c.target tree key) ≠ none := by
      simp [h.entryAt?_target, hfile]
    rw [hhome.target] at hbelow htarget
    have hsome := entryAt?_ne_none_of_below hplain (hhome.plain_target key)
      hbelow htarget
    obtain ⟨entry, hentry⟩ := Option.ne_none_iff_exists'.mp hsome
    cases entry with
    | directory => exact hentry
    | file found =>
      have hfound := file?_eq_some.mpr (lookup_of_file hentry)
      cases hfound.symm.trans (h.ways key _ hp)

theorem Ready.read (h : c.Ready tree) (hkey : Takes (c.file key)) :
    tree.read (c.file key) = match tree.file? (c.target tree key) with
      | some content => .ok content
      | none => .error (.notFound "open" (c.file key)) := by
  obtain ⟨hs, hhome⟩ := home h.settled c
  have hstart : tree.start (c.file key) = tree.start (c.folder key) := by
    rw [start, start, (c.file_names key).2, (c.folder_names key).2]
  have hway (p : Text) : p ∈ placesFrom (tree.start (c.file key)) (steps (c.file key)).dropLast ↔
      p ∈ tree.places (c.folder key) := by
    rw [steps_file, List.dropLast_concat, hstart]
    exact (h.settled.mem_places (filter_names _)).symm
  have hfile (p : Text)
      (hp : p ∈ placesFrom (tree.start (c.file key)) (steps (c.file key)).dropLast)
      (content : Text) : tree.entryAt? p ≠ some (.file content) := fun hentry => by
    have hsome := file?_eq_some.mpr (lookup_of_file hentry)
    cases hsome.symm.trans (h.ways key p ((hway p).mp hp))
  rcases hkey.look h.settled "open" hfile with hlook | ⟨hlook, p, hp, hnone⟩
  · rw [FileTree.read, hlook, ← target, h.entryAt?_target]
    cases tree.file? (c.target tree key) <;> rfl
  · cases hcontent : tree.file? (c.target tree key) with
    | none => rw [FileTree.read, hlook]; rfl
    | some content => cases hnone.symm.trans (h.way hcontent p ((hway p).mp hp))

theorem Ready.get (h : c.Ready tree) (hkey : Takes (c.file key)) :
    c.get tree key = reading key (tree.file? (c.target tree key)) := by
  rw [DiskCache.get, h.read hkey]
  cases tree.file? (c.target tree key) with
  | none => rfl
  | some content => rfl

theorem Ready.put (h : c.Ready tree) (hkey : Takes (c.file key))
    (hfile : tree.file? (c.target tree key) = some content) (r : Gen2.Result) :
    ∃ tree', c.put tree key r = .ok tree' := by
  have hfolder : Takes (c.folder key) := (c.file_eq key ▸ hkey).front (c.folder_ne_nil key)
  have hmake := hfolder.makeDirectories h.settled (h.way hfile)
  exact ⟨_, by rw [DiskCache.put, hmake]⟩

-- ---------------------------------------------------------------------------
-- Damaged files
-- ---------------------------------------------------------------------------

def Payload (payload : Text) : Prop := ∃ entry, DiskEntry.codec.readValue payload = .ok (entry, [])

/-- A file that answers nothing: an entry that is cut off, or one of another layout. -/
inductive Damaged (content : Text) : Prop
  | cut {payload : Text} (hpayload : Payload payload) (hinit : content <+: payload)
      (hne : content ≠ payload)
  | foreign {entry : DiskEntry} (hentry : DiskEntry.codec.decode? content = some entry)
      (hlayout : entry.layout ≠ layout)

theorem payload_write {r : Gen2.Result} (hr : r.Fits) :
    Payload (written r) := by
  have hread := (DiskEntry.codec_returns hr).readValue []
  rw [List.append_nil] at hread
  exact ⟨_, hread⟩

theorem reading_write {r : Gen2.Result} (hr : r.Fits) (key : Digest) :
    reading key (some (written r)) = .ok (some r.returned) := by
  simp [reading, written, (DiskEntry.codec_returns hr).decode]

theorem reading_cut {payload : Text} (hpayload : Payload payload) (hinit : content <+: payload)
    (hne : content ≠ payload) (key : Digest) :
    reading key (some content) = .error (.unreadable key) := by
  obtain ⟨entry, hread⟩ := hpayload
  obtain ⟨rest, rfl⟩ := hinit
  have hrest : rest ≠ [] := fun hnil => hne (by rw [hnil, List.append_nil])
  have hnone : DiskEntry.codec.decode? content = none := by
    unfold Codec.decode?
    cases hcut : DiskEntry.codec.readValue content with
    | error fault => rfl
    | ok out => exact absurd hcut (DiskEntry.codec_goesOn.readValue.cut hread hrest)
  simp [reading, hnone]

theorem reading_foreign {entry : DiskEntry} (hentry : DiskEntry.codec.decode? content = some entry)
    (hlayout : entry.layout ≠ layout) (key : Digest) : reading key (some content) = .ok none := by
  simp [reading, hentry, hlayout]

theorem Damaged.reading (h : Damaged content) (key : Digest) (r : Gen2.Result) :
    DiskCache.reading key (some content) ≠ .ok (some r) := by
  cases h with
  | cut hpayload hinit hne => simp [reading_cut hpayload hinit hne]
  | foreign hentry hlayout => simp [reading_foreign hentry hlayout]

-- ---------------------------------------------------------------------------
-- Histories
-- ---------------------------------------------------------------------------

/-- What is done with a cache. -/
inductive Step where
  | put (key : Digest) (result : Gen2.Result)
  | get (key : Digest)
  | clear

def apply (c : DiskCache) (tree : FileTree) : Step → Except DiskError FileTree
  | .put key r => c.put tree key r
  | .get _ => .ok tree
  | .clear => c.clear tree

def applyAll (c : DiskCache) (tree : FileTree) (steps : List Step) : Except DiskError FileTree :=
  steps.foldlM c.apply tree

def Step.note (key : Digest) (found : Option Gen2.Result) : Step → Option Gen2.Result
  | .put k r => if key = k then some r else found
  | .get _ => found
  | .clear => none

/-- What was put last under a key since the cache was last cleared. -/
def latest? (key : Digest) (steps : List Step) : Option Gen2.Result :=
  steps.foldl (Step.note key) none

variable {step : Step} {steps : List Step} {found : Option Gen2.Result}

theorem apply_ready (h : c.Ready tree) (happly : c.apply tree step = .ok tree')
    (hfile : tree.file? (c.target tree key) = found.map written) :
    c.Ready tree' ∧ tree'.file? (c.target tree' key) = (step.note key found).map written := by
  cases step with
  | put k r =>
    obtain ⟨hready, hfiles⟩ := put_ready h happly
    refine ⟨hready, ?_⟩
    rw [hfiles, Step.note]
    split
    · rfl
    · exact hfile
  | get k =>
    cases happly
    exact ⟨h, hfile⟩
  | clear =>
    obtain ⟨hready, hnone⟩ := clear_ready h happly
    exact ⟨hready, hnone key⟩

theorem applyAll_ready (h : c.Ready tree) (happly : c.applyAll tree steps = .ok tree')
    (hfile : tree.file? (c.target tree key) = found.map written) :
    c.Ready tree' ∧
      tree'.file? (c.target tree' key) = (steps.foldl (Step.note key) found).map written := by
  induction steps generalizing tree found with
  | nil =>
    cases happly
    exact ⟨h, hfile⟩
  | cons step steps ih =>
    obtain ⟨next, hnext, happly⟩ := foldlM_cons_ok.mp happly
    obtain ⟨hready, hnote⟩ := apply_ready h hnext hfile
    exact ih hready happly hnote

theorem mem_of_latest {r : Gen2.Result} (h : steps.foldl (Step.note key) found = some r) :
    found = some r ∨ .put key r ∈ steps := by
  induction steps generalizing found with
  | nil => exact .inl h
  | cons step steps ih =>
    rcases ih h with hnote | hmem
    · cases step with
      | put k r' =>
        rw [Step.note] at hnote
        split at hnote
        · rename_i hkey
          cases hnote
          exact .inr (hkey ▸ List.mem_cons_self)
        · exact .inl hnote
      | get k => exact .inl hnote
      | clear => cases hnote
    · exact .inr (List.mem_cons_of_mem _ hmem)

/-- A cache that was used for a while holds under every key what was put last. -/
theorem latest_ready {dir : Text} (ht : tree.Settled) (hopen : openAt tree dir = .ok (tree', c))
    (hempty : c.Empty tree') {tree'' : FileTree} (happly : c.applyAll tree' steps = .ok tree'')
    (key : Digest) :
    c.Ready tree'' ∧ tree''.file? (c.target tree'' key) = (latest? key steps).map written := by
  have hready := ready_of_openAt ht hopen hempty
  refine applyAll_ready hready happly ?_
  have hentry := hready.entryAt?_target key
  rw [(hempty key).1] at hentry
  simpa using hentry.symm

end DiskCache

end MacroRelay
