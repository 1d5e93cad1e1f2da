import MacroRelay.Proofs.Path
import MacroRelay.Settings.File
import Mathlib.Data.List.Induction

/-!
# Where settings come from

A search for the settings file goes from a directory to the one above it and ends at the root, which
is its own parent. It stops at the first directory where a candidate is there or cannot be looked at.
Of a file that is found either everything is taken or nothing.
-/

namespace MacroRelay.Settings

open MacroRelay.Path

/-- Nothing is where the settings file of the directory would be. -/
def Missing (files : FileSystem) (dir : Text) : Prop :=
  ∃ fault, files.stat (candidate dir) = .error fault ∧ fault.isNotFound

/-- The search as a loop: the directories it looks at from one on, and the answer it ends with. -/
inductive Climbs (files : FileSystem) : Text → List Text → Except SettingsError (Option Text) → Prop where
  | found {dir entry} (h : files.stat (candidate dir) = .ok entry) :
      Climbs files dir [dir] (.ok (some (candidate dir)))
  | blocked {dir fault} (h : files.stat (candidate dir) = .error fault) (hfault : ¬ fault.isNotFound) :
      Climbs files dir [dir] (.error (.unsearchable (candidate dir) fault))
  | top {dir} (h : Missing files dir) (htop : parent dir = dir) : Climbs files dir [dir] (.ok none)
  | up {dir visited answer} (h : Missing files dir) (hup : parent dir ≠ dir)
      (hrest : Climbs files (parent dir) visited answer) : Climbs files dir (dir :: visited) answer

/-- From a directory to the one above it and so on to the root, and never twice through one. -/
structure Upwards (dir : Text) (dirs : List Text) : Prop where
  head : dirs.head? = some dir
  next : dirs.IsChain fun lower upper => upper = parent lower
  last : dirs.getLast? = some [slash]
  once : dirs.Nodup

/-- What a search through directories comes to, the nearest of them first. -/
inductive Nearest (files : FileSystem) (dirs : List Text) : Except SettingsError (Option Text) → Prop where
  | found {nearer dir farther entry} (hdirs : dirs = nearer ++ dir :: farther)
      (hnearer : ∀ d ∈ nearer, Missing files d) (h : files.stat (candidate dir) = .ok entry) :
      Nearest files dirs (.ok (some (candidate dir)))
  | blocked {nearer dir farther fault} (hdirs : dirs = nearer ++ dir :: farther)
      (hnearer : ∀ d ∈ nearer, Missing files d) (h : files.stat (candidate dir) = .error fault)
      (hfault : ¬ fault.isNotFound) : Nearest files dirs (.error (.unsearchable (candidate dir) fault))
  | none (h : ∀ d ∈ dirs, Missing files d) : Nearest files dirs (.ok none)

/-- The file says only what settings have, it makes sense, and these are the settings: what it says over
the defaults. -/
def Accepted (files : FileSystem) (path : Text) (s : Settings) : Prop :=
  ∃ content document decoded taken times, files.read path = .ok content ∧
    Toml.Document.parse? content = some document ∧ decode? document.root = some (decoded, taken) ∧
    (∀ key ∈ document.keys, key ∈ taken) ∧ s = decoded.anchored path ∧ s.connection.validate = .ok times

variable {files : FileSystem} {dir start path : Text} {dirs names visited : List Text} {s : Settings}
  {answer : Except SettingsError (Option Text)}

-- ---------------------------------------------------------------------------
-- The way up
-- ---------------------------------------------------------------------------

def wayUp (dir : Text) : List Text := dir :: (FileTree.ancestors dir).reverse

theorem wayUp_root : wayUp (rooted []) = [rooted []] := rfl

theorem ancestors_concat {n : Text} (h : ∀ m ∈ names ++ [n], Part m) :
    FileTree.ancestors (rooted (names ++ [n])) = FileTree.ancestors (rooted names) ++ [rooted names] := by
  have hnames (m : Text) (hm : m ∈ names) : Part m := h m (List.mem_append_left _ hm)
  have hfront (k : Nat) (hk : k ∈ List.range names.length) :
      slash :: Text.joined [slash] ((names ++ [n]).take k) = slash :: Text.joined [slash] (names.take k) := by
    rw [List.take_append_of_le_length (Nat.le_of_lt (List.mem_range.mp hk))]
  rw [FileTree.ancestors, FileTree.ancestors, parts_rooted h, parts_rooted hnames, List.length_append,
    List.length_singleton, List.range_succ, List.map_append, List.map_singleton, List.take_left,
    List.map_congr_left hfront]
  rfl

theorem wayUp_concat {n : Text} (h : ∀ m ∈ names ++ [n], Part m) :
    wayUp (rooted (names ++ [n])) = rooted (names ++ [n]) :: wayUp (rooted names) := by
  rw [wayUp, ancestors_concat h, List.reverse_append]
  rfl

theorem length_parts_le (h : ∀ m ∈ names, Part m) (hdir : dir ∈ wayUp (rooted names)) :
    (parts dir).length ≤ names.length := by
  induction names using List.reverseRecOn with
  | nil => simp [List.mem_singleton.mp hdir, parts_rooted h]
  | append_singleton names n ih =>
    rw [wayUp_concat h] at hdir
    rcases List.mem_cons.mp hdir with rfl | hdir
    · exact Nat.le_of_eq (congrArg List.length (parts_rooted h))
    · have hle := ih (fun m hm => h m (List.mem_append_left _ hm)) hdir
      rw [List.length_append, List.length_singleton]
      omega

theorem rooted_not_mem_wayUp {n : Text} (h : ∀ m ∈ names ++ [n], Part m) :
    rooted (names ++ [n]) ∉ wayUp (rooted names) := by
  intro hmem
  have hle := length_parts_le (fun m hm => h m (List.mem_append_left _ hm)) hmem
  rw [parts_rooted h, List.length_append, List.length_singleton] at hle
  omega

theorem parent_concat {n : Text} (h : ∀ m ∈ names ++ [n], Plain m) :
    parent (rooted (names ++ [n])) = rooted names := by
  rw [parent_rooted h, List.dropLast_concat]

theorem upwards_wayUp (h : ∀ n ∈ names, Plain n) : Upwards (rooted names) (wayUp (rooted names)) := by
  induction names using List.reverseRecOn with
  | nil => exact ⟨rfl, .singleton _, rfl, List.nodup_cons.mpr ⟨List.not_mem_nil, .nil⟩⟩
  | append_singleton names n ih =>
    obtain ⟨-, hnext, hlast, honce⟩ := ih fun m hm => h m (List.mem_append_left _ hm)
    have hpart (m : Text) (hm : m ∈ names ++ [n]) : Part m := (h m hm).1
    rw [wayUp_concat hpart]
    refine ⟨rfl, ?_, ?_, List.nodup_cons.mpr ⟨rooted_not_mem_wayUp hpart, honce⟩⟩
    · exact .cons_cons (parent_concat h).symm hnext
    · rw [List.getLast?_cons, hlast]
      rfl

-- ---------------------------------------------------------------------------
-- Searching
-- ---------------------------------------------------------------------------

theorem look_cases (files : FileSystem) (dir : Text) :
    (∃ entry, files.stat (candidate dir) = .ok entry) ∨
      (∃ fault, files.stat (candidate dir) = .error fault ∧ ¬ fault.isNotFound) ∨ Missing files dir := by
  cases h : files.stat (candidate dir) with
  | ok entry => exact .inl ⟨entry, rfl⟩
  | error fault =>
    by_cases hfault : fault.isNotFound
    · exact .inr (.inr ⟨fault, h, hfault⟩)
    · exact .inr (.inl ⟨fault, rfl, hfault⟩)

theorem search_found {entry : FileEntry} (h : files.stat (candidate dir) = .ok entry) (rest : List Text) :
    search files (dir :: rest) = .ok (some (candidate dir)) := by
  rw [search, h]

theorem search_blocked {fault : FileFault} (h : files.stat (candidate dir) = .error fault)
    (hfault : ¬ fault.isNotFound) (rest : List Text) :
    search files (dir :: rest) = .error (.unsearchable (candidate dir) fault) := by
  rw [search, h]
  exact if_neg hfault

theorem search_missing (h : Missing files dir) (rest : List Text) :
    search files (dir :: rest) = search files rest := by
  obtain ⟨fault, hstat, hfault⟩ := h
  rw [search, hstat]
  exact if_pos hfault

theorem Nearest.cons (hdir : Missing files dir) (h : Nearest files dirs answer) :
    Nearest files (dir :: dirs) answer := by
  cases h with
  | found hdirs hnearer hstat =>
    exact .found (by rw [hdirs, List.cons_append]) (List.forall_mem_cons.mpr ⟨hdir, hnearer⟩) hstat
  | blocked hdirs hnearer hstat hfault =>
    exact .blocked (by rw [hdirs, List.cons_append]) (List.forall_mem_cons.mpr ⟨hdir, hnearer⟩) hstat hfault
  | none h => exact .none (List.forall_mem_cons.mpr ⟨hdir, h⟩)

theorem nearest_search (files : FileSystem) (dirs : List Text) : Nearest files dirs (search files dirs) := by
  induction dirs with
  | nil => exact .none (by simp)
  | cons dir rest ih =>
    rcases look_cases files dir with ⟨entry, h⟩ | ⟨fault, h, hfault⟩ | h
    · rw [search_found h]
      exact .found (List.nil_append _).symm (by simp) h
    · rw [search_blocked h hfault]
      exact .blocked (List.nil_append _).symm (by simp) h hfault
    · rw [search_missing h]
      exact ih.cons h

theorem search_eq_none_iff : search files dirs = .ok none ↔ ∀ dir ∈ dirs, Missing files dir := by
  constructor
  · intro h
    have hnearest := nearest_search files dirs
    rw [h] at hnearest
    cases hnearest with
    | none h => exact h
  · intro h
    induction dirs with
    | nil => rfl
    | cons dir rest ih =>
      obtain ⟨hdir, hrest⟩ := List.forall_mem_cons.mp h
      rw [search_missing hdir, ih hrest]

/-- The loop stops at a directory with the answer of the search, or nothing is there. -/
theorem climbs_or_missing (files : FileSystem) (dir : Text) (rest : List Text) :
    Climbs files dir [dir] (search files (dir :: rest)) ∨ Missing files dir := by
  rcases look_cases files dir with ⟨entry, h⟩ | ⟨fault, h, hfault⟩ | h
  · rw [search_found h]
    exact .inl (.found h)
  · rw [search_blocked h hfault]
    exact .inl (.blocked h hfault)
  · exact .inr h

theorem exists_climbs (files : FileSystem) (h : ∀ n ∈ names, Plain n) :
    ∃ visited, visited <+: wayUp (rooted names) ∧
      Climbs files (rooted names) visited (search files (wayUp (rooted names))) := by
  induction names using List.reverseRecOn with
  | nil =>
    rw [wayUp_root]
    refine ⟨_, List.prefix_rfl, ?_⟩
    rcases climbs_or_missing files (rooted []) [] with hstop | hmissing
    · exact hstop
    · rw [search_missing hmissing]
      exact .top hmissing rfl
  | append_singleton names n ih =>
    obtain ⟨visited, hvisited, hclimbs⟩ := ih fun m hm => h m (List.mem_append_left _ hm)
    have hpart (m : Text) (hm : m ∈ names ++ [n]) : Part m := (h m hm).1
    -- only the root is its own parent
    have hup : parent (rooted (names ++ [n])) ≠ rooted (names ++ [n]) := fun heq =>
      rooted_not_mem_wayUp hpart (heq ▸ parent_concat h ▸ List.mem_cons_self)
    rw [wayUp_concat hpart]
    rcases climbs_or_missing files (rooted (names ++ [n])) (wayUp (rooted names)) with hstop | hmissing
    · exact ⟨_, ⟨_, rfl⟩, hstop⟩
    · rw [search_missing hmissing]
      refine ⟨_, List.cons_prefix_cons.mpr ⟨rfl, hvisited⟩, .up hmissing hup ?_⟩
      rw [parent_concat h]
      exact hclimbs

theorem Missing.not_ok {entry : FileEntry} (h : Missing files dir) :
    files.stat (candidate dir) ≠ .ok entry := by
  obtain ⟨fault, hstat, -⟩ := h
  simp [hstat]

theorem Missing.isNotFound {fault : FileFault} (h : Missing files dir)
    (hstat : files.stat (candidate dir) = .error fault) : fault.isNotFound := by
  obtain ⟨fault', hstat', hfault⟩ := h
  cases hstat.symm.trans hstat'
  exact hfault

theorem Climbs.deterministic {visited' : List Text} {answer' : Except SettingsError (Option Text)}
    (h : Climbs files dir visited answer) (h' : Climbs files dir visited' answer') :
    visited' = visited ∧ answer' = answer := by
  induction h generalizing visited' answer' with
  | found hstat =>
    cases h' with
    | found => exact ⟨rfl, rfl⟩
    | blocked hstat' => cases hstat.symm.trans hstat'
    | top hmissing => exact absurd hstat hmissing.not_ok
    | up hmissing => exact absurd hstat hmissing.not_ok
  | blocked hstat hfault =>
    cases h' with
    | found hstat' => cases hstat.symm.trans hstat'
    | blocked hstat' =>
      cases hstat.symm.trans hstat'
      exact ⟨rfl, rfl⟩
    | top hmissing => exact absurd (hmissing.isNotFound hstat) hfault
    | up hmissing => exact absurd (hmissing.isNotFound hstat) hfault
  | top hmissing htop =>
    cases h' with
    | found hstat => exact absurd hstat hmissing.not_ok
    | blocked hstat hfault => exact absurd (hmissing.isNotFound hstat) hfault
    | top => exact ⟨rfl, rfl⟩
    | up _ hup => exact absurd htop hup
  | up hmissing hup _ ih =>
    cases h' with
    | found hstat => exact absurd hstat hmissing.not_ok
    | blocked hstat hfault => exact absurd (hmissing.isNotFound hstat) hfault
    | top _ htop => exact absurd htop hup
    | up _ _ hrest =>
      obtain ⟨rfl, rfl⟩ := ih hrest
      exact ⟨rfl, rfl⟩

-- ---------------------------------------------------------------------------
-- Loading
-- ---------------------------------------------------------------------------

theorem Accepted.loaded_eq (h : Accepted files path s) : loaded files path = ⟨s, none⟩ := by
  obtain ⟨content, document, decoded, taken, times, hread, hparse, hdecode, hkeys, rfl, hvalid⟩ := h
  have hfind : document.keys.find? (!taken.contains ·) = none := by simpa using hkeys
  rw [loaded, hread]
  simp only [parse, hparse, hdecode, hfind, hvalid]

theorem accepted_or_blank (files : FileSystem) (path : Text) :
    (∃ s, Accepted files path s ∧ loaded files path = ⟨s, none⟩) ∨
      ∃ e, loaded files path = ⟨blank, some e⟩ := by
  unfold loaded
  split
  · exact .inr ⟨_, rfl⟩
  · rename_i content hread
    unfold parse
    split
    · exact .inr ⟨_, rfl⟩
    · rename_i document hparse
      split
      · exact .inr ⟨_, rfl⟩
      · rename_i decoded taken hdecode
        split
        · exact .inr ⟨_, rfl⟩
        · rename_i hfind
          have hkeys : ∀ key ∈ document.keys, key ∈ taken := by simpa using hfind
          dsimp only
          split
          · exact .inr ⟨_, rfl⟩
          · rename_i times hvalid
            refine .inl ⟨_, ?_, rfl⟩
            exact ⟨content, document, decoded, taken, times, hread, hparse, hdecode, hkeys, rfl, hvalid⟩

theorem loaded_cases (files : FileSystem) (path : Text) :
    (∃ s, Accepted files path s ∧ loaded files path = ⟨s, none⟩) ∨
      (∀ s, ¬ Accepted files path s) ∧ ∃ e, loaded files path = ⟨blank, some e⟩ := by
  refine (accepted_or_blank files path).imp_right fun ⟨e, he⟩ => ⟨fun s hs => ?_, e, he⟩
  cases he.symm.trans hs.loaded_eq

theorem Accepted.path_eq (h : Accepted files path s) : s.path = path := by
  obtain ⟨_, _, _, _, _, -, -, -, -, rfl, -⟩ := h
  rfl

theorem candidate_ne_nil (dir : Text) : candidate dir ≠ [] :=
  join_ne_nil (e := fileName) (by simp) (by decide)

theorem discovered_eq_defaults_iff : discovered files start = ⟨{}, none⟩ ↔ find files start = .ok none := by
  have hnearest := nearest_search files (wayUp (against files.workingDirectory start))
  change Nearest files _ (find files start) at hnearest
  unfold discovered
  cases hfind : find files start with
  | error e => simp
  | ok answer =>
    cases answer with
    | none => simp
    | some path =>
      have hpath : path ≠ [] := by
        rw [hfind] at hnearest
        cases hnearest with
        | found => exact candidate_ne_nil _
      refine iff_of_false (fun hloaded => ?_) (by simp)
      rcases accepted_or_blank files path with ⟨s, hs, heq⟩ | ⟨e, heq⟩
      · obtain rfl := congrArg Loaded.settings (heq.symm.trans hloaded)
        exact hpath hs.path_eq.symm
      · cases heq.symm.trans hloaded

/-- The nearest settings file is found, and what comes of it is all of it or nothing. -/
theorem find_nearest (files : FileSystem) (h : isAbsolute start) :
    ∃ dirs visited, Upwards (clean start) dirs ∧ visited <+: dirs ∧
      (∀ visited' answer, Climbs files (clean start) visited' answer ↔
        visited' = visited ∧ answer = find files start) ∧
      Nearest files dirs (find files start) ∧
      (find files start = .ok none ↔ ∀ dir ∈ dirs, Missing files dir) ∧
      (discovered files start = ⟨{}, none⟩ ↔ find files start = .ok none) ∧
      (∀ path, find files start = .ok (some path) → discovered files start = loaded files path) ∧
      (∀ e, find files start = .error e → discovered files start = ⟨blank, some e⟩) ∧
      ∀ path, (∃ s, Accepted files path s ∧ loaded files path = ⟨s, none⟩) ∨
        (∀ s, ¬ Accepted files path s) ∧ ∃ e, loaded files path = ⟨blank, some e⟩ := by
  have hplain : ∀ n ∈ ((parts start).foldl (keep true) []).reverse, Plain n := fun n hn =>
    foldl_keep_all_plain (by simp) (fun p => part_of_mem) n (List.mem_reverse.mp hn)
  have hclean := clean_of_isAbsolute h
  -- by names, from the root down, the way up grows at its front
  generalize ((parts start).foldl (keep true) []).reverse = names at hplain hclean
  have hfind : find files start = search files (wayUp (clean start)) := by
    rw [find, against, if_pos h]
    rfl
  obtain ⟨visited, hvisited, hclimbs⟩ := exists_climbs files hplain
  rw [← hclean, ← hfind] at hclimbs
  refine ⟨wayUp (clean start), visited, hclean ▸ upwards_wayUp hplain, hclean ▸ hvisited, ?_,
    hfind ▸ nearest_search files _, hfind ▸ search_eq_none_iff, discovered_eq_defaults_iff, ?_, ?_,
    loaded_cases files⟩
  · intro visited' answer
    constructor
    · exact hclimbs.deterministic
    · rintro ⟨rfl, rfl⟩
      exact hclimbs
  · intro path hpath
    rw [discovered, hpath]
  · intro e he
    rw [discovered, he]

/-- A system that lets nobody look into `/work/a`, below a settings file in `/work`. -/
def walled : FileSystem where
  workingDirectory := "/"
  stat path :=
    if path = Text.ofString "/work/macrobridge.toml" then .ok (.file [])
    else if path = Text.ofString "/work/a/macrobridge.toml" then .error (.denied "stat" path)
    else .error (.notFound "stat" path)
  read path := .error (.notFound "open" path)

/-- What cannot be looked at hides what lies above it. -/
theorem find_nearest_walled :
    let e := SettingsError.unsearchable "/work/a/macrobridge.toml" (.denied "stat" "/work/a/macrobridge.toml")
    isAbsolute (Text.ofString "/work/a/b") ∧ (∃ visited, Climbs walled "/work/a/b" visited (.error e)) ∧
      discovered walled "/work/a/b" = ⟨blank, some e⟩ := by
  intro e
  have habs : isAbsolute (Text.ofString "/work/a/b") := by decide
  have hfind : find walled "/work/a/b" = .error e := by decide
  obtain ⟨dirs, visited, -, -, hclimbs, -, -, -, -, herror, -⟩ := find_nearest walled habs
  exact ⟨habs, ⟨visited, (hclimbs visited _).mpr ⟨rfl, hfind.symm⟩⟩, herror e hfind⟩

end MacroRelay.Settings
