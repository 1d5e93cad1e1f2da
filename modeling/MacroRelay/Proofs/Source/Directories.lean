import MacroRelay.Proofs.Source.Places
import Mathlib.Data.List.Induction

/-!
# Directories that are there

Making directories leaves everything that is there, adds nothing but directories along the path, and
then the whole path can be walked.
-/

namespace MacroRelay.FileTree

open MacroRelay.Path

variable {tree tree' : FileTree} {operation path here p q : Text} {names : List Text}

-- ---------------------------------------------------------------------------
-- What is there stays
-- ---------------------------------------------------------------------------

def Grows (tree tree' : FileTree) : Prop :=
  ∀ p entry, tree.entryAt? p = some entry → tree'.entryAt? p = some entry

theorem Grows.refl (tree : FileTree) : Grows tree tree := fun _ _ h => h

theorem Grows.trans {tree'' : FileTree} (h : Grows tree tree') (h' : Grows tree' tree'') :
    Grows tree tree'' := fun p entry hp => h' p entry (h p entry hp)

theorem lookup_set_ne (h : p ≠ q) (entry : FileEntry) :
    (tree.set q entry).entries.lookup p = tree.entries.lookup p := by
  rw [set, List.lookup_cons, beq_false_of_ne h, Text.lookup_filter_ne h]

theorem mem_set {e : Text × FileEntry} {entry : FileEntry} (h : e ∈ (tree.set q entry).entries) :
    e = (q, entry) ∨ e ∈ tree.entries := by
  rcases List.mem_cons.mp h with rfl | h
  · exact .inl rfl
  · exact .inr (List.mem_filter.mp h).1

theorem entryAt?_set_ne {entry found : FileEntry} (hp : p ≠ q) (h : tree.entryAt? p = some found) :
    (tree.set q entry).entryAt? p = some found := by
  simp only [entryAt?, lookup_set_ne hp] at h ⊢
  split at h
  · exact h
  · split at h
    · rename_i hany
      obtain ⟨e, he, hbelow⟩ := List.any_eq_true.mp hany
      have hany' : (tree.set q entry).entries.any (fun e => isBelow p e.1) = true := by
        rw [List.any_eq_true]
        by_cases hq : e.1 = q
        · exact ⟨_, List.mem_cons_self, by simpa [hq] using hbelow⟩
        · exact ⟨e, List.mem_cons_of_mem _ (List.mem_filter.mpr ⟨he, by simpa using hq⟩), hbelow⟩
      rw [if_pos hany']
      exact h
    · cases h

theorem entryAt?_set_self (tree : FileTree) (q : Text) (entry : FileEntry) :
    (tree.set q entry).entryAt? q = some entry := by
  simp [entryAt?, set]

theorem Grows.set (h : tree.entryAt? q = none) (entry : FileEntry) :
    Grows tree (tree.set q entry) := by
  intro p found hp
  refine entryAt?_set_ne ?_ hp
  rintro rfl
  cases h.symm.trans hp

theorem lookup_of_file {content : Text} (h : tree.entryAt? p = some (.file content)) :
    tree.entries.lookup p = some (.file content) := by
  unfold entryAt? at h
  split at h
  · rename_i hl
    rw [hl, h]
  · split at h <;> cases h

theorem file?_eq_some {content : Text} :
    tree.file? p = some content ↔ tree.entries.lookup p = some (.file content) := by
  unfold file?
  split
  · rename_i found hl
    simp [hl]
  · rename_i hne
    simp only [reduceCtorEq, false_iff]
    exact fun hl => hne content hl

-- ---------------------------------------------------------------------------
-- Walking
-- ---------------------------------------------------------------------------

theorem foldlM_enter_there (h : names.foldlM (tree.enter operation path) here = .ok q) :
    ∀ p ∈ placesFrom here names, p ≠ q → tree.entryAt? p = some .directory := by
  induction names generalizing here with
  | nil =>
    cases h
    intro p hp hne
    exact absurd (List.mem_singleton.mp hp) hne
  | cons n names ih =>
    obtain ⟨next, henter, h⟩ := foldlM_cons_ok.mp h
    intro p hp hne
    rcases List.mem_cons.mp hp with rfl | hp
    · unfold enter at henter
      split at henter
      · cases henter
      · cases henter
      · assumption
    · rw [← enter_ok henter] at hp
      exact ih h p hp hne

theorem foldlM_enter_along (operation path : Text) (hlong : ∀ n ∈ names, n.length ≤ longestName)
    (hfile : ∀ p ∈ placesFrom here names.dropLast, ∀ content,
      tree.entryAt? p ≠ some (.file content)) :
    names.foldlM (tree.enter operation path) here = .ok (names.foldl onward here) ∨
      names.foldlM (tree.enter operation path) here = .error (.notFound operation path) ∧
        ∃ p ∈ placesFrom here names.dropLast, tree.entryAt? p = none := by
  induction names generalizing here with
  | nil => exact .inl rfl
  | cons n names ih =>
    obtain ⟨hn, hlong⟩ := List.forall_mem_cons.mp hlong
    have hmem : here ∈ placesFrom here (n :: names).dropLast := by
      cases names <;> simp [placesFrom]
    cases hhere : tree.entryAt? here with
    | none =>
      refine .inr ⟨?_, here, hmem, hhere⟩
      simp [List.foldlM_cons, enter, hhere, bind, Except.bind]
    | some entry =>
      cases entry with
      | file content => exact absurd hhere (hfile here hmem content)
      | directory =>
        have henter : tree.enter operation path here n = .ok (onward here n) := by
          simp [enter, hhere, onward, Nat.not_lt.mpr hn]
        simp only [List.foldlM_cons, henter, List.foldl_cons, bind, Except.bind]
        cases names with
        | nil => exact .inl rfl
        | cons m names =>
          rw [List.dropLast_cons_cons, placesFrom] at hfile ⊢
          rcases ih hlong fun p hp => hfile p (List.mem_cons_of_mem _ hp) with
            hok | ⟨herror, p, hp, hnone⟩
          · exact .inl hok
          · exact .inr ⟨herror, p, List.mem_cons_of_mem _ hp, hnone⟩

theorem follow_there (h : tree.follow operation path names = .ok q) :
    ∀ p ∈ placesFrom (tree.start path) names, p ≠ q → tree.entryAt? p = some .directory := by
  unfold follow at h
  split at h
  · cases h
  · split at h
    · cases h
    · split at h
      · cases h
      · exact foldlM_enter_there h

theorem look_there (ht : tree.Settled) (h : tree.look operation path = .ok .directory) :
    ∀ p ∈ tree.places path, tree.entryAt? p = some .directory := by
  intro p hp
  have hp' := (ht.mem_places (filter_steps path)).mp hp
  simp only [look, bind, Except.bind, pure, Except.pure, throw, throwThe, MonadExceptOf.throw] at h
  split at h
  · cases h
  · rename_i q hwalk
    split at h
    · rename_i entry hentry
      cases h
      by_cases hpq : p = q
      · rw [hpq, hentry]
      · exact follow_there hwalk p hp' hpq
    · cases h

-- ---------------------------------------------------------------------------
-- Making directories
-- ---------------------------------------------------------------------------

structure Made (path : Text) (tree tree' : FileTree) : Prop where
  files : SameFiles tree tree'
  grows : Grows tree tree'
  entries : ∀ e ∈ tree'.entries, e ∈ tree.entries ∨
    e.2 = .directory ∧ e.1 ∈ tree.places path ∧ tree.entryAt? e.1 = none

theorem Made.refl (path : Text) (tree : FileTree) : Made path tree tree :=
  ⟨.refl tree, .refl tree, fun _ he => .inl he⟩

theorem SameFiles.settled (h : SameFiles tree tree') (ht : tree.Settled) : tree'.Settled := by
  rw [Settled, h.workingDirectory]
  exact ht

theorem SameFiles.places (h : SameFiles tree tree') (path : Text) :
    tree'.places path = tree.places path := by
  rw [FileTree.places, FileTree.places, start, start, h.workingDirectory]

theorem Made.trans {tree'' : FileTree} (h : Made path tree tree') (h' : Made path tree' tree'') :
    Made path tree tree'' where
  files := h.files.trans h'.files
  grows := h.grows.trans h'.grows
  entries e he := by
    rcases h'.entries e he with he | ⟨hdir, hplace, hnone⟩
    · exact h.entries e he
    · rw [h.files.places] at hplace
      refine .inr ⟨hdir, hplace, Option.eq_none_iff_forall_ne_some.mpr fun entry hentry => ?_⟩
      cases hnone.symm.trans (h.grows _ entry hentry)

theorem makeDirectory_way (ht : tree.Settled) (h : tree.makeDirectory path = .ok tree') :
    (∀ p ∈ tree.places path, tree'.entryAt? p = some .directory) ∧ Made path tree tree' := by
  have hsame := makeDirectory_ok h
  simp only [makeDirectory, bind, Except.bind, pure, Except.pure, throw, throwThe,
    MonadExceptOf.throw] at h
  split at h
  · cases h
  · rename_i target hfollow
    have hway (p : Text) (hp : p ∈ tree.places path) :
        p ≠ target → tree.entryAt? p = some .directory :=
      follow_there hfollow p ((ht.mem_places (filter_names path)).mp hp)
    split at h
    · rename_i hdir
      cases h
      refine ⟨fun p hp => ?_, .refl path tree⟩
      by_cases hpt : p = target
      · rw [hpt, hdir]
      · exact hway p hp hpt
    · cases h
    · rename_i hnone
      cases h
      refine ⟨fun p hp => ?_, hsame, Grows.set hnone _, fun e he => ?_⟩
      · by_cases hpt : p = target
        · rw [hpt, entryAt?_set_self]
        · exact entryAt?_set_ne hpt (hway p hp hpt)
      · rcases mem_set he with rfl | he
        · refine .inr ⟨rfl, (ht.mem_places (filter_names path)).mpr ?_, hnone⟩
          rw [follow_ok hfollow]
          exact last_mem_placesFrom _ _
        · exact .inl he

theorem places_station {station : Text} (habs : isAbsolute station = isAbsolute path)
    (hparts : parts station <+: parts path) (hp : p ∈ tree.places station) :
    p ∈ tree.places path := by
  rw [places, start, habs] at hp
  exact placesFrom_subset _ hparts hp

theorem Made.along {station : Text} (h : Made station tree tree')
    (habs : isAbsolute station = isAbsolute path) (hparts : parts station <+: parts path) :
    Made path tree tree' where
  files := h.files
  grows := h.grows
  entries e he := (h.entries e he).imp_right fun ⟨hdir, hplace, hnone⟩ =>
    ⟨hdir, places_station habs hparts hplace, hnone⟩

theorem stations_concat (fuel : Nat) (path : Text) :
    ∃ front, stations fuel path = front ++ [path] := by
  unfold stations
  split
  · exact ⟨_, rfl⟩
  · exact ⟨[], rfl⟩

def ensure (tree : FileTree) (dir : Text) : Except FileFault FileTree :=
  match tree.look "mkdir" dir with
  | .ok .directory => .ok tree
  | .ok (.file _) => .error (.notDirectory "mkdir" dir)
  | .error _ => tree.makeDirectory dir

theorem makeDirectories_eq (tree : FileTree) (path : Text) :
    tree.makeDirectories path = (stations path.length path).foldlM ensure tree := rfl

theorem ensure_way (ht : tree.Settled) (h : tree.ensure path = .ok tree') :
    (∀ p ∈ tree.places path, tree'.entryAt? p = some .directory) ∧ Made path tree tree' := by
  unfold ensure at h
  split at h
  · rename_i hlook
    cases h
    exact ⟨look_there ht hlook, .refl path tree⟩
  · cases h
  · exact makeDirectory_way ht h

theorem foldlM_ensure {dirs : List Text}
    (hdirs : ∀ s ∈ dirs, isAbsolute s = isAbsolute path ∧ parts s <+: parts path)
    (ht : tree.Settled) (h : dirs.foldlM ensure tree = .ok tree') : Made path tree tree' := by
  refine foldlM_keeps (P := Made path tree) h (.refl path tree)
    fun dir hdir next last hnext hstep => ?_
  obtain ⟨habs, hparts⟩ := hdirs dir hdir
  exact hnext.trans ((ensure_way (hnext.files.settled ht) hstep).2.along habs hparts)

theorem makeDirectories_way (ht : tree.Settled) (h : tree.makeDirectories path = .ok tree') :
    (∀ p ∈ tree.places path, tree'.entryAt? p = some .directory) ∧ Made path tree tree' := by
  obtain ⟨front, hfront⟩ := stations_concat path.length path
  have hdirs (s : Text) (hs : s ∈ front) :
      isAbsolute s = isAbsolute path ∧ parts s <+: parts path :=
    stations_along (hfront ▸ List.mem_append_left _ hs)
  rw [makeDirectories_eq, hfront, List.foldlM_append] at h
  simp only [bind, Except.bind] at h
  split at h
  · cases h
  · rename_i tree₁ htree₁
    have hmade := foldlM_ensure hdirs ht htree₁
    simp only [List.foldlM_cons, List.foldlM_nil, bind_pure] at h
    obtain ⟨hthere, hlast⟩ := ensure_way (hmade.files.settled ht) h
    rw [hmade.files.places] at hthere
    exact ⟨hthere, hmade.trans hlast⟩

-- ---------------------------------------------------------------------------
-- Cleaning
-- ---------------------------------------------------------------------------

theorem foldl_keep_places {r : Bool} {hs : List Text} (hr : r = true → hs = [])
    (hh : ∀ n ∈ hs, Plain n) (hn : ∀ n ∈ names, Part n) :
    (names.foldl (keep r) []).reverse.foldl onward (rooted hs) = names.foldl onward (rooted hs) ∧
      ∀ p ∈ placesFrom (rooted hs) (names.foldl (keep r) []).reverse,
        p ∈ placesFrom (rooted hs) names := by
  induction names using List.reverseRecOn with
  | nil => exact ⟨rfl, fun p hp => hp⟩
  | append_singleton names n ih =>
    obtain ⟨hn, hlast⟩ := List.forall_mem_append.mp hn
    obtain ⟨hsame, hplaces⟩ := ih hn
    have hkept : ∀ m ∈ names.foldl (keep r) [], Part m := foldl_keep_part (by simp) hn
    rw [List.foldl_append, List.foldl_append, List.foldl_cons, List.foldl_nil, List.foldl_cons,
      List.foldl_nil]
    generalize names.foldl (keep r) [] = kept at hsame hplaces hkept ⊢
    have hadd (h : keep r kept n = n :: kept) :
        (keep r kept n).reverse.foldl onward (rooted hs) =
            onward (names.foldl onward (rooted hs)) n ∧
          ∀ p ∈ placesFrom (rooted hs) (keep r kept n).reverse,
            p ∈ placesFrom (rooted hs) (names ++ [n]) := by
      rw [h, List.reverse_cons, List.foldl_append, hsame]
      refine ⟨rfl, fun p hp => ?_⟩
      rw [placesFrom_append, hsame] at hp
      exact (placesFrom_append ..).mpr (hp.imp_left (hplaces p))
    by_cases hup : n = Text.ofString ".."
    · subst hup
      cases kept with
      | nil =>
        cases r with
        | false => exact hadd (by simp [keep])
        | true =>
          -- above the root there is nothing
          obtain rfl := hr rfl
          refine ⟨?_, fun p hp => (placesFrom_append ..).mpr (.inl (hplaces p hp))⟩
          rw [← hsame]
          rfl
      | cons last outer =>
        by_cases hlast : last = Text.ofString ".."
        · exact hadd (by simp [keep, hlast])
        · have hplain : Plain last := ⟨hkept last List.mem_cons_self, hlast⟩
          obtain ⟨hs', hat, hh'⟩ := placesFrom_rooted hh outer.reverse _ (last_mem_placesFrom _ _)
          have hdrop : keep r (last :: outer) (Text.ofString "..") = outer := by
            simp [keep, hlast]
          rw [List.reverse_cons, List.foldl_append, hat] at hsame
          simp only [List.foldl_cons, List.foldl_nil] at hsame
          rw [hdrop, hat, ← hsame, onward_plain hh' hplain, onward, if_pos rfl, parent_rooted,
            List.dropLast_concat]
          · refine ⟨rfl, fun p hp => (placesFrom_append ..).mpr (.inl (hplaces p ?_))⟩
            rw [List.reverse_cons]
            exact placesFrom_subset _ (List.prefix_append _ _) hp
          · exact List.forall_mem_append.mpr ⟨hh', by simpa using hplain⟩
    · exact hadd (by simp [keep, hup])

theorem Settled.clean_way (ht : tree.Settled) (path : Text) :
    tree.resolve (clean path) = tree.resolve path ∧
      ∀ p ∈ tree.places (clean path), p ∈ tree.places path := by
  have hstart : tree.start (clean path) = tree.start path := by
    rw [start, start, isAbsolute_clean]
  obtain ⟨hs, hrooted, hplain⟩ := ht.start_rooted path
  have hr (habs : isAbsolute path = true) : hs = [] := by
    rw [start, if_pos habs] at hrooted
    exact (rooted_eq_slash_iff hplain).mp hrooted.symm
  obtain ⟨hsame, hplaces⟩ := foldl_keep_places hr hplain (fun n => part_of_mem (p := path))
  rw [ht.resolve_parts, ht.resolve_parts, places, places, hstart, parts_clean, hrooted]
  exact ⟨hsame, hplaces⟩

-- ---------------------------------------------------------------------------
-- Paths that can be taken
-- ---------------------------------------------------------------------------

/-- The system takes a path of this wording. -/
structure Takes (path : Text) : Prop where
  nonempty : path ≠ []
  zero : 0 ∉ path
  length : path.length ≤ longestPath
  names : ∀ n ∈ FileTree.names path, n.length ≤ longestName

theorem names_append (s t : Text) :
    FileTree.names (s ++ slash :: t) = FileTree.names s ++ FileTree.names t := by
  rw [FileTree.names, Text.splitAt_append, List.filter_append]
  rfl

theorem names_part {n : Text} (h : Part n) : FileTree.names n = [n] := by
  rw [FileTree.names, Text.splitAt_of_not_mem h.2.1]
  simp [h.1]

theorem takes_rooted (hpart : ∀ n ∈ names, Part n) (hzero : ∀ n ∈ names, 0 ∉ n)
    (hlong : ∀ n ∈ names, n.length ≤ longestName) (hlength : (rooted names).length ≤ longestPath) :
    Takes (rooted names) := by
  suffices hall : 0 ∉ rooted names ∧ FileTree.names (rooted names) = names from
    ⟨rooted_ne_nil names, hall.1, hlength, fun n hn => hlong n (hall.2 ▸ hn)⟩
  clear hlong hlength
  induction names using List.reverseRecOn with
  | nil => decide
  | append_singleton names n ih =>
    obtain ⟨hpart, hn⟩ := List.forall_mem_append.mp hpart
    obtain ⟨hzero, hz⟩ := List.forall_mem_append.mp hzero
    rw [List.forall_mem_singleton] at hn hz
    cases names with
    | nil =>
      have hsingle : rooted [n] = [] ++ slash :: n := by
        simp [rooted, Text.joined, List.intercalate]
      rw [List.nil_append, hsingle, names_append, names_part hn]
      exact ⟨by simpa [slash] using hz, rfl⟩
    | cons m names =>
      obtain ⟨hzero', hnames⟩ := ih hpart hzero
      rw [rooted_concat (List.cons_ne_nil m names), names_append, hnames, names_part hn]
      exact ⟨by simpa [slash] using ⟨hzero', hz⟩, rfl⟩

theorem Takes.front {rest : Text} (h : Takes (path ++ slash :: rest)) (hne : path ≠ []) :
    Takes path where
  nonempty := hne
  zero hz := h.zero (List.mem_append_left _ hz)
  length := Nat.le_trans (by simp) h.length
  names n hn := h.names n (by rw [names_append]; exact List.mem_append_left _ hn)

theorem Takes.station {fuel : Nat} {station : Text} (h : Takes path)
    (hs : station ∈ stations fuel path) : Takes station := by
  induction fuel generalizing path with
  | zero =>
    cases List.mem_singleton.mp hs
    exact h
  | succ fuel ih =>
    unfold stations at hs
    split at hs
    · rename_i fuel' front hfuel habove
      cases hfuel
      obtain ⟨hne, rest, rfl⟩ := above?_eq_some habove
      rcases List.mem_append.mp hs with hs | hs
      · exact ih (h.front hne) hs
      · cases List.mem_singleton.mp hs
        exact h
    · cases List.mem_singleton.mp hs
      exact h

theorem Takes.steps (h : Takes path) : ∀ n ∈ steps path, n.length ≤ longestName := by
  intro n hn
  rcases List.mem_append.mp hn with hn | hn
  · exact h.names n hn
  · split at hn
    · rw [List.mem_singleton.mp hn]
      decide
    · cases hn

theorem Takes.follow (h : Takes path) (tree : FileTree) (operation : Text) (names : List Text) :
    tree.follow operation path names =
      names.foldlM (tree.enter operation path) (tree.start path) := by
  have hzero : List.contains path 0 = false := by simpa using h.zero
  rw [FileTree.follow, if_neg h.nonempty, hzero, if_neg Bool.false_ne_true,
    if_neg (Nat.not_lt.mpr h.length), start]

/-- Where no plain file is in the way, a path leads to what stands where it resolves to, unless a
directory on the way is missing. -/
theorem Takes.look (h : Takes path) (ht : tree.Settled) (operation : Text)
    (hfile : ∀ p ∈ placesFrom (tree.start path) (FileTree.steps path).dropLast, ∀ content,
      tree.entryAt? p ≠ some (.file content)) :
    tree.look operation path = (match tree.entryAt? (tree.resolve path) with
        | some entry => .ok entry
        | none => .error (.notFound operation path)) ∨
      tree.look operation path = .error (.notFound operation path) ∧
        ∃ p ∈ placesFrom (tree.start path) (FileTree.steps path).dropLast,
          tree.entryAt? p = none := by
  rw [ht.resolve_onward (fun n => step_of_mem) (filter_steps path), FileTree.look, walk, h.follow]
  rcases foldlM_enter_along operation path h.steps hfile with hok | ⟨herror, hmissing⟩
  · left
    simp only [hok, bind, Except.bind]
    rfl
  · right
    exact ⟨by simp only [herror, bind, Except.bind], hmissing⟩

theorem Takes.look_there (h : Takes path) (ht : tree.Settled) (operation : Text)
    (hthere : ∀ p ∈ tree.places path, tree.entryAt? p = some .directory) :
    tree.look operation path = .ok .directory := by
  have hsteps (p : Text) (hp : p ∈ placesFrom (tree.start path) (FileTree.steps path).dropLast) :
      tree.entryAt? p = some .directory :=
    hthere p ((ht.mem_places (filter_steps path)).mpr
      (placesFrom_subset _ (List.dropLast_prefix _) hp))
  have hlast : tree.entryAt? (tree.resolve path) = some .directory := by
    rw [ht.resolve_parts]
    exact hthere _ (last_mem_placesFrom _ _)
  rcases h.look ht operation fun p hp content => by simp [hsteps p hp] with
    hlook | ⟨-, p, hp, hnone⟩
  · rw [hlook, hlast]
  · cases hnone.symm.trans (hsteps p hp)

theorem Takes.makeDirectories (h : Takes path) (ht : tree.Settled)
    (hthere : ∀ p ∈ tree.places path, tree.entryAt? p = some .directory) :
    tree.makeDirectories path = .ok tree := by
  rw [makeDirectories_eq]
  have hstations : ∀ s ∈ stations path.length path, tree.ensure s = .ok tree := by
    intro s hs
    obtain ⟨habs, hparts⟩ := stations_along hs
    have hlook := (h.station hs).look_there ht "mkdir" fun p hp =>
      hthere p (places_station habs hparts hp)
    rw [ensure, hlook]
  generalize stations path.length path = dirs at hstations
  induction dirs with
  | nil => rfl
  | cons dir dirs ih =>
    obtain ⟨hdir, hdirs⟩ := List.forall_mem_cons.mp hstations
    rw [List.foldlM_cons, hdir]
    exact ih hdirs

end MacroRelay.FileTree
