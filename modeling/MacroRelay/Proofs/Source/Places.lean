import MacroRelay.Proofs.Lists
import MacroRelay.Proofs.Source.FileTree

/-!
# Places along a path

What is read at a path depends only on what stands at the places along it. A new entry in a directory
changes what stands at its own place and at no other.
-/

namespace MacroRelay

namespace Path

variable {names more ps qs : List Text}

theorem rooted_append (hn : names ≠ []) (hm : more ≠ []) :
    rooted (names ++ more) = rooted names ++ rooted more := by
  induction names with
  | nil => exact absurd rfl hn
  | cons n names ih =>
    cases names with
    | nil =>
      obtain ⟨m, more, rfl⟩ := List.exists_cons_of_ne_nil hm
      rw [List.singleton_append, rooted_cons_cons]
      simp [rooted, Text.joined, List.intercalate]
    | cons k names =>
      rw [List.cons_append, List.cons_append, rooted_cons_cons, ← List.cons_append,
        ih (List.cons_ne_nil k names), rooted_cons_cons, List.append_assoc]

theorem rooted_inj (hp : ∀ n ∈ ps, Plain n) (hq : ∀ n ∈ qs, Plain n) (h : rooted ps = rooted qs) :
    ps = qs := by
  rw [← parts_rooted fun n hn => (hp n hn).1, h, parts_rooted fun n hn => (hq n hn).1]

end Path

namespace FileTree

open MacroRelay.Path

variable {tree tree' : FileTree} {ps qs hs : List Text} {n : Text}

-- ---------------------------------------------------------------------------
-- Below a directory
-- ---------------------------------------------------------------------------

theorem rooted_eq_slash_iff (hq : ∀ n ∈ qs, Plain n) : rooted qs = Text.ofString "/" ↔ qs = [] :=
  ⟨fun h => rooted_inj hq (by simp) h, fun h => h ▸ rfl⟩

theorem isBelow_rooted (hp : ∀ n ∈ ps, Plain n) (hq : ∀ n ∈ qs, Plain n) :
    isBelow (rooted ps) (rooted qs) ↔ ps <+: qs ∧ ps ≠ qs := by
  cases ps with
  | nil =>
    have hroot : rooted [] = Text.ofString "/" := rfl
    rw [isBelow, if_pos hroot, bne_iff_ne, hroot]
    simp [rooted_eq_slash_iff hq, eq_comm]
  | cons p ps =>
    have hne : rooted (p :: ps) ≠ Text.ofString "/" :=
      fun h => nomatch (rooted_eq_slash_iff hp).mp h
    rw [isBelow, if_neg hne, List.isPrefixOf_iff_prefix]
    constructor
    · rintro ⟨t, ht⟩
      rw [List.append_assoc, List.singleton_append] at ht
      have hparts := congrArg parts ht
      rw [parts_append, parts_rooted fun n hn => (hp n hn).1,
        parts_rooted fun n hn => (hq n hn).1] at hparts
      refine ⟨⟨parts t, hparts⟩, ?_⟩
      rintro rfl
      have hlength := congrArg List.length ht
      rw [List.length_append, List.length_cons] at hlength
      omega
    · rintro ⟨⟨more, rfl⟩, hmore⟩
      have hmore' : more ≠ [] := fun h => hmore (by rw [h, List.append_nil])
      rw [rooted_append (List.cons_ne_nil p ps) hmore', rooted]
      exact ⟨Text.joined [slash] more, by simp [rooted]⟩

theorem isBelow_trans {path : Text} (hp : ∀ n ∈ ps, Plain n) (hh : ∀ n ∈ hs, Plain n)
    (h : isBelow (rooted ps) (rooted hs)) (h' : isBelow (rooted hs) path) :
    isBelow (rooted ps) path := by
  have hhs : hs ≠ [] := by
    rintro rfl
    obtain ⟨hinit, hne⟩ := (isBelow_rooted hp hh).mp h
    exact hne (List.prefix_nil.mp hinit)
  have hbelow : rooted hs ≠ Text.ofString "/" := fun heq => hhs ((rooted_eq_slash_iff hh).mp heq)
  rw [isBelow, if_neg hbelow, List.isPrefixOf_iff_prefix] at h'
  by_cases hroot : rooted ps = Text.ofString "/"
  · rw [isBelow, if_pos hroot, bne_iff_ne, hroot]
    rintro rfl
    have hlength := h'.length_le
    rw [List.length_append, rooted, List.length_cons] at hlength
    change _ + 1 + 1 ≤ 1 at hlength
    omega
  · rw [isBelow, if_neg hroot, List.isPrefixOf_iff_prefix] at h ⊢
    exact (h.trans (List.prefix_append _ _)).trans h'

-- ---------------------------------------------------------------------------
-- What stands at a place
-- ---------------------------------------------------------------------------

theorem entryAt?_eq_none {path : Text} : tree.entryAt? path = none ↔
    tree.entries.lookup path = none ∧ ∀ e ∈ tree.entries, isBelow path e.1 = false := by
  unfold entryAt?
  cases hl : tree.entries.lookup path with
  | some entry => simp
  | none => simp

theorem entryAt?_ne_none_of_below (hp : ∀ n ∈ ps, Plain n) (hh : ∀ n ∈ hs, Plain n)
    (h : isBelow (rooted ps) (rooted hs)) (hexists : tree.entryAt? (rooted hs) ≠ none) :
    tree.entryAt? (rooted ps) ≠ none := by
  intro hnone
  obtain ⟨-, hentries⟩ := entryAt?_eq_none.mp hnone
  refine hexists (entryAt?_eq_none.mpr ⟨?_, fun e he => ?_⟩)
  · refine Option.eq_none_iff_forall_ne_some.mpr fun entry hl => ?_
    have hmem := mem_of_lookup hl
    exact absurd h (Bool.eq_false_iff.mp (hentries _ hmem))
  · refine Bool.eq_false_iff.mpr fun hbelow => ?_
    exact absurd (isBelow_trans hp hh h hbelow) (Bool.eq_false_iff.mp (hentries e he))

theorem entryAt?_set (hh : ∀ m ∈ hs ++ [n], Plain m) (hq : ∀ m ∈ qs, Plain m)
    (hp : ∀ m ∈ ps, Plain m) (hdir : tree.entryAt? (rooted hs) ≠ none) (hunder : hs ++ [n] <+: qs)
    (haside : ¬ hs ++ [n] <+: ps) (entry : FileEntry) :
    (tree.set (rooted qs) entry).entryAt? (rooted ps) = tree.entryAt? (rooted ps) := by
  have hne : rooted ps ≠ rooted qs := fun h => haside (rooted_inj hp hq h ▸ hunder)
  have hlookup : (tree.set (rooted qs) entry).entries.lookup (rooted ps) =
      tree.entries.lookup (rooted ps) := by
    rw [set, List.lookup_cons, beq_false_of_ne hne, Text.lookup_filter_ne hne]
  have hhs : ∀ m ∈ hs, Plain m := fun m hm => hh m (List.mem_append_left _ hm)
  -- above the new entry there already was something
  have habove (h : isBelow (rooted ps) (rooted qs)) : tree.entryAt? (rooted ps) ≠ none := by
    obtain ⟨hinit, -⟩ := (isBelow_rooted hp hq).mp h
    rcases List.prefix_or_prefix_of_prefix hinit hunder with hps | hps
    · rcases List.prefix_concat_iff.mp hps with rfl | hps
      · exact absurd (List.prefix_refl _) haside
      · by_cases heq : ps = hs
        · exact heq ▸ hdir
        · exact entryAt?_ne_none_of_below hp hhs ((isBelow_rooted hp hhs).mpr ⟨hps, heq⟩) hdir
    · exact absurd hps haside
  cases hl : tree.entries.lookup (rooted ps) with
  | some found => simp only [entryAt?, hlookup, hl]
  | none =>
    have hany : ((tree.set (rooted qs) entry).entries.any fun e => isBelow (rooted ps) e.1) =
        tree.entries.any fun e => isBelow (rooted ps) e.1 := by
      rw [Bool.eq_iff_iff, List.any_eq_true, List.any_eq_true]
      constructor
      · rintro ⟨e, he, hbelow⟩
        rcases List.mem_cons.mp he with rfl | he
        · refine Classical.byContradiction fun hnone => habove hbelow ?_
          exact entryAt?_eq_none.mpr ⟨hl, fun e he => Bool.eq_false_iff.mpr fun h => hnone ⟨e, he, h⟩⟩
        · exact ⟨e, (List.mem_filter.mp he).1, hbelow⟩
      · rintro ⟨e, he, hbelow⟩
        by_cases heq : e.1 = rooted qs
        · exact ⟨_, List.mem_cons_self, heq ▸ hbelow⟩
        · exact ⟨e, List.mem_cons_of_mem _ (List.mem_filter.mpr ⟨he, bne_iff_ne.mpr heq⟩), hbelow⟩
    simp only [entryAt?, hlookup, hl]
    rw [hany]

-- ---------------------------------------------------------------------------
-- Places
-- ---------------------------------------------------------------------------

def placesFrom (here : Text) : List Text → List Text
  | [] => [here]
  | step :: rest => here :: placesFrom (onward here step) rest

/-- The places that a path leads through, the last of them what it leads to. -/
def places (tree : FileTree) (path : Text) : List Text :=
  placesFrom (tree.start path) (parts path)

theorem Settled.start_rooted (ht : tree.Settled) (path : Text) :
    ∃ names, tree.start path = rooted names ∧ ∀ n ∈ names, Plain n := by
  unfold start
  split
  · exact ⟨[], rfl, by simp⟩
  · exact ht.names

theorem onward_plain_names (hp : ∀ n ∈ ps, Plain n) (step : Text) :
    ∃ names, onward (rooted ps) step = rooted names ∧ ∀ n ∈ names, Plain n := by
  unfold onward
  split
  · exact ⟨_, parent_rooted hp, fun n hn => hp n (List.dropLast_subset _ hn)⟩
  · refine ⟨_, join_rooted hp step, fun n hn => ?_⟩
    exact foldl_keep_all_plain (fun m hm => hp m (List.mem_reverse.mp hm)) (fun p => part_of_mem) n
      (List.mem_reverse.mp hn)

theorem onward_dot (hp : ∀ n ∈ ps, Plain n) : onward (rooted ps) (Text.ofString ".") = rooted ps := by
  rw [onward, if_neg (by decide), join_rooted hp]
  simp [show parts (Text.ofString ".") = [] by decide]

theorem onward_plain (hp : ∀ m ∈ ps, Plain m) (hn : Plain n) :
    onward (rooted ps) n = rooted (ps ++ [n]) := by
  rw [onward, if_neg hn.2, join_rooted hp, parts_part hn.1]
  simp [keep_plain hn]

theorem foldl_onward_plain (hp : ∀ m ∈ ps, Plain m) (hq : ∀ m ∈ qs, Plain m) :
    qs.foldl onward (rooted ps) = rooted (ps ++ qs) := by
  induction qs generalizing ps with
  | nil => rw [List.foldl_nil, List.append_nil]
  | cons q qs ih =>
    obtain ⟨hq0, hq⟩ := List.forall_mem_cons.mp hq
    have hp' : ∀ m ∈ ps ++ [q], Plain m := List.forall_mem_append.mpr ⟨hp, by simpa using hq0⟩
    rw [List.foldl_cons, onward_plain hp hq0, ih hp' hq, List.append_assoc, List.singleton_append]

theorem placesFrom_append (here : Text) (front back : List Text) (p : Text) :
    p ∈ placesFrom here (front ++ back) ↔
      p ∈ placesFrom here front ∨ p ∈ placesFrom (front.foldl onward here) back := by
  induction front generalizing here with
  | nil =>
    cases back <;> simp [placesFrom]
  | cons step front ih =>
    simp only [List.cons_append, placesFrom, List.mem_cons, List.foldl_cons, ih, or_assoc]

theorem placesFrom_subset (here : Text) {front names : List Text} (h : front <+: names) {p : Text}
    (hp : p ∈ placesFrom here front) : p ∈ placesFrom here names := by
  obtain ⟨back, rfl⟩ := h
  exact (placesFrom_append here front back p).mpr (.inl hp)

theorem last_mem_placesFrom (here : Text) (names : List Text) :
    names.foldl onward here ∈ placesFrom here names := by
  have h := (placesFrom_append here names [] (names.foldl onward here)).mpr
    (.inr List.mem_cons_self)
  rwa [List.append_nil] at h

theorem placesFrom_rooted (hp : ∀ n ∈ ps, Plain n) (steps : List Text) :
    ∀ p ∈ placesFrom (rooted ps) steps, ∃ names, p = rooted names ∧ ∀ n ∈ names, Plain n := by
  induction steps generalizing ps with
  | nil =>
    intro p hmem
    exact ⟨ps, List.mem_singleton.mp hmem, hp⟩
  | cons step steps ih =>
    intro p hmem
    rcases List.mem_cons.mp hmem with rfl | hmem
    · exact ⟨ps, rfl, hp⟩
    · obtain ⟨names, hnext, hnames⟩ := onward_plain_names hp step
      rw [hnext] at hmem
      exact ih hnames p hmem

theorem Settled.places_rooted (ht : tree.Settled) (path : Text) :
    ∀ p ∈ tree.places path, ∃ names, p = rooted names ∧ ∀ n ∈ names, Plain n := by
  obtain ⟨names, hstart, hplain⟩ := ht.start_rooted path
  rw [places, hstart]
  exact placesFrom_rooted hplain _

theorem mem_placesFrom_plain (hp : ∀ m ∈ ps, Plain m) (hq : ∀ m ∈ qs, Plain m) {p : Text}
    (h : p ∈ placesFrom (rooted ps) qs) : ∃ front, front <+: qs ∧ p = rooted (ps ++ front) := by
  induction qs generalizing ps with
  | nil => exact ⟨[], List.prefix_refl _, by simpa [placesFrom] using h⟩
  | cons q qs ih =>
    obtain ⟨hq0, hq⟩ := List.forall_mem_cons.mp hq
    rcases List.mem_cons.mp h with rfl | h
    · exact ⟨[], List.nil_prefix, by simp⟩
    · rw [onward_plain hp hq0] at h
      have hp' : ∀ m ∈ ps ++ [q], Plain m :=
        List.forall_mem_append.mpr ⟨hp, by simpa using hq0⟩
      obtain ⟨front, hfront, rfl⟩ := ih hp' hq h
      exact ⟨q :: front, List.prefix_cons_inj q |>.mpr hfront, by simp⟩

theorem mem_placesFrom_filter (hp : ∀ n ∈ ps, Plain n) (steps : List Text) (p : Text) :
    p ∈ placesFrom (rooted ps) (steps.filter (· != Text.ofString ".")) ↔
      p ∈ placesFrom (rooted ps) steps := by
  induction steps generalizing ps with
  | nil => rfl
  | cons step steps ih =>
    by_cases hdot : step = Text.ofString "."
    · rw [List.filter_cons_of_neg (by simp [hdot]), ih hp, hdot, placesFrom, onward_dot hp]
      cases steps <;> simp [placesFrom]
    · obtain ⟨names, hnext, hnames⟩ := onward_plain_names hp step
      rw [List.filter_cons_of_pos (by simp [hdot]), placesFrom, placesFrom, hnext, List.mem_cons,
        List.mem_cons, ih hnames]

theorem Settled.mem_places (ht : tree.Settled) {path p : Text} {steps : List Text}
    (hsteps : steps.filter (· != Text.ofString ".") = parts path) :
    p ∈ tree.places path ↔ p ∈ placesFrom (tree.start path) steps := by
  obtain ⟨names, hstart, hplain⟩ := ht.start_rooted path
  rw [places, ← hsteps, hstart, mem_placesFrom_filter hplain]

theorem filter_names (path : Text) : (names path).filter (· != Text.ofString ".") = parts path := by
  rw [names, List.filter_filter, parts]
  simp only [Bool.and_comm]

-- ---------------------------------------------------------------------------
-- Following a path
-- ---------------------------------------------------------------------------

theorem enter_congr {operation path here : Text} (h : tree'.entryAt? here = tree.entryAt? here)
    (step : Text) : tree'.enter operation path here step = tree.enter operation path here step := by
  rw [enter, enter, h]

theorem foldlM_enter_congr {operation path here : Text} {steps : List Text}
    (h : ∀ p ∈ placesFrom here steps, tree'.entryAt? p = tree.entryAt? p) :
    steps.foldlM (tree'.enter operation path) here =
      steps.foldlM (tree.enter operation path) here := by
  induction steps generalizing here with
  | nil => rfl
  | cons step steps ih =>
    obtain ⟨hhere, hrest⟩ := List.forall_mem_cons.mp h
    rw [List.foldlM_cons, List.foldlM_cons, enter_congr hhere]
    cases henter : tree.enter operation path here step with
    | error fault => rfl
    | ok next =>
      rw [enter_ok henter]
      exact ih hrest

theorem follow_congr {operation path : Text} {names : List Text}
    (hdir : tree'.workingDirectory = tree.workingDirectory)
    (h : ∀ p ∈ placesFrom (tree.start path) names, tree'.entryAt? p = tree.entryAt? p) :
    tree'.follow operation path names = tree.follow operation path names := by
  have hsame : names.foldlM (tree'.enter operation path) (tree.start path) =
      names.foldlM (tree.enter operation path) (tree.start path) := foldlM_enter_congr h
  unfold start at hsame
  rw [follow, follow, hdir, hsame]

theorem look_congr {operation path : Text} (ht : tree.Settled)
    (hdir : tree'.workingDirectory = tree.workingDirectory)
    (h : ∀ p ∈ tree.places path, tree'.entryAt? p = tree.entryAt? p) :
    tree'.look operation path = tree.look operation path := by
  have hplaces : ∀ p ∈ placesFrom (tree.start path) (steps path),
      tree'.entryAt? p = tree.entryAt? p :=
    fun p hp => h p ((ht.mem_places (filter_steps path)).mpr hp)
  have hwalk : tree'.walk operation path = tree.walk operation path := follow_congr hdir hplaces
  rw [look, look, hwalk]
  cases hq : tree.walk operation path with
  | error fault => rfl
  | ok q =>
    have hlast := hplaces q (follow_ok hq ▸ last_mem_placesFrom _ _)
    simp only [bind, Except.bind, hlast]

theorem read_congr {path : Text} (ht : tree.Settled)
    (hdir : tree'.workingDirectory = tree.workingDirectory)
    (h : ∀ p ∈ tree.places path, tree'.entryAt? p = tree.entryAt? p) :
    tree'.read path = tree.read path := by
  rw [read, read, look_congr ht hdir h]

-- ---------------------------------------------------------------------------
-- Making directories
-- ---------------------------------------------------------------------------

theorem above?_eq_some {path front : Text} (h : above? path = some front) :
    front ≠ [] ∧ ∃ rest, path = front ++ slash :: rest := by
  simp only [above?] at h
  generalize hcut : (bare path).reverse.dropWhile (· != slash) = cut at h
  split at h
  · cases h
  · rename_i hlong
    cases h
    have hbare : bare path <+: path := by
      rw [← List.reverse_suffix, bare, List.reverse_reverse]
      exact List.dropWhile_suffix _
    have hinit : cut.reverse <+: path := by
      refine List.IsPrefix.trans ?_ hbare
      rw [← List.reverse_suffix, List.reverse_reverse, ← hcut]
      exact List.dropWhile_suffix _
    cases cut with
    | nil => simp at hlong
    | cons b cut =>
      have hb : b = slash := by
        have hhead := List.head?_dropWhile_not (· != slash) (bare path).reverse
        rw [hcut] at hhead
        simpa using hhead
      subst hb
      obtain ⟨rest, hrest⟩ := hinit
      rw [List.reverse_cons] at hrest hlong
      rw [List.reverse_cons, List.dropLast_concat]
      refine ⟨fun hnil => ?_, rest, ?_⟩
      · simp [hnil] at hlong
      · simpa using hrest.symm

theorem stations_along {fuel : Nat} {path station : Text} (h : station ∈ stations fuel path) :
    isAbsolute station = isAbsolute path ∧ parts station <+: parts path := by
  induction fuel generalizing path with
  | zero =>
    cases List.mem_singleton.mp h
    exact ⟨rfl, List.prefix_refl _⟩
  | succ fuel ih =>
    unfold stations at h
    split at h
    · rename_i fuel' front hfuel habove
      cases hfuel
      obtain ⟨hne, rest, rfl⟩ := above?_eq_some habove
      have hfront : isAbsolute (front ++ slash :: rest) = isAbsolute front := by
        cases front with
        | nil => exact absurd rfl hne
        | cons b front => rfl
      rcases List.mem_append.mp h with h | h
      · obtain ⟨habs, hparts⟩ := ih h
        rw [hfront, parts_append]
        exact ⟨habs, hparts.trans (List.prefix_append _ _)⟩
      · cases List.mem_singleton.mp h
        exact ⟨rfl, List.prefix_refl _⟩
    · cases List.mem_singleton.mp h
      exact ⟨rfl, List.prefix_refl _⟩

end FileTree

end MacroRelay
