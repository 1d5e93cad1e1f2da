import MacroRelay.Proofs.Lists
import MacroRelay.Proofs.Path
import MacroRelay.Proofs.Wire.RoundTrip
import MacroRelay.Source.FileTree

/-!
# Plain files in a tree

A path that can be followed leads where it resolves to, since a tree has no links. Making
directories changes no plain file, writing one changes no other, and removing leaves of every
plain file either all or nothing.
-/

namespace MacroRelay.FileTree

open MacroRelay.Path

def file? (tree : FileTree) (path : Text) : Option Text :=
  match tree.entries.lookup path with
  | some (.file content) => some content
  | _ => none

/-- The working directory is absolute and cleaned. -/
def Settled (tree : FileTree) : Prop :=
  isAbsolute tree.workingDirectory = true ∧ clean tree.workingDirectory = tree.workingDirectory

instance (tree : FileTree) : Decidable tree.Settled := by unfold Settled; infer_instance

theorem Settled.names {tree : FileTree} (h : tree.Settled) :
    ∃ ws, tree.workingDirectory = rooted ws ∧ ∀ w ∈ ws, Plain w := by
  obtain ⟨habs, hclean⟩ := h
  refine ⟨_, hclean.symm.trans (clean_of_isAbsolute habs), fun w hw => ?_⟩
  exact foldl_keep_all_plain (by simp) (fun p => part_of_mem) w (List.mem_reverse.mp hw)

-- ---------------------------------------------------------------------------
-- Following a path
-- ---------------------------------------------------------------------------

def origin (ws : List Text) (path : Text) : List Text :=
  if isAbsolute path then [] else ws.reverse

theorem resolve_eq {tree : FileTree} {ws : List Text} (hws : tree.workingDirectory = rooted ws)
    (hp : ∀ w ∈ ws, Plain w) (path : Text) :
    tree.resolve path = rooted ((parts path).foldl (keep true) (origin ws path)).reverse := by
  unfold resolve against origin
  split
  · rename_i habs
    exact clean_of_isAbsolute habs
  · rw [hws, join_rooted hp]

/-- Names along a path hold no slash, but may be `.` or `..`. -/
theorem step_of_mem {path step : Text} (h : step ∈ steps path) : step ≠ [] ∧ slash ∉ step := by
  rcases List.mem_append.mp h with h | h
  · obtain ⟨hm, hne⟩ := List.mem_filter.mp h
    exact ⟨bne_iff_ne.mp hne, Text.not_mem_splitAt hm⟩
  · split at h
    · rw [List.mem_singleton.mp h]
      decide
    · cases h

theorem filter_steps (path : Text) : (steps path).filter (· != Text.ofString ".") = parts path := by
  have hend : (if path.getLast? = some slash then [Text.ofString "."] else []).filter
      (· != Text.ofString ".") = [] := by
    split <;> rfl
  rw [steps, List.filter_append, hend, List.append_nil, names, List.filter_filter, parts]
  simp only [Bool.and_comm]

def start (tree : FileTree) (path : Text) : Text :=
  if isAbsolute path then [slash] else tree.workingDirectory

def onward (here step : Text) : Text :=
  if step = Text.ofString ".." then parent here else join [here, step]

theorem onward_rooted {step : Text} {kept : List Text} (hk : ∀ n ∈ kept, Plain n)
    (hs : step ≠ [] ∧ slash ∉ step) : onward (rooted kept.reverse) step =
      rooted (([step].filter (· != Text.ofString ".")).foldl (keep true) kept).reverse := by
  have hk' : ∀ n ∈ kept.reverse, Plain n := fun n hn => hk n (List.mem_reverse.mp hn)
  unfold onward
  split
  · rename_i hup
    subst hup
    rw [parent_rooted hk', List.dropLast_reverse]
    cases kept with
    | nil => rfl
    | cons n kept =>
      have hn := (hk n List.mem_cons_self).2
      simp [keep, hn, show Text.ofString ".." ≠ Text.ofString "." by decide]
  · rw [join_rooted hk', List.reverse_reverse]
    by_cases hdot : step = Text.ofString "."
    · subst hdot
      rfl
    · rw [parts_part ⟨hs.1, hs.2, hdot⟩, List.filter_cons_of_pos (by simpa using hdot),
        List.filter_nil]

theorem foldl_onward {names kept : List Text} (hk : ∀ n ∈ kept, Plain n)
    (hn : ∀ n ∈ names, n ≠ [] ∧ slash ∉ n) : names.foldl onward (rooted kept.reverse) =
      rooted ((names.filter (· != Text.ofString ".")).foldl (keep true) kept).reverse := by
  induction names generalizing kept with
  | nil => rfl
  | cons n names ih =>
    obtain ⟨hn0, hn⟩ := List.forall_mem_cons.mp hn
    have hkept : ∀ m ∈ ([n].filter (· != Text.ofString ".")).foldl (keep true) kept, Plain m := by
      refine foldl_keep_all_plain hk fun p hp => ?_
      obtain ⟨hp, hdot⟩ := List.mem_filter.mp hp
      rw [List.mem_singleton.mp hp] at hdot ⊢
      exact ⟨hn0.1, hn0.2, bne_iff_ne.mp hdot⟩
    rw [List.foldl_cons, onward_rooted hk hn0, ih hkept hn, ← List.foldl_append,
      ← List.filter_append, List.singleton_append]

theorem Settled.resolve_onward {tree : FileTree} (ht : tree.Settled) {path : Text}
    {names : List Text} (hn : ∀ n ∈ names, n ≠ [] ∧ slash ∉ n)
    (hparts : names.filter (· != Text.ofString ".") = parts path) :
    tree.resolve path = names.foldl onward (tree.start path) := by
  obtain ⟨ws, hws, hplain⟩ := ht.names
  have hstart : tree.start path = rooted (origin ws path).reverse := by
    unfold start origin
    split
    · rfl
    · rw [List.reverse_reverse, hws]
  have horigin : ∀ n ∈ origin ws path, Plain n := by
    unfold origin
    split
    · simp
    · exact fun n hn => hplain n (List.mem_reverse.mp hn)
  rw [resolve_eq hws hplain, ← hparts, hstart, foldl_onward horigin hn]

theorem Settled.resolve_parts {tree : FileTree} (ht : tree.Settled) (path : Text) :
    tree.resolve path = (parts path).foldl onward (tree.start path) :=
  ht.resolve_onward (fun _ hn => ⟨(part_of_mem hn).1, (part_of_mem hn).2.1⟩)
    (List.filter_eq_self.mpr fun _ hn => bne_iff_ne.mpr (part_of_mem hn).2.2)

theorem enter_ok {tree : FileTree} {operation path here step next : Text}
    (h : tree.enter operation path here step = .ok next) : next = onward here step := by
  unfold enter at h
  split at h
  · cases h
  · cases h
  · split at h
    · cases h
    · cases h
      rfl

theorem foldlM_enter_ok {tree : FileTree} {operation path here q : Text} {names : List Text}
    (h : names.foldlM (tree.enter operation path) here = .ok q) : q = names.foldl onward here := by
  induction names generalizing here with
  | nil =>
    cases h
    rfl
  | cons n names ih =>
    obtain ⟨next, henter, h⟩ := foldlM_cons_ok.mp h
    rw [List.foldl_cons, ← enter_ok henter]
    exact ih h

theorem follow_ok {tree : FileTree} {operation path q : Text} {names : List Text}
    (h : tree.follow operation path names = .ok q) : q = names.foldl onward (tree.start path) := by
  unfold follow at h
  split at h
  · cases h
  · split at h
    · cases h
    · split at h
      · cases h
      · exact foldlM_enter_ok h

/-- There are no links: a path that can be followed leads where it resolves to. -/
theorem walk_eq_resolve {tree : FileTree} (ht : tree.Settled) {operation path q : Text}
    (h : tree.walk operation path = .ok q) : q = tree.resolve path := by
  rw [follow_ok h, ht.resolve_onward (fun n => step_of_mem) (filter_steps path)]

theorem read_ok {tree : FileTree} (ht : tree.Settled) {path content : Text}
    (h : tree.read path = .ok content) : tree.file? (tree.resolve path) = some content := by
  simp only [read, look, bind, Except.bind, pure, Except.pure, throw, throwThe,
    MonadExceptOf.throw] at h
  split at h
  · cases h
  · rename_i entry hlook
    split at hlook
    · cases hlook
    · rename_i q hwalk
      split at hlook
      · rename_i entry' hentry
        cases hlook
        split at h
        · cases h
          rw [← walk_eq_resolve ht hwalk]
          unfold entryAt? at hentry
          split at hentry
          · rename_i hl
            cases hentry
            simp [file?, hl]
          · split at hentry <;> cases hentry
        · cases h
      · cases hlook

-- ---------------------------------------------------------------------------
-- Changing a tree
-- ---------------------------------------------------------------------------

/-- The same plain files, with paths read alike. -/
structure SameFiles (tree tree' : FileTree) : Prop where
  workingDirectory : tree'.workingDirectory = tree.workingDirectory
  files : ∀ path, tree'.file? path = tree.file? path

theorem SameFiles.refl (tree : FileTree) : SameFiles tree tree := ⟨rfl, fun _ => rfl⟩

theorem SameFiles.trans {t₁ t₂ t₃ : FileTree} (h : SameFiles t₁ t₂) (h' : SameFiles t₂ t₃) :
    SameFiles t₁ t₃ :=
  ⟨h'.workingDirectory.trans h.workingDirectory, fun path => (h'.files path).trans (h.files path)⟩

theorem resolve_congr {tree tree' : FileTree} (h : tree'.workingDirectory = tree.workingDirectory)
    (path : Text) : tree'.resolve path = tree.resolve path := by
  rw [resolve, resolve, h]

theorem file?_set (tree : FileTree) (path other : Text) (entry : FileEntry) :
    (tree.set path entry).file? other =
      if other = path then (match entry with | .file content => some content | .directory => none)
      else tree.file? other := by
  unfold file? set
  by_cases h : other = path
  · subst h
    rw [List.lookup_cons_self, if_pos rfl]
    cases entry <;> rfl
  · rw [List.lookup_cons, beq_false_of_ne h, if_neg h, Text.lookup_filter_ne h]

theorem makeDirectory_ok {tree tree' : FileTree} {path : Text}
    (h : tree.makeDirectory path = .ok tree') : SameFiles tree tree' := by
  simp only [makeDirectory, bind, Except.bind, pure, Except.pure, throw, throwThe,
    MonadExceptOf.throw] at h
  split at h
  · cases h
  · rename_i target _
    split at h
    · cases h
      exact .refl _
    · cases h
    · rename_i hnone
      cases h
      refine ⟨rfl, fun other => ?_⟩
      rw [file?_set]
      split
      · rename_i heq
        subst heq
        have hl : tree.entries.lookup other = none := by
          unfold entryAt? at hnone
          split at hnone
          · cases hnone
          · assumption
        simp [file?, hl]
      · rfl

theorem makeDirectories_ok {tree tree' : FileTree} {path : Text}
    (h : tree.makeDirectories path = .ok tree') : SameFiles tree tree' := by
  refine foldlM_keeps (P := SameFiles tree) h (.refl tree) fun dir _ next last hnext hstep => ?_
  refine hnext.trans ?_
  split at hstep
  · cases hstep
    exact .refl _
  · cases hstep
  · exact makeDirectory_ok hstep

theorem file?_removeAll (tree : FileTree) (path other : Text) : (tree.removeAll path).file? other =
    if other != path && !isBelow path other then tree.file? other else none := by
  unfold file? removeAll
  simp only [Text.lookup_filter tree.entries fun other => other != path && !isBelow path other]
  cases other != path && !isBelow path other <;> rfl

end MacroRelay.FileTree
