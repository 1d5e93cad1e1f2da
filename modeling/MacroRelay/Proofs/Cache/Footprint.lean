import MacroRelay.Proofs.Cache.Disk
import MacroRelay.Proofs.Source.Directories

/-!
# Where a disk cache writes

A disk cache keeps all its files below one directory. Putting an answer changes what stands at
or below that directory and nowhere else, so a path that spares it is read as before.
-/

namespace MacroRelay

namespace DiskCache

open MacroRelay.Path FileTree

variable {c : DiskCache} {tree tree' : FileTree} {key : Digest} {path : Text}
  {hs : List Text}

-- ---------------------------------------------------------------------------
-- The paths of a cache
-- ---------------------------------------------------------------------------

/-- The names of a folder below the directory with all files. Only an empty key has none. -/
def shelf (key : Digest) : List Text := [key.hex.take 2].filter (· != [])

theorem plain_shelf (key : Digest) : ∀ n ∈ shelf key, Plain n := by
  intro n hn
  obtain ⟨hn, hne⟩ := List.mem_filter.mp hn
  rw [List.mem_singleton.mp hn] at hne ⊢
  have hslash : slash ∉ key.hex.take 2 := fun h =>
    Text.slash_not_mem_hex key (List.mem_of_mem_take h)
  have hdot : 0x2E ∉ key.hex.take 2 := fun h =>
    Text.not_mem_hex (by decide) key (List.mem_of_mem_take h)
  refine ⟨⟨bne_iff_ne.mp hne, hslash, fun h => hdot ?_⟩, fun h => hdot ?_⟩
  · rw [h]
    decide
  · rw [h]
    decide

def trail (key : Digest) : List Text := Text.ofString "expand" :: shelf key

theorem plain_trail (key : Digest) : ∀ n ∈ trail key, Plain n :=
  List.forall_mem_cons.mpr ⟨by decide, plain_shelf key⟩

theorem plain_names (key : Digest) : ∀ n ∈ trail key ++ [fileNameOf key], Plain n :=
  List.forall_mem_append.mpr ⟨plain_trail key, by simpa using plain_fileNameOf key⟩

theorem folder_names (c : DiskCache) (key : Digest) :
    parts (c.folder key) = parts (clean c.dir) ++ trail key ∧
      isAbsolute (c.folder key) = isAbsolute (clean c.dir) := by
  have hfolder : c.folder key = join (c.dir :: Text.ofString "expand" :: shelf key) := by
    have hkept : [c.dir, Text.ofString "expand", key.hex.take 2].filter (· != []) =
        (c.dir :: Text.ofString "expand" :: shelf key).filter (· != []) := by
      change ([c.dir, Text.ofString "expand"] ++ [key.hex.take 2]).filter _ =
        ([c.dir, Text.ofString "expand"] ++ [key.hex.take 2].filter _).filter _
      rw [List.filter_append, List.filter_append, List.filter_filter]
      simp only [Bool.and_self]
    rw [folder, join, join, hkept]
  rw [hfolder]
  exact join_plain c.dir (List.cons_ne_nil _ _) (plain_trail key)

theorem file_names (c : DiskCache) (key : Digest) :
    parts (c.file key) = parts (clean c.dir) ++ (trail key ++ [fileNameOf key]) ∧
      isAbsolute (c.file key) = isAbsolute (clean c.dir) := by
  have hclean : clean (c.folder key) = c.folder key := clean_join (c.folder_ne_nil key)
  obtain ⟨hparts, habs⟩ := join_plain_name (c.folder key) (plain_fileNameOf key)
  rw [hclean, (c.folder_names key).1, List.append_assoc] at hparts
  rw [hclean, (c.folder_names key).2] at habs
  exact ⟨hparts, habs⟩

structure Home (c : DiskCache) (tree : FileTree) (hs : List Text) : Prop where
  plain : ∀ n ∈ hs, Plain n
  dir : tree.resolve c.dir = rooted hs
  target : ∀ key, c.target tree key = rooted (hs ++ (trail key ++ [fileNameOf key]))
  folder : ∀ key, ∀ p ∈ tree.places (c.folder key), p ∈ tree.places (clean c.dir) ∨
    ∃ front, front <+: trail key ∧ p = rooted (hs ++ front)

theorem home (ht : tree.Settled) (c : DiskCache) : ∃ hs, c.Home tree hs := by
  have hlast := last_mem_placesFrom (tree.start (clean c.dir)) (parts (clean c.dir))
  obtain ⟨hs, hdir, hplain⟩ := ht.places_rooted (clean c.dir) _ hlast
  refine ⟨hs, hplain, ?_, fun key => ?_, fun key p hp => ?_⟩
  · rw [← (ht.clean_way c.dir).1, ht.resolve_parts, hdir]
  · obtain ⟨hparts, habs⟩ := c.file_names key
    rw [target, ht.resolve_parts, hparts, List.foldl_append, start, habs, ← start, hdir,
      foldl_onward_plain hplain (plain_names key)]
  · obtain ⟨hparts, habs⟩ := c.folder_names key
    rw [FileTree.places, hparts, placesFrom_append, start, habs, ← start, hdir] at hp
    exact hp.imp_right fun hp => mem_placesFrom_plain hplain (plain_trail key) hp

theorem Home.plain_folder (h : c.Home tree hs) (key : Digest) : ∀ n ∈ hs ++ trail key, Plain n :=
  List.forall_mem_append.mpr ⟨h.plain, plain_trail key⟩

theorem Home.plain_target (h : c.Home tree hs) (key : Digest) :
    ∀ n ∈ hs ++ (trail key ++ [fileNameOf key]), Plain n :=
  List.forall_mem_append.mpr ⟨h.plain, plain_names key⟩

-- ---------------------------------------------------------------------------
-- Sparing the entries
-- ---------------------------------------------------------------------------

def entries (c : DiskCache) (tree : FileTree) : Text :=
  tree.resolve (join [c.dir, "expand"])

/-- The path leads neither to the entries nor through them. -/
def Spares (c : DiskCache) (tree : FileTree) (path : Text) : Prop :=
  ∀ p ∈ tree.places path, p ≠ c.entries tree ∧ isBelow (c.entries tree) p = false

instance (c : DiskCache) (tree : FileTree) (path : Text) : Decidable (c.Spares tree path) := by
  unfold Spares
  infer_instance

/-- The way to the cache is there, and does not lead through the entries. -/
structure Placed (c : DiskCache) (tree : FileTree) : Prop where
  settled : tree.Settled
  there : ∀ p ∈ tree.places (clean c.dir), tree.entryAt? p = some .directory
  spares : c.Spares tree (clean c.dir)

/-- Paths are read alike, and nothing has changed but at the entries or below them. -/
structure Aside (c : DiskCache) (tree tree' : FileTree) : Prop where
  workingDirectory : tree'.workingDirectory = tree.workingDirectory
  entryAt : ∀ ps, (∀ n ∈ ps, Plain n) → rooted ps ≠ c.entries tree →
    isBelow (c.entries tree) (rooted ps) = false →
      tree'.entryAt? (rooted ps) = tree.entryAt? (rooted ps)

theorem Aside.refl (c : DiskCache) (tree : FileTree) : c.Aside tree tree :=
  ⟨rfl, fun _ _ _ _ => rfl⟩

theorem Aside.settled (h : c.Aside tree tree') (ht : tree.Settled) : tree'.Settled := by
  rw [FileTree.Settled, h.workingDirectory]
  exact ht

theorem Aside.places (h : c.Aside tree tree') (path : Text) :
    tree'.places path = tree.places path := by
  rw [FileTree.places, FileTree.places, start, start, h.workingDirectory]

theorem Aside.entries (h : c.Aside tree tree') : c.entries tree' = c.entries tree :=
  resolve_congr h.workingDirectory _

theorem Aside.spares (h : c.Aside tree tree') : c.Spares tree' path ↔ c.Spares tree path := by
  rw [Spares, Spares, h.places, h.entries]

theorem Aside.trans {tree₁ tree₂ tree₃ : FileTree} (h : c.Aside tree₁ tree₂)
    (h' : c.Aside tree₂ tree₃) : c.Aside tree₁ tree₃ := by
  refine ⟨h'.workingDirectory.trans h.workingDirectory, fun ps hps hne hbelow => ?_⟩
  rw [h'.entryAt ps hps (h.entries ▸ hne) (h.entries ▸ hbelow), h.entryAt ps hps hne hbelow]

theorem Aside.along (h : c.Aside tree tree') (ht : tree.Settled) (hpath : c.Spares tree path) :
    ∀ p ∈ tree.places path, tree'.entryAt? p = tree.entryAt? p := by
  intro p hp
  obtain ⟨names, rfl, hnames⟩ := ht.places_rooted path p hp
  exact h.entryAt names hnames (hpath _ hp).1 (hpath _ hp).2

theorem Aside.read (h : c.Aside tree tree') (ht : tree.Settled) (hpath : c.Spares tree path) :
    tree'.read path = tree.read path :=
  read_congr ht h.workingDirectory (h.along ht hpath)

theorem Aside.placed (h : c.Aside tree tree') (hc : c.Placed tree) : c.Placed tree' where
  settled := h.settled hc.settled
  there p hp := by
    rw [h.places] at hp
    rw [h.along hc.settled hc.spares p hp, hc.there p hp]
  spares := h.spares.mpr hc.spares

-- ---------------------------------------------------------------------------
-- Putting an answer
-- ---------------------------------------------------------------------------

theorem Placed.names (h : c.Placed tree) : ∃ hs, c.Home tree hs ∧
    c.entries tree = rooted (hs ++ [Text.ofString "expand"]) ∧
    tree.entryAt? (rooted hs) = some .directory := by
  obtain ⟨hs, hhome⟩ := home h.settled c
  have hlast := last_mem_placesFrom (tree.start (clean c.dir)) (parts (clean c.dir))
  have hdir : (parts (clean c.dir)).foldl onward (tree.start (clean c.dir)) = rooted hs := by
    rw [← h.settled.resolve_parts, (h.settled.clean_way c.dir).1, hhome.dir]
  have hexpand : Plain (Text.ofString "expand") := by decide
  refine ⟨hs, hhome, ?_, hdir ▸ h.there _ hlast⟩
  obtain ⟨hparts, habs⟩ := join_plain_name c.dir hexpand
  rw [entries, h.settled.resolve_parts, hparts, start, habs, ← start, List.foldl_append, hdir,
    List.foldl_cons, List.foldl_nil, onward_plain hhome.plain hexpand]

theorem Aside.of_set {qs : List Text} (h : c.Placed tree) (hhome : c.Home tree hs)
    (hqs : ∀ n ∈ qs, Plain n) (hunder : hs ++ [Text.ofString "expand"] <+: qs) (entry : FileEntry) :
    c.Aside tree (tree.set (rooted qs) entry) := by
  obtain ⟨hs', hhome', hentries, hdir⟩ := h.names
  obtain rfl := rooted_inj hhome'.plain hhome.plain (hhome'.dir.symm.trans hhome.dir)
  have hplain : ∀ n ∈ hs' ++ [Text.ofString "expand"], Plain n :=
    fun n hn => hqs n (hunder.subset hn)
  refine ⟨rfl, fun ps hps hne hbelow => ?_⟩
  refine entryAt?_set hplain hqs hps (by simp [hdir]) hunder (fun haside => ?_) entry
  by_cases heq : ps = hs' ++ [Text.ofString "expand"]
  · exact hne (heq ▸ hentries.symm)
  · rw [hentries] at hbelow
    exact absurd ((isBelow_rooted hplain hps).mpr ⟨haside, Ne.symm heq⟩) (by simp [hbelow])

theorem makeDirectory_aside (h : c.Placed tree) {station : Text} (habs : isAbsolute station =
    isAbsolute (c.folder key)) (hparts : parts station <+: parts (c.folder key))
    (hmake : tree.makeDirectory station = .ok tree') : c.Aside tree tree' := by
  obtain ⟨hs, hhome, -, hdir⟩ := h.names
  simp only [makeDirectory, bind, Except.bind, pure, Except.pure, throw, throwThe,
    MonadExceptOf.throw] at hmake
  split at hmake
  · cases hmake
  · rename_i target hfollow
    split at hmake
    · cases hmake
      exact .refl c tree
    · cases hmake
    · rename_i hnone
      cases hmake
      -- the target lies on the way to the folder, and beyond the directory of the cache
      have htarget : target ∈ tree.places (c.folder key) := by
        refine places_station habs hparts ((h.settled.mem_places (filter_names station)).mpr ?_)
        rw [follow_ok hfollow]
        exact last_mem_placesFrom _ _
      rcases hhome.folder key target htarget with htarget | ⟨front, hfront, rfl⟩
      · cases hnone.symm.trans (h.there target htarget)
      · cases front with
        | nil =>
          rw [List.append_nil, hdir] at hnone
          cases hnone
        | cons n front =>
          obtain ⟨rfl, -⟩ := List.cons_prefix_cons.mp hfront
          refine Aside.of_set h hhome ?_ ⟨front, by simp⟩ _
          exact List.forall_mem_append.mpr
            ⟨hhome.plain, fun m hm => plain_trail key m (hfront.subset hm)⟩

theorem ensure_aside (h : c.Placed tree) {station : Text} (habs : isAbsolute station =
    isAbsolute (c.folder key)) (hparts : parts station <+: parts (c.folder key))
    (hensure : tree.ensure station = .ok tree') : c.Aside tree tree' := by
  unfold ensure at hensure
  split at hensure
  · cases hensure
    exact .refl c tree
  · cases hensure
  · exact makeDirectory_aside h habs hparts hensure

theorem makeDirectories_aside (h : c.Placed tree)
    (hmake : tree.makeDirectories (c.folder key) = .ok tree') : c.Aside tree tree' := by
  refine foldlM_keeps (P := c.Aside tree) hmake (.refl c tree)
    fun dir hdir next last hnext hstep => ?_
  obtain ⟨habs, hparts⟩ := stations_along hdir
  exact hnext.trans (ensure_aside (hnext.placed h) habs hparts hstep)

theorem put_aside (h : c.Placed tree) {r : Gen2.Result} (hput : c.put tree key r = .ok tree') :
    c.Aside tree tree' := by
  obtain ⟨made, hmade, rfl⟩ := put_eq_ok hput
  have hmake := makeDirectories_aside h hmade
  have hplaced := hmake.placed h
  obtain ⟨hs, hhome⟩ := home hplaced.settled c
  rw [overwrite, hhome.target]
  exact hmake.trans (.of_set hplaced hhome (hhome.plain_target key) ⟨_, by simp [trail]; rfl⟩ _)

end DiskCache

end MacroRelay
