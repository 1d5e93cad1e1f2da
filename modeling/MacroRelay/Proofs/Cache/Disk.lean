import MacroRelay.Cache.Disk
import MacroRelay.Proofs.Lists
import MacroRelay.Proofs.Source.FileTree
import MacroRelay.Proofs.Wire.Messages

/-!
# What a disk cache holds

`DiskCache.stored?` is the answer in the file of a key. A key has a file of its own, so an
answer that is put changes what is stored for its own key and for no other. What is stored is
the answer as its written form tells it.
-/

namespace MacroRelay

-- ---------------------------------------------------------------------------
-- Names of files
-- ---------------------------------------------------------------------------

theorem Text.hexDigit_inj : ∀ n < 16, ∀ m < 16, hexDigit n = hexDigit m → n = m := by decide

theorem Text.hexByte_inj {a b : UInt8} (h : hexByte a = hexByte b) : a = b := by
  have ha := a.toNat_lt
  have hb := b.toNat_lt
  simp only [hexByte, List.cons.injEq, and_true] at h
  have hhigh := hexDigit_inj _ (by omega) _ (by omega) h.1
  have hlow := hexDigit_inj _ (Nat.mod_lt _ (by decide)) _ (Nat.mod_lt _ (by decide)) h.2
  exact UInt8.toNat_inj.mp (by omega)

theorem Text.hex_inj {s t : Text} (h : hex s = hex t) : s = t := by
  induction s generalizing t with
  | nil =>
    cases t with
    | nil => rfl
    | cons b t => cases h
  | cons a s ih =>
    cases t with
    | nil => cases h
    | cons b t =>
      have happend : hexByte a ++ hex s = hexByte b ++ hex t := h
      obtain ⟨hbyte, hrest⟩ := List.append_inj happend rfl
      rw [hexByte_inj hbyte, ih hrest]

theorem Text.not_mem_hex {b : UInt8} (h : ∀ n < 16, hexDigit n ≠ b) (t : Text) : b ∉ hex t := by
  intro hb
  obtain ⟨c, -, hb⟩ := List.mem_flatMap.mp hb
  have hlt := c.toNat_lt
  simp only [hexByte, List.mem_cons, List.not_mem_nil, or_false] at hb
  rcases hb with hb | hb
  · exact h _ (by omega) hb.symm
  · exact h _ (Nat.mod_lt _ (by decide)) hb.symm

theorem Text.slash_not_mem_hex (t : Text) : Path.slash ∉ hex t :=
  not_mem_hex (by decide) t

theorem DiskEntry.codec_returns {r : Gen2.Result} (h : r.Fits) :
    DiskEntry.codec.Returns ⟨DiskCache.layout, r⟩ ⟨DiskCache.layout, r.returned⟩ :=
  Codec.record_returns (by decide)
    (.of (Codec.word16_returns DiskCache.layout) (.of (Gen2.Result.codec_returns h) .nil))

namespace DiskCache

open MacroRelay.Path

def fileNameOf (key : Digest) : Text := key.hex ++ ".mp"

theorem plain_fileNameOf (key : Digest) : Plain (fileNameOf key) := by
  have hlength : 3 ≤ (fileNameOf key).length := by
    rw [fileNameOf, List.length_append]
    exact Nat.le_add_left 3 _
  refine ⟨⟨?_, ?_, ?_⟩, ?_⟩
  · exact List.ne_nil_of_length_pos (by omega)
  · intro h
    rcases List.mem_append.mp h with h | h
    · exact Text.slash_not_mem_hex key h
    · exact absurd h (by decide)
  · intro h
    rw [h] at hlength
    exact absurd hlength (by decide)
  · intro h
    rw [h] at hlength
    exact absurd hlength (by decide)

theorem folder_ne_nil (c : DiskCache) (key : Digest) : c.folder key ≠ [] :=
  join_ne_nil (e := Text.ofString "expand") (by simp) (by decide)

theorem fileName_resolve {tree : FileTree} (ht : tree.Settled) (c : DiskCache) (key : Digest) :
    fileName (tree.resolve (c.file key)) = fileNameOf key := by
  obtain ⟨ws, hws, hplain⟩ := ht.names
  have hparts : parts (c.file key) = parts (clean (c.folder key)) ++ [fileNameOf key] :=
    (join_plain_name (c.folder key) (plain_fileNameOf key)).1
  rw [FileTree.resolve_eq hws hplain, hparts, List.foldl_append, List.foldl_cons, List.foldl_nil,
    keep_plain (plain_fileNameOf key), List.reverse_cons,
    fileName_rooted (plain_fileNameOf key).1.2.1]

theorem resolve_file_inj {tree : FileTree} (ht : tree.Settled) {c : DiskCache} {key other : Digest}
    (h : tree.resolve (c.file key) = tree.resolve (c.file other)) : key = other := by
  have hname : fileNameOf key = fileNameOf other := by
    rw [← fileName_resolve ht c key, h, fileName_resolve ht c other]
  exact Text.hex_inj (List.append_cancel_right hname)

-- ---------------------------------------------------------------------------
-- The file of a key
-- ---------------------------------------------------------------------------

section
variable {c : DiskCache} {tree tree' : FileTree} {key other : Digest} {content : Text}
  {r : Gen2.Result}

def target (c : DiskCache) (tree : FileTree) (key : Digest) : Text := tree.resolve (c.file key)

theorem target_congr (h : tree'.workingDirectory = tree.workingDirectory) (key : Digest) :
    c.target tree' key = c.target tree key := FileTree.resolve_congr h _

def overwrite (c : DiskCache) (tree : FileTree) (key : Digest) (content : Text) : FileTree :=
  tree.set (c.target tree key) (.file content)

@[simp] theorem target_overwrite :
    c.target (c.overwrite tree key content) other = c.target tree other := rfl

theorem file?_overwrite (ht : tree.Settled) (key other : Digest) (content : Text) :
    (c.overwrite tree key content).file? (c.target tree other) =
      if other = key then some content else tree.file? (c.target tree other) := by
  rw [overwrite, FileTree.file?_set]
  by_cases heq : other = key
  · rw [if_pos (congrArg _ heq), if_pos heq]
  · rw [if_neg heq]
    exact if_neg fun hsame => heq (resolve_file_inj ht hsame)

def written (r : Gen2.Result) : Text := DiskEntry.codec.write ⟨layout, r⟩

theorem put_eq_ok (h : c.put tree key r = .ok tree') :
    ∃ made, tree.makeDirectories (c.folder key) = .ok made ∧
      tree' = c.overwrite made key (written r) := by
  unfold put at h
  split at h
  · cases h
  · rename_i made hmade
    exact ⟨made, hmade, (Except.ok.inj h).symm⟩

end

-- ---------------------------------------------------------------------------
-- Stored answers
-- ---------------------------------------------------------------------------

def answerIn? (content : Text) : Option Gen2.Result :=
  match DiskEntry.codec.decode? content with
  | some entry => if entry.layout = layout then some entry.result else none
  | none => none

def stored? (c : DiskCache) (tree : FileTree) (key : Digest) : Option Gen2.Result :=
  (tree.file? (tree.resolve (c.file key))).bind answerIn?

theorem answerIn_write {r : Gen2.Result} (h : r.Fits) :
    answerIn? (written r) = some r.returned := by
  simp [answerIn?, written, (DiskEntry.codec_returns h).decode]

theorem stored_of_get {c : DiskCache} {tree : FileTree} (ht : tree.Settled) {key : Digest}
    {r : Gen2.Result} (h : c.get tree key = .ok (some r)) : c.stored? tree key = some r := by
  simp only [get] at h
  split at h
  · cases h
  · split at h <;> cases h
  · rename_i content hread
    rw [stored?, FileTree.read_ok ht hread, Option.bind_some, answerIn?]
    split at h
    · cases h
    · rename_i entry hentry
      rw [hentry]
      exact Except.ok.inj h

theorem stored_congr {c : DiskCache} {tree tree' : FileTree} (h : tree.SameFiles tree')
    (key : Digest) : c.stored? tree' key = c.stored? tree key := by
  rw [stored?, stored?, FileTree.resolve_congr h.workingDirectory, h.files]

theorem put_ok {c : DiskCache} {tree tree' : FileTree} (ht : tree.Settled) {key : Digest}
    {r : Gen2.Result} (hr : r.Fits) (h : c.put tree key r = .ok tree') :
    tree'.workingDirectory = tree.workingDirectory ∧
      ∀ other, c.stored? tree' other =
        if other = key then some r.returned else c.stored? tree other := by
  obtain ⟨made, hmade, rfl⟩ := put_eq_ok h
  have hsame := FileTree.makeDirectories_ok hmade
  refine ⟨hsame.workingDirectory, fun other => ?_⟩
  have hsettled : made.Settled := by
    rw [FileTree.Settled, hsame.workingDirectory]
    exact ht
  rw [stored?, ← target, target_overwrite, file?_overwrite hsettled]
  by_cases heq : other = key
  · rw [if_pos heq, if_pos heq, Option.bind_some, answerIn_write hr]
  · rw [if_neg heq, if_neg heq, ← stored_congr hsame]
    rfl

theorem stored_empty (c : DiskCache) (directory : Text) (key : Digest) :
    c.stored? (FileTree.empty directory) key = none := by
  have hfile (path : Text) : (FileTree.empty directory).file? path = none := by
    simp only [FileTree.file?, FileTree.empty, List.lookup_cons, List.lookup_nil]
    split
    · rename_i heq
      split at heq <;> cases heq
    · rfl
  rw [stored?, hfile, Option.bind_none]

theorem stored_none {tree : FileTree} (ht : tree.Settled)
    (h : ∀ entry ∈ tree.entries, ¬ Text.ofString ".mp" <:+ entry.1) (c : DiskCache) (key : Digest) :
    c.stored? tree key = none := by
  have hlookup : tree.entries.lookup (tree.resolve (c.file key)) = none := by
    refine Option.eq_none_iff_forall_ne_some.mpr fun entry hl => h _ (mem_of_lookup hl) ?_
    have hname : fileName (tree.resolve (c.file key)) <:+ tree.resolve (c.file key) := by
      rw [← List.reverse_prefix, fileName, List.reverse_reverse]
      exact List.takeWhile_prefix _
    rw [fileName_resolve ht] at hname
    exact (List.suffix_append ..).trans hname
  rw [stored?, FileTree.file?, hlookup, Option.bind_none]

theorem clear_ok {c : DiskCache} {tree tree' : FileTree} (h : c.clear tree = .ok tree') :
    tree'.workingDirectory = tree.workingDirectory ∧
      ∀ key r, c.stored? tree' key = some r → c.stored? tree key = some r := by
  simp only [clear] at h
  split at h
  · rename_i made hmade
    cases h
    have hsame := FileTree.makeDirectories_ok hmade
    refine ⟨hsame.workingDirectory, fun key r hr => ?_⟩
    rw [stored_congr hsame, stored?, FileTree.file?_removeAll] at hr
    split at hr
    · exact hr
    · cases hr
  · cases h

end DiskCache

end MacroRelay
