import MacroRelay.Proofs.Cache.Entries
import MacroRelay.Proofs.Session.Recall

/-!
# Repairing a disk cache

A damaged file answers nothing, so the next request for its key goes to the server, and the answer
is written over the file.
-/

namespace MacroRelay

open DiskCache MacroRelay.Path

namespace Workspace

variable {σ κ : Type} {call : Caller σ κ} {w w' : Workspace σ κ} {client : κ} {g : Generation}
  {e : Expansion} {answer : Option Gen2.Result} {c : DiskCache} {content : Text}

theorem Way.repairs (hway : Way call w g e w' answer) (hclient : w.cell.load.client? = some client)
    (hmemo : (w.session.lookUp (w.digest g e)).2 = none) (hdisk : w.session.disk = some c)
    (hready : c.Ready w.files) (hkey : FileTree.Takes (c.file (w.digest g e)))
    (hfile : w.files.file? (c.target w.files (w.digest g e)) = some content)
    (hdamaged : Damaged content) :
    answer = served? call w.remote client g e ∧ Sent call client g e w w' ∧
      ∀ r, answer = some r → c.get w'.files (w.digest g e) = .ok (some r.returned) := by
  have hnothing : w.onDisk? (w.digest g e) = none := by
    have hread := hdamaged.reading (w.digest g e)
    rw [onDisk?, hdisk, Option.bind_some, hready.get hkey, hfile]
    cases hfound : reading (w.digest g e) (some content) with
    | error fault => rfl
    | ok found =>
      cases found with
      | none => rfl
      | some r => exact absurd hfound (hread r)
  obtain ⟨hsent, hanswer, hfiles⟩ := hway.of_missed hclient ⟨hmemo, hnothing⟩
  refine ⟨hanswer, hsent, fun r hr => ?_⟩
  obtain ⟨tree', hput⟩ := hready.put hkey hfile r
  obtain ⟨hready', hwritten⟩ := put_ready hready hput
  have hshelved : w.shelved (w.digest g e) r = tree' := by
    simp [Workspace.shelved, hdisk, hput, Except.toOption]
  rw [hfiles r hr, hshelved, hready'.get hkey, hwritten, if_pos rfl]
  exact reading_write (served_fits (hanswer.symm.trans hr)) _

end Workspace

namespace DiskCache

variable {tree₀ tree tree' : FileTree} {dir : Text} {c : DiskCache} {steps : List Step}
  {key : Digest}

/-- However a cache was used since it was opened, it holds under every key what was put last. A file
that is cut off is read as an error and one with another layout as missing. Either way the next
request for its key is sent, and its answer is held again. -/
theorem holds_latest_put (ht : tree₀.Settled) (hopen : openAt tree₀ dir = .ok (tree, c))
    (hempty : c.Empty tree) (hfits : ∀ k r, .put k r ∈ steps → r.Fits)
    (hsteps : c.applyAll tree steps = .ok tree') (hkey : FileTree.Takes (c.file key)) :
    (∃ found, c.get tree' key = .ok found ∧
      Option.Rel Gen2.Result.Alike found (latest? key steps)) ∧
    (∀ other r tree'', other ≠ key → c.put tree' other r = .ok tree'' →
      c.get tree'' key = c.get tree' key) ∧
    (∀ payload content, Payload payload → content <+: payload → content ≠ payload →
      c.get (c.overwrite tree' key content) key = .error (.unreadable key)) ∧
    (∀ content entry, DiskEntry.codec.decode? content = some entry → entry.layout ≠ layout →
      c.get (c.overwrite tree' key content) key = .ok none) ∧
    ∀ {σ κ : Type} (call : Caller σ κ) (w : Workspace σ κ) (client : κ) (g : Generation)
      (e : Expansion) (content : Text), Damaged content →
      w.files = c.overwrite tree' key content → w.session.disk = some c →
      w.cell.load.client? = some client → w.digest g e = key →
      (w.session.lookUp key).2 = none →
      let w' := (w.expand call g e).1
      let answer := (w.expand call g e).2
      answer = Workspace.served? call w.remote client g e ∧
      Workspace.Sent call client g e w w' ∧
      ∀ r, answer = some r → ∃ found, c.get w'.files key = .ok (some found) ∧ found.Alike r := by
  obtain ⟨hready, hfile⟩ := latest_ready ht hopen hempty hsteps key
  have hover (content : Text) :
      c.get (c.overwrite tree' key content) key = reading key (some content) := by
    rw [(hready.overwrite key content).get hkey, target_overwrite,
      file?_overwrite hready.settled, if_pos rfl]
  refine ⟨?_, ?_, ?_, ?_, ?_⟩
  · rw [hready.get hkey, hfile]
    cases hlatest : latest? key steps with
    | none => exact ⟨none, rfl, .none⟩
    | some r =>
      have hr : r.Fits := by
        rcases mem_of_latest hlatest with hnone | hput
        · cases hnone
        · exact hfits key r hput
      exact ⟨some r.returned, reading_write hr key, .some r.returned_alike⟩
  · intro other r tree'' hne hput
    obtain ⟨hready'', hwritten⟩ := put_ready hready hput
    rw [hready''.get hkey, hready.get hkey, hwritten, if_neg (Ne.symm hne)]
  · intro payload content hpayload hinit hne
    rw [hover, reading_cut hpayload hinit hne]
  · intro content entry hentry hlayout
    rw [hover, reading_foreign hentry hlayout]
  · intro σ κ call w client g e content hdamaged hfiles hdisk hclient hdigest hmemo
    subst hdigest
    have hready' : c.Ready w.files := by
      rw [hfiles]
      exact hready.overwrite _ content
    have hcontent : w.files.file? (c.target w.files (w.digest g e)) = some content := by
      rw [hfiles, target_overwrite, file?_overwrite hready.settled, if_pos rfl]
    obtain ⟨hanswer, hsent, hget⟩ := (Workspace.expand_way call w g e).repairs hclient hmemo hdisk
      hready' hkey hcontent hdamaged
    exact ⟨hanswer, hsent, fun r hr => ⟨_, hget r hr, r.returned_alike⟩⟩

/-- The tree of a cache that was opened at the top of an empty tree. -/
def shelves : FileTree := ⟨"/", [("/c", .directory), ("/", .directory)]⟩

theorem empty_shelves : (⟨"/c"⟩ : DiskCache).Empty shelves := by
  have ht : shelves.Settled := by decide
  obtain ⟨hs, hhome⟩ := home ht ⟨"/c"⟩
  have hdir : rooted hs = rooted [Text.ofString "c"] := hhome.dir.symm
  obtain rfl := rooted_inj hhome.plain (by decide) hdir
  refine empty_of_directories fun entry hentry => ?_
  rcases List.mem_cons.mp hentry with rfl | hentry
  · exact ⟨rfl, fun key => hhome.beside key (List.prefix_append _ (trail key))⟩
  · cases List.mem_singleton.mp hentry
    refine ⟨rfl, fun key => ?_⟩
    have hroot : [] <+: [Text.ofString "c"] ++ trail key := List.nil_prefix
    exact hhome.beside key hroot

theorem applyAll_shelves : ∃ tree',
    (⟨"/c"⟩ : DiskCache).applyAll shelves [.put [2] {}, .clear, .put [1] {}] = .ok tree' :=
  ⟨_, rfl⟩

/-- After an answer was put, the cache cleared and another put, the other is read. Where the file of
a request is empty, the answer comes from the server and is read afterwards. -/
theorem holds_latest_put_cleared :
    let c : DiskCache := ⟨"/c"⟩
    let d := Query.digest ⟨.second, Workspace.expandTwice, "f"⟩
    ∃ tree', c.applyAll shelves [.put [2] {}, .clear, .put [1] {}] = .ok tree' ∧
      (∃ found, c.get tree' [1] = .ok (some found) ∧ found.Alike {}) ∧
      let w : Workspace Nat Unit :=
        { Workspace.opened 1 () (c.overwrite tree' d []) "f" 0 with
          session := Session.ofOptions 1 (some c) }
      ∃ r found, (w.expand Workspace.steady .second Workspace.expandTwice).2 = some r ∧
        c.get (w.expand Workspace.steady .second Workspace.expandTwice).1.files d =
          .ok (some found) ∧ found.Alike r := by
  intro c d
  have hkey : Query.digest ⟨.second, Workspace.expandTwice, "f"⟩ = d := rfl
  have hlength : d.length = 32 := Sha256.length_hash _
  clear_value d
  have ht : (FileTree.empty "/").Settled := by decide
  have hopen : openAt (FileTree.empty "/") "/c" = .ok (shelves, c) := rfl
  have hnone : ({} : Gen2.Result).Fits :=
    ⟨⟨by decide, by decide, by decide, by decide, by decide⟩, by decide, by decide, by decide⟩
  have hfits : ∀ k r, Step.put k r ∈ [Step.put [2] {}, .clear, .put [1] {}] → r.Fits := by
    intro k r hput
    simp only [List.mem_cons, Step.put.injEq, reduceCtorEq, List.not_mem_nil, or_false, false_or]
      at hput
    rcases hput with ⟨-, rfl⟩ | ⟨-, rfl⟩ <;> exact hnone
  obtain ⟨tree', hsteps⟩ := applyAll_shelves
  have hone : FileTree.Takes (c.file [1]) := ⟨by decide, by decide, by decide, by decide⟩
  have hdigest : FileTree.Takes (c.file d) := by
    have hdir : c = ⟨rooted [Text.ofString "c"]⟩ := by decide
    have hplain : ∀ n ∈ [Text.ofString "c"], Plain n := by decide
    rw [hdir]
    exact takes_file hplain (by decide) (by decide) (by decide) hlength
  obtain ⟨⟨found, hget, hfound⟩, -⟩ := holds_latest_put ht hopen empty_shelves hfits hsteps hone
  obtain ⟨-, -, -, -, hrepair⟩ := holds_latest_put ht hopen empty_shelves hfits hsteps hdigest
  refine ⟨tree', hsteps, ?_, ?_⟩
  · have hlatest : latest? [1] [.put [2] {}, .clear, .put [1] {}] = some {} := rfl
    rw [hlatest] at hfound
    cases hfound with
    | some halike => exact ⟨_, hget, halike⟩
  · intro w
    have hdamaged : Damaged [] := .cut (payload_write hnone) List.nil_prefix (by decide)
    obtain ⟨hanswer, -, hread⟩ := hrepair Workspace.steady w () .second Workspace.expandTwice []
      hdamaged rfl rfl rfl hkey rfl
    obtain ⟨r, hr⟩ := Option.isSome_iff_exists.mp
      (Workspace.steady_neverFails w.remote .second Workspace.expandTwice)
    obtain ⟨found, hfiles, halike⟩ := hread r (hanswer.trans hr)
    exact ⟨r, found, hanswer.trans hr, hfiles, halike⟩

end DiskCache

end MacroRelay
