import MacroRelay.Proofs.Catalogue.WireForm
import MacroRelay.Proofs.Suite

/-!
# The suites of a catalogue

For every name in the catalogue there is one suite, and it has exactly what the last entry of that name
declares. Names that repeat, in one list or in several, make no difference.
-/

namespace MacroRelay

/-- The suite has what the package declares, and the package serves all of it. -/
structure Suite.Installs (suite : PackageSuite) (p : Package) : Prop where
  plugin : ∃ plugin, suite.plugins = [plugin] ∧ plugin.handler = p
  recognizes : ∀ name, suite.recognizes name ↔ name ∈ p.attributes.items ∨ name ∈ p.executables.items
  attributesOrdered : suite.declaredAttributes.Pairwise (· < ·)
  attributes : ∀ name, name ∈ suite.declaredAttributes ↔
    name ∈ p.attributes.items ∨ name ∈ p.executables.items
  derivesOrdered : suite.declaredDerives.Pairwise (· < ·)
  derives : ∀ name, name ∈ suite.declaredDerives ↔ name ∈ p.derives.items
  bound : ∀ name, suite.inline? name = if name ∈ p.inlineMacros.items then some p else none

namespace Package

variable {p : Package} {name : Text}

theorem inline?_installed :
    p.installed.inline? name = if name ∈ p.inlineMacros.items then some p else none := by
  rw [Suite.inline?, installed, bindings, lookup_map (fun name => name)]
  split
  · rename_i hname
    obtain ⟨found, hfound⟩ : ∃ found, (firsts p.inlineMacros.items).find? (· == name) = some found := by
      rw [← Option.isSome_iff_exists, List.find?_isSome]
      exact ⟨name, mem_firsts.mpr hname, beq_self_eq_true name⟩
    rw [hfound]
    rfl
  · rename_i hname
    rw [List.find?_eq_none.mpr, Option.map_none]
    intro other hother hequal
    exact hname (beq_iff_eq.mp hequal ▸ mem_firsts.mp hother)

theorem installs_installed (p : Package) : p.installed.Installs p where
  plugin := ⟨_, rfl, rfl⟩
  recognizes _ := recognizes_installed
  attributesOrdered := Text.distinct_pairwise _
  attributes _ := mem_declaredAttributes_installed
  derivesOrdered := Text.distinct_pairwise _
  derives _ := mem_declaredDerives_installed
  bound _ := inline?_installed

end Package

namespace Catalogue

open Gen2.PackageEntry

variable {entries : List Gen2.PackageEntry} {c : Catalogue} {name : Text}

theorem name_mem_iff (h : ofEntries entries = .ok c) :
    (∃ p ∈ c.packages, p.name = name) ↔ ∃ e ∈ entries, e.package = name := by
  have hform := normalForm_of_ofEntries h
  constructor
  · rintro ⟨p, hp, rfl⟩
    obtain ⟨last, hlast, heq⟩ := (hform.latest _).mp (List.mem_map_of_mem hp)
    exact ⟨last, hlast.mem, (congrArg Gen2.PackageEntry.package heq).symm⟩
  · rintro ⟨e, he, rfl⟩
    obtain ⟨last, hlast, heq⟩ := exists_latestIn he
    obtain ⟨p, hp, hentry⟩ := List.mem_map.mp ((hform.latest _).mpr ⟨last, hlast, rfl⟩)
    exact ⟨p, hp, (congrArg Gen2.PackageEntry.package hentry).trans heq⟩

/-- The suites of a catalogue can be built, one for each name, and each has what the last entry of its
name declares. Whatever is done to a suite, its inline names keep their plugins; and suites with different
inline names merge to their union. -/
theorem buildSuites_installs {σ κ π ι : Type} (h : ofEntries entries = .ok c) :
    (∀ w : Workspace σ κ, ∃ suites, (w.buildSuites c).2 = .ok suites ∧
      (suites.map (·.1)).Pairwise (· < ·) ∧
      (∀ name, name ∈ suites.map (·.1) ↔ ∃ e ∈ entries, e.package = name) ∧
      ∀ name suite, (name, suite) ∈ suites → ∃ (e : Gen2.PackageEntry) (p : Package),
        e.LatestIn entries ∧ e.package = name ∧ p.toEntry = e.settled ∧ suite.Installs p) ∧
    (∀ (s : Suite π ι) (changes : List (Suite.Change π ι)) name p,
      s.inline? name = some p → (s.changes changes).inline? name = some p) ∧
    (∀ changes : List (Suite.Change π ι), (Suite.changes {} changes).Unambiguous) ∧
    ∀ s other : Suite π ι, other.Unambiguous → s.Apart other →
      ∃ merged, s.merge other = (merged, none) ∧ s.IsUnion other merged := by
  refine ⟨fun w => ⟨_, c.suites_eq, ?_, fun name => ?_, fun name suite hsuite => ?_⟩, ?_, ?_, ?_⟩
  · rw [List.map_map, List.pairwise_map]
    exact inOrder_of_ofEntries h
  · rw [← name_mem_iff h, List.map_map, List.mem_map]
    rfl
  · obtain ⟨p, hp, hsuite⟩ := List.mem_map.mp hsuite
    obtain ⟨rfl, rfl⟩ := Prod.mk.inj hsuite
    obtain ⟨e, hlatest, hentry⟩ := ((normalForm_of_ofEntries h).latest _).mp (List.mem_map_of_mem hp)
    have hname := (congrArg Gen2.PackageEntry.package hentry).symm
    exact ⟨e, p, hlatest, hname, hentry, p.installs_installed⟩
  · exact fun s changes name p => s.keeps_changes changes name p
  · have hempty : Suite.Unambiguous ({} : Suite π ι) := List.nodup_nil
    exact hempty.changes
  · exact fun s other => Suite.isUnion_merge

def repeatingEntries : List Gen2.PackageEntry :=
  [{ package := "b", attributes := some ["run", "tool", "run"], derives := some ["Ser", "Ser"],
     inlineMacros := some ["x", "y", "x"], executables := some ["run"] },
    { package := "a", inlineMacros := some ["x"], protocol := 1 },
    { package := "a", inlineMacros := some ["z", "z"], executables := some ["run"] }]

def bindingX : Suite Unit Nat := { inline := [("x", 1)] }

def bindingY : Suite Unit Nat := { inline := [("y", 2)] }

theorem buildSuites_installs_repeating :
    ∃ (c : Catalogue) (suites : List (Text × PackageSuite)) (suite : PackageSuite) (p : Package)
      (merged : Suite Unit Nat),
      ofEntries repeatingEntries = .ok c ∧
      (Workspace.buildSuites (σ := Unit) (κ := Unit) { files := .empty "/", remote := () } c).2 =
        .ok suites ∧
      (Text.ofString "b", suite) ∈ suites ∧ suite.inline? "x" = some p ∧ suite.inline? "y" = some p ∧
      suite.inline? "z" = none ∧ suite.recognizes "run" ∧
      bindingX.merge bindingY = (merged, none) ∧ merged.inline? "x" = some 1 ∧
      merged.inline? "y" = some 2 ∧
      (merged.changes [.inline "x" 3, .suite bindingX]).inline? "x" = some 1 := by
  have hc : ofEntries repeatingEntries = .ok ((ofEntries repeatingEntries).toOption.getD ⟨[]⟩) := by
    decide +kernel
  obtain ⟨hsuites, hkeeps, -, hmerge⟩ :=
    buildSuites_installs (σ := Unit) (κ := Unit) (π := Unit) (ι := Nat) hc
  obtain ⟨suites, hok, -, hnames, hinstalls⟩ := hsuites { files := .empty "/", remote := () }
  obtain ⟨⟨-, suite⟩, hmem, rfl⟩ :=
    List.mem_map.mp ((hnames "b").mpr ⟨_, List.mem_cons_self, rfl⟩)
  obtain ⟨e, p, hlatest, hname, hentry, hsuite⟩ := hinstalls _ suite hmem
  have hinline : p.inlineMacros = some [Text.ofString "x", "y", "x"] ∧
      p.executables = some [Text.ofString "run"] := by
    have hlists := Gen2.PackageEntry.mk.inj hentry
    have he := hlatest.mem
    simp only [repeatingEntries, List.mem_cons, List.not_mem_nil, or_false] at he
    rcases he with rfl | rfl | rfl
    · exact ⟨hlists.2.2.2.1, hlists.2.2.2.2.1⟩
    · exact absurd hname (by decide)
    · exact absurd hname (by decide)
  have hapart : bindingX.Apart bindingY := by
    intro name
    by_cases hx : name = Text.ofString "x"
    · exact .inr (hx ▸ by decide)
    · exact .inl (Suite.inline?_eq_none.mpr (by simpa [bindingX] using hx))
  obtain ⟨merged, hmerged, hunion⟩ := hmerge bindingX bindingY (List.nodup_singleton _) hapart
  have hx : merged.inline? "x" = some 1 := (hunion.bound _ _).mpr (.inl (by decide))
  refine ⟨_, suites, suite, p, merged, hc, hok, hmem, ?_, ?_, ?_, ?_, hmerged, hx, ?_, ?_⟩
  · rw [hsuite.bound, hinline.1]
    rfl
  · rw [hsuite.bound, hinline.1]
    rfl
  · rw [hsuite.bound, hinline.1]
    rfl
  · exact (hsuite.recognizes _).mpr (.inr (hinline.2 ▸ List.mem_cons_self))
  · exact (hunion.bound _ _).mpr (.inr (by decide))
  · exact hkeeps merged _ _ _ hx

end Catalogue

end MacroRelay
