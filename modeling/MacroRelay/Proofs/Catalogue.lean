import MacroRelay.Proofs.Suite
import MacroRelay.Relay.Batch
import Mathlib.Data.List.Induction

/-!
# Packages and their suites

A catalogue has its packages in the order of names, and the suite that is installed for a package can
be written down: it declares what the package declares, and binds every inline name to it.
-/

namespace MacroRelay

namespace Package

variable {p : Package} {name : Text} {names : List Text}

theorem mem_foldl_firsts (names kept : List Text) :
    name ∈ names.foldl (fun kept name => if kept.contains name then kept else name :: kept) kept ↔
      name ∈ kept ∨ name ∈ names := by
  induction names generalizing kept with
  | nil => simp
  | cons first rest ih =>
    rw [List.foldl_cons, ih, List.mem_cons]
    split
    · rename_i hkept
      have hfirst : first ∈ kept := List.contains_iff_mem.mp hkept
      constructor
      · exact Or.imp_right .inr
      · rintro (h | rfl | h)
        · exact .inl h
        · exact .inl hfirst
        · exact .inr h
    · rw [List.mem_cons, or_assoc, or_left_comm]

theorem mem_firsts : name ∈ firsts names ↔ name ∈ names := by
  rw [firsts, List.mem_reverse, mem_foldl_firsts]
  simp

theorem firsts_concat (names : List Text) (name : Text) :
    firsts (names ++ [name]) = if name ∈ names then firsts names else firsts names ++ [name] := by
  have hkept := List.contains_iff_mem.trans (@mem_foldl_firsts name names [])
  rw [List.mem_nil_iff, false_or] at hkept
  rw [firsts, firsts, List.foldl_append, List.foldl_cons, List.foldl_nil]
  by_cases hname : name ∈ names
  · rw [if_pos hname, if_pos (hkept.mpr hname)]
  · rw [if_neg hname, if_neg (mt hkept.mp hname), List.reverse_cons]

theorem firsts_sublist (names : List Text) : (firsts names).Sublist names := by
  induction names using List.reverseRecOn with
  | nil => exact List.nil_sublist _
  | append_singleton names name ih =>
    rw [firsts_concat]
    split
    · exact ih.trans (List.sublist_append_left ..)
    · exact ih.append (List.Sublist.refl _)

def Declares (p : Package) (name : Text) : Prop :=
  name ∈ p.attributes.items ∨ name ∈ p.executables.items

theorem mem_declaredAttributes : name ∈ p.declaredAttributes ↔ p.Declares name := by
  rw [declaredAttributes, mem_firsts, List.mem_append, Declares]

theorem handlesAttribute_iff {a : Attribute} : p.handlesAttribute a ↔ p.Declares a.name :=
  List.contains_iff_mem.trans mem_declaredAttributes

-- ---------------------------------------------------------------------------
-- The suite of a package
-- ---------------------------------------------------------------------------

def bindings (p : Package) (names : List Text) : List (Text × Package) :=
  names.map fun name => (name, p)

def installed (p : Package) : PackageSuite where
  plugins := [⟨p.declaredAttributes, p.derives.items, p.executables.items, p⟩]
  inline := p.bindings (firsts p.inlineMacros.items)

theorem isSome_lookup_bindings : ((p.bindings names).lookup name).isSome ↔ name ∈ names := by
  rw [bindings, lookup_map (fun name => name), Option.isSome_map, List.find?_isSome]
  simp

theorem foldlM_bindInline (plugins : List (Plugin Package)) (names kept : List Text) :
    names.foldlM (fun (suite : PackageSuite) name =>
        if (suite.inline? name).isSome then .ok suite else suite.bindInline name p)
        ⟨plugins, p.bindings kept.reverse⟩ =
      .ok ⟨plugins, p.bindings (names.foldl (fun kept name =>
        if kept.contains name then kept else name :: kept) kept).reverse⟩ := by
  induction names generalizing kept with
  | nil => rfl
  | cons name rest ih =>
    have hbound : ((p.bindings kept.reverse).lookup name).isSome ↔ kept.contains name := by
      rw [isSome_lookup_bindings, List.mem_reverse, List.contains_iff_mem]
    rw [foldlM_cons_ok, List.foldl_cons]
    by_cases hkept : kept.contains name
    · exact ⟨_, if_pos (hbound.mpr hkept), by rw [if_pos hkept]; exact ih kept⟩
    · have hfree := mt hbound.mp hkept
      have hnext : p.bindings (name :: kept).reverse = p.bindings kept.reverse ++ [(name, p)] := by
        simp [bindings]
      refine ⟨⟨plugins, p.bindings (name :: kept).reverse⟩, ?_, by rw [if_neg hkept]; exact ih (name :: kept)⟩
      refine (if_neg hfree).trans ?_
      rw [Suite.bindInline, hnext]
      exact if_neg hfree

theorem suite_eq (p : Package) : p.suite = .ok p.installed :=
  foldlM_bindInline _ p.inlineMacros.items []

theorem mem_declaredAttributes_installed :
    name ∈ p.installed.declaredAttributes ↔ p.Declares name := by
  rw [Suite.mem_declaredAttributes, ← mem_declaredAttributes]
  simp [installed]

theorem recognizes_installed : p.installed.recognizes name ↔ p.Declares name :=
  Suite.recognizes_iff.trans mem_declaredAttributes_installed

theorem mem_declaredDerives_installed :
    name ∈ p.installed.declaredDerives ↔ name ∈ p.derives.items := by
  simp [Suite.mem_declaredDerives, installed]

end Package

namespace Catalogue

variable {entries : List Gen2.PackageEntry} {c : Catalogue} {packages : List Package} {p q : Package}

theorem mem_insert (h : q ∈ insert p packages) : q = p ∨ q ∈ packages := by
  induction packages with
  | nil => exact .inl (List.mem_singleton.mp h)
  | cons first rest ih =>
    rw [insert] at h
    split at h
    · exact (List.mem_cons.mp h).imp_right (List.mem_cons_of_mem first)
    · split at h
      · exact List.mem_cons.mp h
      · rcases List.mem_cons.mp h with rfl | h
        · exact .inr List.mem_cons_self
        · exact (ih h).imp_right (List.mem_cons_of_mem first)

def InOrder (packages : List Package) : Prop :=
  packages.Pairwise fun p q => p.name < q.name

theorem InOrder.insert (h : InOrder packages) (p : Package) : InOrder (insert p packages) := by
  induction packages with
  | nil => exact List.pairwise_singleton _ p
  | cons first rest ih =>
    obtain ⟨hfirst, hrest⟩ := List.pairwise_cons.mp h
    rw [Catalogue.insert]
    split
    · rename_i hsame
      exact .cons (fun q hq => hsame ▸ hfirst q hq) hrest
    · rename_i hother
      split
      · rename_i hbefore
        have hlt : p.name < first.name := Text.before_iff.mp hbefore
        refine .cons (fun q hq => ?_) h
        rcases List.mem_cons.mp hq with rfl | hq
        · exact hlt
        · exact List.lt_trans hlt (hfirst q hq)
      · rename_i hbefore
        have hlt : first.name < p.name := List.not_le.mp fun hle =>
          hother (List.le_antisymm hle (fun hlt => hbefore (Text.before_iff.mpr hlt)))
        refine .cons (fun q hq => ?_) (ih hrest)
        rcases mem_insert hq with rfl | hq
        · exact hlt
        · exact hfirst q hq

theorem inOrder_of_ofEntries (h : ofEntries entries = .ok c) : InOrder c.packages := by
  obtain ⟨packages, hrun, hpackages⟩ := bind_eq_ok.mp h
  cases hpackages
  refine foldlM_keeps (P := InOrder) hrun .nil fun e _ packages packages' hordered hstep => ?_
  obtain ⟨p, -, hinsert⟩ := bind_eq_ok.mp hstep
  cases hinsert
  exact hordered.insert p

theorem suites_eq (c : Catalogue) : c.suites = .ok (c.packages.map fun p => (p.name, p.installed)) := by
  unfold suites
  induction c.packages with
  | nil => rfl
  | cons p rest ih =>
    rw [List.mapM_cons, ih, Package.suite_eq]
    rfl

/-- All packages, or the one that is named. -/
def consulted (c : Catalogue) (filter : Text) : List Package :=
  if filter = [] then c.packages else (c.find? filter).toList

def Knows (c : Catalogue) (filter : Text) : Prop :=
  filter = [] ∨ (c.find? filter).isSome

theorem consulted_suites {filter : Text} (h : c.Knows filter) :
    Relay.consulted (c.packages.map fun p => (p.name, p.installed)) filter =
      .ok ((c.consulted filter).map Package.installed) := by
  unfold Relay.consulted consulted
  by_cases hfilter : filter = []
  · rw [if_pos hfilter, if_pos hfilter, List.map_map]
    rfl
  · obtain ⟨p, hp⟩ := Option.isSome_iff_exists.mp (h.resolve_left hfilter)
    rw [if_neg hfilter, if_neg hfilter, lookup_map Package.name, ← find?, hp]
    rfl

theorem chosen_eq {filter : Text} {suites : List (Text × PackageSuite)} {chosen : List PackageSuite}
    (h : c.Knows filter) (hsuites : c.suites = .ok suites)
    (hchosen : Relay.consulted suites filter = .ok chosen) :
    chosen = (c.consulted filter).map Package.installed := by
  obtain rfl := Except.ok.inj (c.suites_eq.symm.trans hsuites)
  exact Except.ok.inj (hchosen.symm.trans (consulted_suites h))

theorem consulted_suites_unknown {filter : Text} (h : ¬ c.Knows filter) :
    Relay.consulted (c.packages.map fun p => (p.name, p.installed)) filter =
      .error (.unknownPackage filter) := by
  obtain ⟨hfilter, hfind⟩ := not_or.mp h
  rw [Option.not_isSome_iff_eq_none] at hfind
  rw [Relay.consulted, if_neg hfilter, lookup_map Package.name, ← find?, hfind]
  rfl

theorem InOrder.consulted (h : InOrder c.packages) (filter : Text) : InOrder (c.consulted filter) := by
  unfold Catalogue.consulted
  split
  · exact h
  · cases c.find? filter with
    | none => exact .nil
    | some p => exact List.pairwise_singleton _ p

end Catalogue

end MacroRelay
