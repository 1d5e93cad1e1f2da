import MacroRelay.Proofs.Catalogue
import Mathlib.Data.List.Induction
import Mathlib.Data.List.Sort

/-!
# The list form of a catalogue

A list of packages comes to a catalogue exactly if every entry can stand in one. The catalogue written
as a list again has the last entry of each name, in the order of names, and no list with the same entries
for every name comes to anything else.
-/

namespace MacroRelay

namespace Gen2.PackageEntry

/-- It has a name, and its protocol is known or left out. -/
structure Admissible (e : PackageEntry) : Prop where
  named : e.package ≠ []
  protocol : e.protocol = 0 ∨ e.protocol = 1 ∨ e.protocol = 2

def settled (e : PackageEntry) : PackageEntry :=
  { e with protocol := if e.protocol = 0 then 2 else e.protocol }

def LatestIn (e : PackageEntry) (entries : List PackageEntry) : Prop :=
  ∃ front behind, entries = front ++ e :: behind ∧ ∀ other ∈ behind, other.package ≠ e.package

/-- Of each name the last entry, in the order of names. Only the protocol may have been filled in. -/
structure NormalForm (entries out : List PackageEntry) : Prop where
  ordered : out.Pairwise fun a b => a.package < b.package
  latest : ∀ e, e ∈ out ↔ ∃ last : PackageEntry, last.LatestIn entries ∧ e = last.settled

/-- For every name the same entries in the same order, as in a permutation that moves entries of
different names only. -/
def SameByName (entries entries' : List PackageEntry) : Prop :=
  ∀ name, entries.filter (·.package = name) = entries'.filter (·.package = name)

variable {e other : PackageEntry} {entries entries' out out' : List PackageEntry}

@[simp] theorem settled_package (e : PackageEntry) : e.settled.package = e.package := rfl

theorem settled_settled (e : PackageEntry) : e.settled.settled = e.settled := by
  by_cases h : e.protocol = 0 <;> simp [settled, h]

theorem Admissible.settled (h : e.Admissible) : e.settled.Admissible := by
  refine ⟨h.named, ?_⟩
  rcases h.protocol with h | h | h <;> simp [PackageEntry.settled, h]

theorem LatestIn.mem (h : e.LatestIn entries) : e ∈ entries := by
  obtain ⟨front, behind, rfl, -⟩ := h
  simp

theorem latestIn_concat :
    e.LatestIn (entries ++ [other]) ↔ e = other ∨ e.LatestIn entries ∧ e.package ≠ other.package := by
  constructor
  · rintro ⟨front, behind, h, hbehind⟩
    rcases List.eq_nil_or_concat behind with rfl | ⟨behind, last, rfl⟩
    · exact .inl (List.singleton_inj.mp (List.append_inj' h rfl).2).symm
    · rw [List.concat_eq_append, ← List.cons_append, ← List.append_assoc] at h
      obtain ⟨rfl, hlast⟩ := List.append_inj' h rfl
      obtain rfl := List.singleton_inj.mp hlast
      simp only [List.concat_eq_append, List.mem_append, List.mem_singleton] at hbehind
      exact .inr ⟨⟨front, behind, rfl, fun b hb => hbehind b (.inl hb)⟩, (hbehind _ (.inr rfl)).symm⟩
  · rintro (rfl | ⟨⟨front, behind, rfl, hbehind⟩, hother⟩)
    · exact ⟨entries, [], rfl, by simp⟩
    · refine ⟨front, behind ++ [other], by simp, fun b hb => ?_⟩
      rcases List.mem_append.mp hb with hb | hb
      · exact hbehind b hb
      · rw [List.mem_singleton.mp hb]
        exact hother.symm

theorem exists_latestIn (h : e ∈ entries) :
    ∃ last : PackageEntry, last.LatestIn entries ∧ last.package = e.package := by
  induction entries using List.reverseRecOn with
  | nil => cases h
  | append_singleton entries other ih =>
    by_cases hname : other.package = e.package
    · exact ⟨other, latestIn_concat.mpr (.inl rfl), hname⟩
    · have hmem : e ∈ entries := by
        rcases List.mem_append.mp h with h | h
        · exact h
        · exact absurd (List.mem_singleton.mp h ▸ rfl) hname
      obtain ⟨last, hlast, heq⟩ := ih hmem
      exact ⟨last, latestIn_concat.mpr (.inr ⟨hlast, heq ▸ Ne.symm hname⟩), heq⟩

theorem latestIn_iff_getLast? :
    e.LatestIn entries ↔ (entries.filter (·.package = e.package)).getLast? = some e := by
  induction entries using List.reverseRecOn with
  | nil => simp [LatestIn]
  | append_singleton entries other ih =>
    rw [latestIn_concat, List.filter_append, ih]
    by_cases h : other.package = e.package
    · simp [h, eq_comm]
    · have hne : e ≠ other := fun heq => h (heq ▸ rfl)
      simp [h, hne, Ne.symm h]

theorem SameByName.latestIn (h : SameByName entries entries') :
    e.LatestIn entries ↔ e.LatestIn entries' := by
  rw [latestIn_iff_getLast?, latestIn_iff_getLast?, h e.package]

theorem SameByName.mem_iff (h : SameByName entries entries') : e ∈ entries ↔ e ∈ entries' := by
  have hmem := congrArg (e ∈ ·) (h e.package)
  simpa [List.mem_filter] using hmem

theorem SameByName.normalForm (h : SameByName entries entries') (hform : NormalForm entries out) :
    NormalForm entries' out :=
  ⟨hform.ordered, fun e => by simp only [hform.latest, h.latestIn]⟩

theorem NormalForm.unique (h : NormalForm entries out) (h' : NormalForm entries out') : out = out' := by
  have : Std.Irrefl fun a b : PackageEntry => a.package < b.package := ⟨fun _ => List.lt_irrefl _⟩
  have : Std.Antisymm fun a b : PackageEntry => a.package < b.package :=
    ⟨fun _ _ hab hba => absurd (List.lt_trans hab hba) (List.lt_irrefl _)⟩
  exact h.ordered.eq_of_mem_iff h'.ordered fun e => (h.latest e).trans (h'.latest e).symm

theorem NormalForm.again (h : NormalForm entries out) : NormalForm out out := by
  have hdistinct : ∀ e ∈ out, e.LatestIn out := by
    intro e he
    obtain ⟨front, behind, rfl⟩ := List.append_of_mem he
    obtain ⟨hbehind, -⟩ := List.pairwise_cons.mp (List.pairwise_append.mp h.ordered).2.1
    exact ⟨front, behind, rfl, fun other hother heq =>
      List.lt_irrefl e.package (heq ▸ hbehind other hother)⟩
  have hsettled : ∀ e ∈ out, e.settled = e := by
    intro e he
    obtain ⟨last, -, rfl⟩ := (h.latest e).mp he
    exact settled_settled last
  refine ⟨h.ordered, fun e => ⟨fun he => ⟨e, hdistinct e he, (hsettled e he).symm⟩, ?_⟩⟩
  rintro ⟨last, hlast, rfl⟩
  rw [hsettled last hlast.mem]
  exact hlast.mem

end Gen2.PackageEntry

theorem Generation.ofNumber?_eq_some {n : UInt8} {g : Generation} :
    ofNumber? n = some g ↔ g.number = n := by
  constructor
  · intro h
    unfold ofNumber? at h
    split at h <;> cases h <;> rfl
  · rintro rfl
    cases g <;> rfl

theorem Package.toEntry_inj {p q : Package} (h : p.toEntry = q.toEntry) : p = q := by
  obtain ⟨_, _, _, _, _, g⟩ := p
  obtain ⟨_, _, _, _, _, g'⟩ := q
  simp only [toEntry, Gen2.PackageEntry.mk.injEq] at h
  obtain ⟨rfl, rfl, rfl, rfl, rfl, hnumber⟩ := h
  have hg := Generation.ofNumber?_eq_some.mpr hnumber
  rw [Generation.ofNumber?_eq_some.mpr rfl] at hg
  rw [Option.some.inj hg]

namespace Catalogue

open Gen2.PackageEntry

variable {e : Gen2.PackageEntry} {entries : List Gen2.PackageEntry} {packages : List Package}
  {p q : Package} {c : Catalogue}

theorem toEntry_of_package? (h : package? e = .ok p) : p.toEntry = e.settled := by
  unfold package? at h
  split at h
  · cases h
  · split at h
    · rename_i generation hnumber
      cases h
      simp [Package.toEntry, settled, Generation.ofNumber?_eq_some.mp hnumber]
    · cases h

theorem package?_isOk : (∃ p, package? e = .ok p) ↔ e.Admissible := by
  constructor
  · rintro ⟨p, h⟩
    unfold package? at h
    split at h
    · cases h
    · rename_i hnamed
      refine ⟨hnamed, ?_⟩
      split at h
      · rename_i generation hnumber
        have hprotocol := Generation.ofNumber?_eq_some.mp hnumber
        by_cases hzero : e.protocol = 0
        · exact .inl hzero
        · rw [if_neg hzero] at hprotocol
          cases generation
          · exact .inr (.inl hprotocol.symm)
          · exact .inr (.inr hprotocol.symm)
      · cases h
  · rintro ⟨hnamed, hprotocol⟩
    unfold package?
    rw [if_neg hnamed]
    rcases hprotocol with h | h | h <;> rw [h] <;> exact ⟨_, rfl⟩

theorem mem_insert_iff (h : InOrder packages) :
    q ∈ insert p packages ↔ q = p ∨ q ∈ packages ∧ q.name ≠ p.name := by
  induction packages with
  | nil => simp [insert]
  | cons first rest ih =>
    obtain ⟨hfirst, hrest⟩ := List.pairwise_cons.mp h
    rw [insert]
    split
    · rename_i hsame
      have hne : ∀ q ∈ rest, q.name ≠ p.name := by
        intro q hq heq
        have hlt := hfirst q hq
        rw [← hsame, heq] at hlt
        exact List.lt_irrefl p.name hlt
      grind
    · split
      · rename_i hother hbefore
        have hlt : p.name < first.name := Text.before_iff.mp hbefore
        have hne : ∀ q ∈ rest, q.name ≠ p.name := by
          intro q hq heq
          exact List.lt_irrefl p.name (List.lt_trans hlt (heq ▸ hfirst q hq))
        grind
      · rw [List.mem_cons, ih hrest]
        grind

theorem ofEntries_concat : ofEntries (entries ++ [e]) = .ok c ↔
    ∃ before p, ofEntries entries = .ok before ∧ package? e = .ok p ∧
      c = ⟨insert p before.packages⟩ := by
  simp only [ofEntries, List.foldlM_append]
  cases entries.foldlM (fun packages e => do return insert (← package? e) packages) [] with
  | error fault => simp [bind, Except.bind]
  | ok packages =>
    cases hp : package? e with
    | error fault => simp [bind, Except.bind, hp]
    | ok p => simp [bind, Except.bind, pure, Except.pure, hp, eq_comm]

theorem ofEntries_isOk : (∃ c, ofEntries entries = .ok c) ↔ ∀ e ∈ entries, e.Admissible := by
  induction entries using List.reverseRecOn with
  | nil => exact ⟨fun _ => by simp, fun _ => ⟨_, rfl⟩⟩
  | append_singleton entries e ih =>
    rw [List.forall_mem_append, List.forall_mem_singleton, ← ih, ← package?_isOk]
    simp only [ofEntries_concat]
    constructor
    · rintro ⟨_, before, p, hbefore, hp, -⟩
      exact ⟨⟨before, hbefore⟩, p, hp⟩
    · rintro ⟨⟨before, hbefore⟩, p, hp⟩
      exact ⟨_, before, p, hbefore, hp, rfl⟩

theorem normalForm_of_ofEntries (h : ofEntries entries = .ok c) :
    NormalForm entries (c.packages.map Package.toEntry) := by
  refine ⟨List.pairwise_map.mpr (inOrder_of_ofEntries h), ?_⟩
  induction entries using List.reverseRecOn generalizing c with
  | nil =>
    cases h
    simp [LatestIn]
  | append_singleton entries e ih =>
    obtain ⟨before, p, hbefore, hp, rfl⟩ := ofEntries_concat.mp h
    have hentry := toEntry_of_package? hp
    have hname : p.name = e.package := congrArg Gen2.PackageEntry.package hentry
    intro x
    have hx := ih hbefore x
    simp only [List.mem_map] at hx ⊢
    simp only [mem_insert_iff (inOrder_of_ofEntries hbefore), latestIn_concat]
    constructor
    · rintro ⟨q, rfl | ⟨hq, hother⟩, rfl⟩
      · exact ⟨e, .inl rfl, hentry⟩
      · obtain ⟨last, hlast, heq⟩ := (ih hbefore _).mp (List.mem_map_of_mem hq)
        refine ⟨last, .inr ⟨hlast, ?_⟩, heq⟩
        have hpackage : q.name = last.package := congrArg Gen2.PackageEntry.package heq
        rwa [← hpackage, ← hname]
    · rintro ⟨last, rfl | ⟨hlast, hother⟩, rfl⟩
      · exact ⟨p, .inl rfl, hentry⟩
      · obtain ⟨q, hq, heq⟩ := List.mem_map.mp ((ih hbefore _).mpr ⟨last, hlast, rfl⟩)
        have hpackage : q.name = last.package := congrArg Gen2.PackageEntry.package heq
        exact ⟨q, .inr ⟨hq, by rwa [hpackage, hname]⟩, heq⟩

theorem items_toWire (c : Catalogue) : c.toWire.packages.items = c.packages.map Package.toEntry := by
  unfold toWire
  split
  · rename_i h
    rw [h]
    rfl
  · rfl

theorem toWire_inj {c c' : Catalogue} (h : c.toWire.packages.items = c'.toWire.packages.items) :
    c = c' := by
  rw [items_toWire, items_toWire] at h
  exact congrArg mk (List.map_injective_iff.mpr (fun _ _ => Package.toEntry_inj) h)

theorem normalForm_of_ofWire {d : Gen2.CatalogueResult} (h : ofWire d = .ok c) :
    NormalForm d.packages.items c.toWire.packages.items := by
  rw [items_toWire]
  exact normalForm_of_ofEntries h

theorem ofWire_toWire (h : ofEntries entries = .ok c) : ofWire c.toWire = .ok c := by
  have hform : NormalForm entries c.toWire.packages.items := by
    rw [items_toWire]
    exact normalForm_of_ofEntries h
  obtain ⟨c', hc'⟩ : ∃ c', ofWire c.toWire = .ok c' := by
    refine ofEntries_isOk.mpr fun e he => ?_
    obtain ⟨last, hlast, rfl⟩ := (hform.latest e).mp he
    exact (ofEntries_isOk.mp ⟨c, h⟩ last hlast.mem).settled
  rw [hc', toWire_inj (hform.again.unique (normalForm_of_ofWire hc'))]

theorem ofWire_sameByName {d d' : Gen2.CatalogueResult}
    (h : SameByName d.packages.items d'.packages.items) :
    (ofWire d').toOption = (ofWire d).toOption := by
  have hok : (∃ c, ofWire d = .ok c) ↔ ∃ c, ofWire d' = .ok c := by
    unfold ofWire
    simp only [ofEntries_isOk, h.mem_iff]
  cases hc : ofWire d with
  | error fault =>
    cases hc' : ofWire d' with
    | error fault' => rfl
    | ok c' => simp [hc, hc'] at hok
  | ok c =>
    obtain ⟨c', hc'⟩ := hok.mp ⟨c, hc⟩
    have hform := h.normalForm (normalForm_of_ofWire hc)
    rw [hc', toWire_inj (hform.unique (normalForm_of_ofWire hc'))]

/-- A catalogue is read back from its list. A list comes to a catalogue exactly if all its entries are
admissible; the list of the catalogue is then its normal form, stays as it is when it is read again, and
does not depend on how entries of different names stand to each other. -/
theorem wire_canonical :
    (∀ entries c, ofEntries entries = .ok c → ofWire c.toWire = .ok c) ∧
    ∀ d : Gen2.CatalogueResult,
      ((∃ c, ofWire d = .ok c) ↔ ∀ e ∈ d.packages.items, e.Admissible) ∧
      (∀ c, ofWire d = .ok c → NormalForm d.packages.items c.toWire.packages.items) ∧
      (∀ out, (ofWire d).map toWire = .ok out → (ofWire out).map toWire = .ok out) ∧
      ∀ d' : Gen2.CatalogueResult, SameByName d.packages.items d'.packages.items →
        (ofWire d').toOption.map toWire = (ofWire d).toOption.map toWire := by
  refine ⟨fun entries c => ofWire_toWire, fun d => ⟨ofEntries_isOk, fun c => normalForm_of_ofWire, ?_, ?_⟩⟩
  · intro out hout
    cases hc : ofWire d with
    | error fault => simp [hc, Except.map] at hout
    | ok c =>
      obtain rfl : c.toWire = out := by simpa [hc, Except.map] using hout
      rw [ofWire_toWire hc]
      rfl
  · intro d' hsame
    rw [ofWire_sameByName hsame]

def replacedEntries : List Gen2.PackageEntry :=
  [{ package := "b", attributes := some ["old"], protocol := 1 }, { package := "a", derives := some [] },
    { package := "b", executables := some ["run", "run"] }]

def shiftedEntries : List Gen2.PackageEntry :=
  [{ package := "a", derives := some [] }, { package := "b", attributes := some ["old"], protocol := 1 },
    { package := "b", executables := some ["run", "run"] }]

theorem wire_canonical_replaced :
    ∃ c, ofEntries replacedEntries = .ok c ∧ (∀ e ∈ replacedEntries, e.Admissible) ∧
      SameByName replacedEntries shiftedEntries ∧ ofWire c.toWire = .ok c ∧
      NormalForm replacedEntries c.toWire.packages.items ∧
      c.toWire.packages = some [{ package := "a", derives := some [], protocol := 2 },
        { package := "b", executables := some ["run", "run"], protocol := 2 }] ∧
      (ofWire c.toWire).map toWire = .ok c.toWire ∧
      (ofWire ⟨some shiftedEntries⟩).toOption.map toWire = some c.toWire := by
  obtain ⟨hback, hlists⟩ := wire_canonical
  obtain ⟨hok, hform, hagain, hshifted⟩ := hlists ⟨some replacedEntries⟩
  have hc : ofEntries replacedEntries =
      .ok ⟨[{ name := "a", derives := some [] }, { name := "b", executables := some ["run", "run"] }]⟩ := by
    decide +kernel
  have hsame : SameByName replacedEntries shiftedEntries := by
    intro name
    by_cases ha : Text.ofString "a" = name
    · have hb : Text.ofString "b" ≠ name := ha ▸ by decide
      simp [replacedEntries, shiftedEntries, ha, hb]
    · simp [replacedEntries, shiftedEntries, List.filter_cons, ha]
  refine ⟨_, hc, hok.mp ⟨_, hc⟩, hsame, hback _ _ hc, hform _ hc, rfl, ?_, ?_⟩
  · exact hagain _ (by rw [show ofWire ⟨some replacedEntries⟩ = _ from hc]; rfl)
  · rw [hshifted ⟨some shiftedEntries⟩ hsame, show ofWire ⟨some replacedEntries⟩ = _ from hc]
    rfl

end Catalogue

end MacroRelay
