import MacroRelay.Proofs.Lists
import MacroRelay.Proofs.Sorted
import MacroRelay.Suite
import Mathlib.Data.List.Nodup

/-!
# Suites that are put together

What a suite declares is read off its plugins. An inline name keeps the plugin it was bound to first,
whatever is added later, and suites without a common inline name merge to all that both have.
-/

namespace MacroRelay

namespace Suite

variable {π ι : Type} {s s' other : Suite π ι} {name : Text} {p : ι} {bindings : List (Text × ι)}

theorem mem_declaredAttributes :
    name ∈ s.declaredAttributes ↔ ∃ plugin ∈ s.plugins, name ∈ plugin.attributes :=
  Text.mem_distinct.trans List.mem_flatMap

theorem mem_declaredDerives :
    name ∈ s.declaredDerives ↔ ∃ plugin ∈ s.plugins, name ∈ plugin.derives :=
  Text.mem_distinct.trans List.mem_flatMap

theorem recognizes_iff : s.recognizes name ↔ name ∈ s.declaredAttributes :=
  Text.listed_iff ((Text.distinct_pairwise _).imp fun h => List.le_of_lt h)

-- ---------------------------------------------------------------------------
-- Binding
-- ---------------------------------------------------------------------------

def Unambiguous (s : Suite π ι) : Prop :=
  (s.inline.map (·.1)).Nodup

def Keeps (s s' : Suite π ι) : Prop :=
  ∀ name p, s.inline? name = some p → s'.inline? name = some p

theorem Keeps.refl (s : Suite π ι) : s.Keeps s := fun _ _ h => h

theorem Keeps.trans {s'' : Suite π ι} (h : s.Keeps s') (h' : s'.Keeps s'') : s.Keeps s'' :=
  fun name p hp => h' name p (h name p hp)

theorem inline?_eq_none : s.inline? name = none ↔ name ∉ s.inline.map (·.1) := by
  simp only [inline?, List.lookup_eq_none_iff, List.mem_map, bne_iff_ne, not_exists, not_and]
  exact forall₂_congr fun _ _ => ne_comm

theorem bindInline_eq_ok : s.bindInline name p = .ok s' ↔
    s.inline? name = none ∧ s' = { s with inline := s.inline ++ [(name, p)] } := by
  unfold bindInline
  cases s.inline? name <;> simp [eq_comm]

theorem Unambiguous.bindInline (h : s.Unambiguous) (hbind : s.bindInline name p = .ok s') :
    s'.Unambiguous := by
  obtain ⟨hfree, rfl⟩ := bindInline_eq_ok.mp hbind
  rw [Unambiguous, List.map_append, List.map_singleton, ← List.concat_eq_append]
  exact h.concat (inline?_eq_none.mp hfree)

theorem keeps_append (s : Suite π ι) (bindings : List (Text × ι)) :
    s.Keeps { s with inline := s.inline ++ bindings } := by
  intro name p h
  rw [inline?] at h ⊢
  rw [List.lookup_append, h]
  rfl

theorem keeps_bindAll (s : Suite π ι) (bindings : List (Text × ι)) :
    s.Keeps (s.bindAll bindings).1 := by
  induction bindings generalizing s with
  | nil => exact .refl s
  | cons binding rest ih =>
    obtain ⟨name, p⟩ := binding
    rw [bindAll]
    cases hbind : s.bindInline name p with
    | error fault => exact .refl s
    | ok s' =>
      obtain ⟨-, rfl⟩ := bindInline_eq_ok.mp hbind
      exact (s.keeps_append _).trans (ih _)

theorem Unambiguous.bindAll (h : s.Unambiguous) (bindings : List (Text × ι)) :
    (s.bindAll bindings).1.Unambiguous := by
  induction bindings generalizing s with
  | nil => exact h
  | cons binding rest ih =>
    obtain ⟨name, p⟩ := binding
    rw [Suite.bindAll]
    cases hbind : s.bindInline name p with
    | error fault => exact h
    | ok s' => exact ih (h.bindInline hbind)

theorem bindAll_free (hdistinct : (bindings.map (·.1)).Nodup)
    (hfree : ∀ name ∈ bindings.map (·.1), s.inline? name = none) :
    s.bindAll bindings = ({ s with inline := s.inline ++ bindings }, none) := by
  induction bindings generalizing s with
  | nil => simp [bindAll]
  | cons binding rest ih =>
    obtain ⟨name, p⟩ := binding
    obtain ⟨hname, hrest⟩ := List.nodup_cons.mp hdistinct
    rw [bindAll, bindInline_eq_ok.mpr ⟨hfree name List.mem_cons_self, rfl⟩]
    dsimp only
    rw [ih hrest]
    · simp
    · intro other hother
      have hold := inline?_eq_none.mp (hfree other (List.mem_cons_of_mem name hother))
      have hne : other ≠ name := fun h => hname (h ▸ hother)
      simp [inline?_eq_none, hold, hne]

-- ---------------------------------------------------------------------------
-- Changes
-- ---------------------------------------------------------------------------

inductive Change (π ι : Type) where
  | plugin : Plugin π → Change π ι
  | inline : Text → ι → Change π ι
  | suite : Suite π ι → Change π ι

/-- A binding that is refused leaves the suite, a merge that is refused what it has taken over. -/
def change (s : Suite π ι) : Change π ι → Suite π ι
  | .plugin p => s.addPlugin p
  | .inline name p => (s.bindInline name p).toOption.getD s
  | .suite other => (s.merge other).1

def changes (s : Suite π ι) (cs : List (Change π ι)) : Suite π ι :=
  cs.foldl change s

theorem keeps_change (s : Suite π ι) (c : Change π ι) : s.Keeps (s.change c) := by
  cases c with
  | plugin p => exact .refl s
  | «inline» name p =>
    rw [change]
    cases hbind : s.bindInline name p with
    | error fault => exact .refl s
    | ok s' =>
      obtain ⟨-, rfl⟩ := bindInline_eq_ok.mp hbind
      exact s.keeps_append _
  | suite other =>
    have hplugins : s.Keeps { s with plugins := s.plugins ++ other.plugins } := .refl s
    exact hplugins.trans (keeps_bindAll _ _)

theorem Unambiguous.change (h : s.Unambiguous) (c : Change π ι) : (s.change c).Unambiguous := by
  cases c with
  | plugin p => exact h
  | «inline» name p =>
    rw [Suite.change]
    cases hbind : s.bindInline name p with
    | error fault => exact h
    | ok s' => exact h.bindInline hbind
  | suite other =>
    have hplugins : Unambiguous { s with plugins := s.plugins ++ other.plugins } := h
    exact hplugins.bindAll _

theorem Unambiguous.changes (h : s.Unambiguous) (cs : List (Change π ι)) :
    (s.changes cs).Unambiguous := by
  induction cs generalizing s with
  | nil => exact h
  | cons c cs ih => exact ih (h.change c)

theorem keeps_changes (s : Suite π ι) (cs : List (Change π ι)) : s.Keeps (s.changes cs) := by
  induction cs generalizing s with
  | nil => exact .refl s
  | cons c cs ih => exact (s.keeps_change c).trans (ih _)

-- ---------------------------------------------------------------------------
-- Merging
-- ---------------------------------------------------------------------------

def Apart (s other : Suite π ι) : Prop :=
  ∀ name, s.inline? name = none ∨ other.inline? name = none

/-- All plugins of both, and with them all that is declared or bound in either. -/
structure IsUnion (s other merged : Suite π ι) : Prop where
  plugins : merged.plugins = s.plugins ++ other.plugins
  recognizes : ∀ name, merged.recognizes name ↔ s.recognizes name ∨ other.recognizes name
  attributesOrdered : merged.declaredAttributes.Pairwise (· < ·)
  attributes : ∀ name, name ∈ merged.declaredAttributes ↔
    name ∈ s.declaredAttributes ∨ name ∈ other.declaredAttributes
  derivesOrdered : merged.declaredDerives.Pairwise (· < ·)
  derives : ∀ name, name ∈ merged.declaredDerives ↔
    name ∈ s.declaredDerives ∨ name ∈ other.declaredDerives
  bound : ∀ name p, merged.inline? name = some p ↔ s.inline? name = some p ∨ other.inline? name = some p

theorem merge_apart (hother : other.Unambiguous) (h : s.Apart other) :
    s.merge other = (⟨s.plugins ++ other.plugins, s.inline ++ other.sortedInline⟩, none) := by
  have hperm : other.sortedInline.Perm other.inline := List.mergeSort_perm _ _
  refine bindAll_free ((hperm.map _).nodup_iff.mpr hother) fun name hname => ?_
  refine (h name).resolve_right fun hfree => inline?_eq_none.mp hfree ?_
  exact (hperm.map _).mem_iff.mp hname

theorem inline?_sortedInline (h : s.Unambiguous) : s.sortedInline.lookup name = s.inline? name := by
  have hperm : s.sortedInline.Perm s.inline := List.mergeSort_perm _ _
  refine Option.ext fun p => ?_
  rw [inline?, lookup_eq_some_iff h, lookup_eq_some_iff ((hperm.map _).nodup_iff.mpr h), hperm.mem_iff]

theorem isUnion_merge (hother : other.Unambiguous) (h : s.Apart other) :
    ∃ merged, s.merge other = (merged, none) ∧ s.IsUnion other merged := by
  refine ⟨_, merge_apart hother h, ?_⟩
  have hattributes (name : Text) :
      name ∈ (Suite.mk (s.plugins ++ other.plugins) (s.inline ++ other.sortedInline)).declaredAttributes ↔
        name ∈ s.declaredAttributes ∨ name ∈ other.declaredAttributes := by
    simp only [mem_declaredAttributes, List.mem_append, or_and_right, exists_or]
  exact {
    plugins := rfl
    recognizes name := by simp only [recognizes_iff, hattributes]
    attributesOrdered := Text.distinct_pairwise _
    attributes := hattributes
    derivesOrdered := Text.distinct_pairwise _
    derives name := by simp only [mem_declaredDerives, List.mem_append, or_and_right, exists_or]
    bound name p := by
      rw [inline?, List.lookup_append, inline?_sortedInline hother, ← inline?]
      rcases h name with hnone | hnone <;> simp [hnone] }

end Suite

end MacroRelay
