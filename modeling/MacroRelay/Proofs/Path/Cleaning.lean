import MacroRelay.Proofs.Path
import Mathlib.Data.List.Induction
import Mathlib.Logic.Relation

/-!
# What cleaning a path comes to

Lexical rules take elements out of a path: empty ones, `.`, a name with the `..` behind it, and `..`
right below the root. In whatever order they are applied, what is left in the end are the elements of
the clean path.
-/

namespace MacroRelay

namespace Path

open Relation

variable {root : Bool} {names shorter kept : List Text} {p q part : Text}

def leads (part : Text) : Bool := part != [] && part != Text.ofString "."

/-- One rule is applied in one place: what leads nowhere is left out, `..` takes the name in front of it
with it, and there is nothing above the root. -/
inductive Shortens (root : Bool) : List Text → List Text → Prop where
  | idle (front behind : List Text) {part : Text} (h : leads part = false) :
      Shortens root (front ++ part :: behind) (front ++ behind)
  | back (front behind : List Text) {name : Text} (h : leads name) (hup : name ≠ Text.ofString "..") :
      Shortens root (front ++ name :: Text.ofString ".." :: behind) (front ++ behind)
  | top (behind : List Text) (h : root) : Shortens root (Text.ofString ".." :: behind) behind

def Reduced (root : Bool) (names : List Text) : Prop :=
  ∀ shorter, ¬ Shortens root names shorter

/-- A path as its elements. Nothing is left of a path that leads nowhere but `.`. -/
def written (root : Bool) (names : List Text) : Text :=
  if root then rooted names else if names = [] then "." else Text.joined [slash] names

/-- The rules lead from one path to the other, and no further. -/
def IsCleaned (p q : Text) : Prop :=
  ∃ names, ReflTransGen (Shortens (isAbsolute p)) (p.splitAt slash) names ∧
    Reduced (isAbsolute p) names ∧ q = written (isAbsolute p) names

theorem Shortens.length_lt (h : Shortens root names shorter) : shorter.length < names.length := by
  cases h <;> (simp only [List.length_append, List.length_cons]; omega)

theorem Shortens.concat (h : Shortens root names shorter) (last : Text) :
    Shortens root (names ++ [last]) (shorter ++ [last]) := by
  cases h with
  | idle front behind h => simpa using Shortens.idle front (behind ++ [last]) h
  | back front behind h hup => simpa using Shortens.back front (behind ++ [last]) h hup
  | top _ h => exact .top _ h

theorem exists_reduced (root : Bool) (names : List Text) :
    ∃ kept, ReflTransGen (Shortens root) names kept ∧ Reduced root kept := by
  induction hlength : names.length using Nat.strongRecOn generalizing names with
  | _ n ih =>
    subst hlength
    by_cases h : Reduced root names
    · exact ⟨names, .refl, h⟩
    · obtain ⟨shorter, hstep⟩ := not_forall_not.mp h
      obtain ⟨kept, hrun, hkept⟩ := ih _ hstep.length_lt shorter rfl
      exact ⟨kept, .head hstep hrun, hkept⟩

-- ---------------------------------------------------------------------------
-- What the rules keep
-- ---------------------------------------------------------------------------

def keepAll (root : Bool) (names : List Text) : List Text :=
  (names.filter leads).foldl (keep root) []

theorem keepAll_append (front behind : List Text) : keepAll root (front ++ behind) =
    (behind.filter leads).foldl (keep root) (keepAll root front) := by
  rw [keepAll, List.filter_append, List.foldl_append]
  rfl

theorem Shortens.keepAll_eq (h : Shortens root names shorter) :
    keepAll root shorter = keepAll root names := by
  cases h with
  | idle front behind h =>
    rw [keepAll_append, keepAll_append, List.filter_cons_of_neg (by simp [h])]
  | back front behind h hup =>
    have hdots : leads (Text.ofString "..") = true := by decide
    rw [keepAll_append, keepAll_append, List.filter_cons_of_pos h, List.filter_cons_of_pos hdots]
    simp [keep, hup]
  | top behind h =>
    have hdots : leads (Text.ofString "..") = true := by decide
    subst h
    rw [keepAll, keepAll, List.filter_cons_of_pos hdots]
    simp [keep]

theorem keepAll_of_run (h : ReflTransGen (Shortens root) names kept) :
    keepAll root kept = keepAll root names := by
  induction h with
  | refl => rfl
  | tail _ hstep ih => rw [hstep.keepAll_eq, ih]

theorem Reduced.leads (h : Reduced root names) : ∀ part ∈ names, leads part := by
  intro part hpart
  obtain ⟨front, behind, rfl⟩ := List.append_of_mem hpart
  exact Bool.of_not_eq_false fun hidle => h _ (.idle front behind hidle)

theorem Reduced.keepAll_eq (h : Reduced root names) : keepAll root names = names.reverse := by
  induction names using List.reverseRecOn with
  | nil => rfl
  | append_singleton names last ih =>
    have hlast := h.leads last List.mem_concat_self
    rw [keepAll_append, ih fun shorter hstep => h _ (hstep.concat last),
      List.filter_cons_of_pos hlast, List.reverse_concat]
    by_cases hup : last = Text.ofString ".."
    · subst hup
      rcases List.eq_nil_or_concat names with rfl | ⟨front, name, rfl⟩
      · have hroot : root = false := Bool.eq_false_iff.mpr fun hroot => h _ (.top [] hroot)
        simp [keep, hroot]
      · rw [List.concat_eq_append] at h ⊢
        have hname : name = Text.ofString ".." := Classical.byContradiction fun hne => by
          have hleads := h.leads name (by simp)
          rw [List.append_assoc] at h
          exact h _ (.back front [] hleads hne)
        simp [keep, hname]
    · simp [keep, hup]

theorem keepAll_splitAt (root : Bool) (p : Text) :
    keepAll root (p.splitAt slash) = (parts p).foldl (keep root) [] := rfl

theorem joined_eq_nil (h : ∀ part ∈ names, leads part) : Text.joined [slash] names = [] ↔ names = [] := by
  match names with
  | [] => simp [Text.joined, List.intercalate]
  | [part] =>
    have hpart := h part List.mem_cons_self
    simp only [leads, Bool.and_eq_true, bne_iff_ne] at hpart
    simp [Text.joined, List.intercalate, hpart.1]
  | part :: next :: rest => simp [Text.joined, List.intercalate]

theorem clean_eq_written (hrun : ReflTransGen (Shortens (isAbsolute p)) (p.splitAt slash) names)
    (h : Reduced (isAbsolute p) names) : clean p = written (isAbsolute p) names := by
  have hkept : ((parts p).foldl (keep (isAbsolute p)) []).reverse = names := by
    rw [← keepAll_splitAt, ← keepAll_of_run hrun, h.keepAll_eq, List.reverse_reverse]
  simp only [clean, written, hkept, joined_eq_nil h.leads]
  rfl

theorem isCleaned_iff : IsCleaned p q ↔ q = clean p := by
  constructor
  · rintro ⟨names, hrun, hreduced, rfl⟩
    exact (clean_eq_written hrun hreduced).symm
  · rintro rfl
    obtain ⟨names, hrun, hreduced⟩ := exists_reduced (isAbsolute p) (p.splitAt slash)
    exact ⟨names, hrun, hreduced, clean_eq_written hrun hreduced⟩

end Path

end MacroRelay
