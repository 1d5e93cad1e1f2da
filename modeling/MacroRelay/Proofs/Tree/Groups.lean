import MacroRelay.Tree.Group

/-!
# The grammar of delimiter groups

`Inside d` is what may stand between a delimiter of kind `d` and the one that closes it: groups, and
tokens that neither open a group nor close this one. Counting up to the closing delimiter finds the
end of a group exactly where the grammar has it.
-/

namespace MacroRelay

namespace Token

inductive Inside : Delimiter → List Token → Prop
  | nil : Inside d []
  | plain : (∀ e, isPunct t (Delimiter.opening e) = false) →
      isPunct t (Delimiter.closing d) = false → Inside d ts → Inside d (t :: ts)
  | nested : isPunct o e.opening → Inside e body → isPunct c e.closing → Inside d ts →
      Inside d (o :: (body ++ c :: ts))

inductive IsGroup (d : Delimiter) : List Token → Prop
  | mk : isPunct o d.opening → Inside d body → isPunct c d.closing → IsGroup d (o :: (body ++ [c]))

/-- What closes all open groups, innermost first. -/
inductive Closes : List Delimiter → List Token → Prop
  | nil : Closes [] []
  | cons : Inside d body → isPunct c d.closing → Closes groups ts →
      Closes (d :: groups) (body ++ c :: ts)

variable {t o c : Token} {d e : Delimiter} {ts rest body : List Token} {groups : List Delimiter}

theorem text_of_isPunct {text : Text} (h : t.isPunct text) : t.text = text := by
  simp only [isPunct, Bool.and_eq_true, beq_iff_eq] at h
  exact h.2

theorem isPunct_inj {text text' : Text} (h : t.isPunct text) (h' : t.isPunct text') :
    text = text' :=
  (text_of_isPunct h).symm.trans (text_of_isPunct h')

theorem opens?_eq_some : t.opens? = some d ↔ t.isPunct d.opening := by
  unfold opens?
  constructor
  · exact fun h => List.find?_some (p := fun d => t.isPunct (Delimiter.opening d)) h
  · intro h
    have hother (e : Delimiter) (hne : d ≠ e) : t.isPunct e.opening = false := by
      refine Bool.eq_false_iff.mpr fun he => hne ?_
      have hsame := isPunct_inj h he
      cases d <;> cases e <;> first | rfl | exact absurd hsame (by decide)
    cases d <;> simp [h, hother]

theorem opens?_eq_none : t.opens? = none ↔ ∀ d : Delimiter, t.isPunct d.opening = false := by
  constructor
  · intro h d
    refine Bool.eq_false_iff.mpr fun hd => ?_
    cases h.symm.trans (opens?_eq_some.mpr hd)
  · intro h
    cases ho : t.opens? with
    | none => rfl
    | some d => cases (h d).symm.trans (opens?_eq_some.mp ho)

theorem opens?_of_closes (h : t.isPunct d.closing) : t.opens? = none := by
  refine opens?_eq_none.mpr fun e => Bool.eq_false_iff.mpr fun he => ?_
  have hsame := isPunct_inj h he
  cases d <;> cases e <;> exact absurd hsame (by decide)

theorem Inside.append (h : Inside d ts) (h' : Inside d rest) : Inside d (ts ++ rest) := by
  induction h with
  | nil => exact h'
  | plain ho hc _ ih => exact .plain ho hc (ih h')
  | nested ho hbody hc _ _ ih => simpa using Inside.nested ho hbody hc (ih h')

theorem IsGroup.inside (h : IsGroup e ts) : Inside d ts := by
  obtain ⟨ho, hbody, hc⟩ := h
  exact .nested ho hbody hc .nil

theorem IsGroup.exists_close (h : IsGroup d ts) :
    ∃ o body close, ts = o :: (body ++ [close]) ∧ close.isPunct d.closing := by
  obtain ⟨-, -, hclose⟩ := h
  exact ⟨_, _, _, rfl, hclose⟩

theorem Closes.plain (ho : ∀ e : Delimiter, t.isPunct e.opening = false)
    (hc : t.isPunct d.closing = false) (h : Closes (d :: groups) ts) :
    Closes (d :: groups) (t :: ts) := by
  cases h with
  | cons hbody hclose hrest => exact .cons (hbody.plain ho hc) hclose hrest

theorem Closes.opened (ho : o.isPunct e.opening) (h : Closes (e :: d :: groups) ts) :
    Closes (d :: groups) (o :: ts) := by
  cases h with
  | cons hbody hclose hrest =>
    cases hrest with
    | cons hbody' hclose' hrest' =>
      simpa using Closes.cons (.nested ho hbody hclose hbody') hclose' hrest'

-- ---------------------------------------------------------------------------
-- Counting
-- ---------------------------------------------------------------------------

theorem closeCount?_opened (h : t.isPunct d.opening) (groups : List Delimiter) (count : Nat) :
    closeCount? groups count (t :: ts) = closeCount? (d :: groups) (count + 1) ts := by
  simp only [closeCount?, opens?_eq_some.mpr h]

theorem closeCount?_closed (h : t.isPunct d.closing) (groups : List Delimiter) (count : Nat) :
    closeCount? (d :: groups) count (t :: ts) =
      if groups.isEmpty then some (count + 1) else closeCount? groups (count + 1) ts := by
  simp only [closeCount?, opens?_of_closes h, closes, h, if_true]

theorem closeCount?_plain (ho : ∀ e : Delimiter, t.isPunct e.opening = false)
    (hc : t.isPunct d.closing = false) (groups : List Delimiter) (count : Nat) :
    closeCount? (d :: groups) count (t :: ts) = closeCount? (d :: groups) (count + 1) ts := by
  simp only [closeCount?, opens?_eq_none.mpr ho, closes, hc, Bool.false_eq_true, if_false]

theorem Inside.closeCount? (h : Inside d body) (groups : List Delimiter) (count : Nat)
    (ts : List Token) : closeCount? (d :: groups) count (body ++ ts) =
      Token.closeCount? (d :: groups) (count + body.length) ts := by
  induction h generalizing groups count ts with
  | nil => rfl
  | plain ho hc _ ih =>
    rw [List.cons_append, closeCount?_plain ho hc, ih, List.length_cons]
    congr 1
    omega
  | nested ho _ hc _ ihbody ih =>
    rw [List.cons_append, List.append_assoc, closeCount?_opened ho, ihbody, List.cons_append,
      closeCount?_closed hc, List.isEmpty_cons, if_neg Bool.false_ne_true, ih]
    congr 1
    simp only [List.length_append, List.length_cons]
    omega

theorem closeCount?_sound {count n : Nat} (h : closeCount? (d :: groups) count ts = some n) :
    ∃ closed rest, ts = closed ++ rest ∧ Closes (d :: groups) closed ∧
      n = count + closed.length := by
  -- over the whole stack, since any token may open a group on top of it
  induction ts generalizing d groups count with
  | nil => cases h
  | cons t ts ih =>
    rcases ho : t.opens? with _ | e
    · have hplain := opens?_eq_none.mp ho
      cases hc : t.isPunct d.closing with
      | false =>
        rw [closeCount?_plain hplain hc] at h
        obtain ⟨closed, rest, rfl, hclosed, rfl⟩ := ih h
        refine ⟨t :: closed, rest, rfl, hclosed.plain hplain hc, ?_⟩
        rw [List.length_cons]
        omega
      | true =>
        rw [closeCount?_closed hc] at h
        cases groups with
        | nil =>
          cases h
          exact ⟨[t], ts, rfl, .cons .nil hc .nil, rfl⟩
        | cons e groups =>
          obtain ⟨closed, rest, rfl, hclosed, rfl⟩ := ih h
          refine ⟨t :: closed, rest, rfl, .cons .nil hc hclosed, ?_⟩
          rw [List.length_cons]
          omega
    · rw [closeCount?_opened (opens?_eq_some.mp ho)] at h
      obtain ⟨closed, rest, rfl, hclosed, rfl⟩ := ih h
      exact ⟨t :: closed, rest, rfl, hclosed.opened (opens?_eq_some.mp ho),
        by simp only [List.length_cons]; omega⟩

theorem closeCount?_le {groups : List Delimiter} {count n : Nat} {ts : List Token}
    (h : closeCount? groups count ts = some n) : n ≤ count + ts.length := by
  induction ts generalizing groups count with
  | nil => cases h
  | cons t ts ih =>
    rw [List.length_cons]
    unfold closeCount? at h
    split at h
    · have := ih h
      omega
    · have := ih h
      omega
    · split at h
      · split at h
        · cases h
          omega
        · have := ih h
          omega
      · have := ih h
        omega

theorem groupLength?_le {n : Nat} {ts : List Token} (h : groupLength? ts = some n) :
    n ≤ ts.length := by
  have := closeCount?_le h
  omega

theorem groupLength?_append (h : IsGroup d ts) (rest : List Token) :
    groupLength? (ts ++ rest) = some ts.length := by
  obtain ⟨ho, hbody, hc⟩ := h
  rw [groupLength?, List.cons_append, closeCount?_opened ho, List.append_assoc, hbody.closeCount?,
    List.cons_append, closeCount?_closed hc]
  simp only [List.isEmpty_nil, if_true, List.length_cons, List.length_append, List.length_nil]
  congr 1
  omega

theorem groupLength?_sound (ho : o.isPunct d.opening) {n : Nat}
    (h : groupLength? (o :: ts) = some n) :
    ∃ group rest, o :: ts = group ++ rest ∧ IsGroup d group ∧ group.length = n := by
  rw [groupLength?, closeCount?_opened ho] at h
  obtain ⟨closed, rest, rfl, hclosed, rfl⟩ := closeCount?_sound h
  cases hclosed with
  | cons hbody hc hnil =>
    cases hnil
    exact ⟨_, rest, rfl, .mk ho hbody hc, by simp only [List.length_cons]; omega⟩

theorem IsGroup.append_inj {ts' rest' : List Token} (h : IsGroup d ts) (h' : IsGroup d ts')
    (heq : ts ++ rest = ts' ++ rest') : ts = ts' ∧ rest = rest' := by
  have hlength := (groupLength?_append h rest).symm.trans (heq ▸ groupLength?_append h' rest')
  exact List.append_inj heq (Option.some.inj hlength)

end Token

end MacroRelay
