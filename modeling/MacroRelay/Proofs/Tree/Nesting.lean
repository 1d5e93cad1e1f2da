import MacroRelay.Proofs.Tree.Items

/-!
# Where groups end

A group is an opening delimiter, elements, and the delimiter that closes it. Counting from a token that
opens a group finds the last token of the group, which is the only one that the grammar allows, and it
finds none exactly if the group does not end. A group inside a closed group is closed as well, so the
arguments of an attribute are never left open once its brackets are closed.
-/

namespace MacroRelay

namespace Token

-- ---------------------------------------------------------------------------
-- Elements
-- ---------------------------------------------------------------------------

/-- What a group of kind `d` is made of. A closing delimiter of another kind is a token like others. -/
inductive IsElement (d : Delimiter) : List Token → Prop
  | group : IsGroup e ts → IsElement d ts
  | plain : (∀ e, isPunct t (Delimiter.opening e) = false) →
      (∀ e, isPunct t (Delimiter.closing e) = false) → IsElement d [t]
  | stray : isPunct t (Delimiter.closing e) → e ≠ d → IsElement d [t]

variable {t o : Token} {d e : Delimiter} {ts rest path group : List Token} {first last : Nat}

theorem closing_inj (h : t.isPunct d.closing) (h' : t.isPunct e.closing) : d = e := by
  have hsame := isPunct_inj h h'
  cases d <;> cases e <;> first | rfl | exact absurd hsame (by decide)

theorem isElement_singleton (ho : ∀ e : Delimiter, t.isPunct e.opening = false)
    (hc : t.isPunct d.closing = false) : IsElement d [t] := by
  by_cases hstray : ∃ e : Delimiter, t.isPunct e.closing
  · obtain ⟨e, he⟩ := hstray
    refine .stray he ?_
    rintro rfl
    cases hc.symm.trans he
  · exact .plain ho fun e => Bool.eq_false_iff.mpr fun he => hstray ⟨e, he⟩

theorem IsElement.inside (h : IsElement d ts) : Inside d ts := by
  cases h with
  | group hgroup => exact hgroup.inside
  | plain ho hc => exact .plain ho (hc d) .nil
  | stray hc hne =>
    exact .plain (opens?_eq_none.mp (opens?_of_closes hc))
      (Bool.eq_false_iff.mpr fun hd => hne (closing_inj hc hd)) .nil

theorem inside_iff :
    Inside d ts ↔
      ∃ elements : List (List Token), ts = elements.flatten ∧ ∀ part ∈ elements, IsElement d part := by
  constructor
  · intro h
    induction h with
    | nil => exact ⟨[], rfl, nofun⟩
    | plain ho hc _ ih =>
      obtain ⟨elements, rfl, hall⟩ := ih
      exact ⟨_ :: elements, rfl, List.forall_mem_cons.mpr ⟨isElement_singleton ho hc, hall⟩⟩
    | nested ho hbody hc _ _ ih =>
      obtain ⟨elements, rfl, hall⟩ := ih
      refine ⟨_ :: elements, ?_, List.forall_mem_cons.mpr ⟨.group (.mk ho hbody hc), hall⟩⟩
      simp
  · rintro ⟨elements, rfl, hall⟩
    induction elements with
    | nil => exact .nil
    | cons part elements ih =>
      rw [List.forall_mem_cons] at hall
      exact hall.1.inside.append (ih hall.2)

theorem isGroup_iff : IsGroup d ts ↔ ∃ (o : Token) (elements : List (List Token)) (c : Token),
    ts = o :: (elements.flatten ++ [c]) ∧ o.isPunct d.opening ∧ (∀ part ∈ elements, IsElement d part) ∧
      c.isPunct d.closing := by
  constructor
  · rintro ⟨ho, hbody, hc⟩
    obtain ⟨elements, rfl, hall⟩ := inside_iff.mp hbody
    exact ⟨_, elements, _, rfl, ho, hall, hc⟩
  · rintro ⟨o, elements, c, rfl, ho, hall, hc⟩
    exact .mk ho (inside_iff.mpr ⟨elements, rfl, hall⟩) hc

-- ---------------------------------------------------------------------------
-- Groups by the numbers of their tokens
-- ---------------------------------------------------------------------------

/-- The number of the token that closes the group opened by the token numbered `first`. -/
def groupEnd? (ts : List Token) (first : Nat) : Option Nat :=
  (groupLength? (ts.drop first)).map (first + · - 1)

/-- The tokens numbered from `first` to `last` are one whole group. -/
def GroupAt (ts : List Token) (first last : Nat) : Prop :=
  first ≤ last ∧ last < ts.length ∧ ∃ d, IsGroup d (ts.extract first (last + 1))

theorem IsGroup.ne_nil (h : IsGroup d ts) : ts ≠ [] := by
  obtain ⟨-, -, -⟩ := h
  exact List.cons_ne_nil _ _

theorem groupEnd?_of_groupAt (h : GroupAt ts first last) : groupEnd? ts first = some last := by
  obtain ⟨hle, hlt, d, hgroup⟩ := h
  have hlength : (ts.extract first (last + 1)).length = last + 1 - first := by
    simp only [List.extract_eq_take_drop, List.length_take, List.length_drop]
    omega
  have hcount := groupLength?_append hgroup ((ts.drop first).drop (last + 1 - first))
  rw [hlength, List.extract_eq_take_drop, List.take_append_drop] at hcount
  rw [groupEnd?, hcount, Option.map_some]
  congr 1
  omega

theorem groupAt_of_groupEnd? (ho : ts[first]? = some o) (hd : o.isPunct d.opening)
    (h : groupEnd? ts first = some last) : GroupAt ts first last := by
  obtain ⟨hlt, rfl⟩ := List.getElem?_eq_some_iff.mp ho
  obtain ⟨n, hn, rfl⟩ := Option.map_eq_some_iff.mp h
  rw [List.drop_eq_getElem_cons hlt] at hn
  obtain ⟨group, rest, hsplit, hgroup, rfl⟩ := groupLength?_sound hd hn
  rw [← List.drop_eq_getElem_cons hlt] at hsplit
  have hpos := List.length_pos_iff.mpr hgroup.ne_nil
  have hlength := congrArg List.length hsplit
  rw [List.length_drop, List.length_append] at hlength
  refine ⟨by omega, by omega, d, ?_⟩
  have hcount : first + group.length - 1 + 1 - first = group.length := by omega
  rwa [List.extract_eq_take_drop, hcount, hsplit, List.take_left]

theorem groupEnd?_eq_some (ho : ts[first]? = some o) (hd : o.isPunct d.opening) :
    groupEnd? ts first = some last ↔ GroupAt ts first last :=
  ⟨groupAt_of_groupEnd? ho hd, groupEnd?_of_groupAt⟩

-- ---------------------------------------------------------------------------
-- Groups inside groups
-- ---------------------------------------------------------------------------

theorem Inside.of_plain (h : Inside d (t :: ts)) (ho : ∀ e : Delimiter, t.isPunct e.opening = false) :
    Inside d ts := by
  cases h with
  | plain _ _ hrest => exact hrest
  | nested hopen _ _ _ => cases hopen.symm.trans (ho _)

theorem Inside.exists_groupLength (h : Inside d (o :: ts)) (ho : o.isPunct e.opening) :
    ∃ n, groupLength? (o :: ts) = some n := by
  cases h with
  | plain hplain _ _ => cases ho.symm.trans (hplain e)
  | nested hopen hbody hc _ => exact ⟨_, by simpa using groupLength?_append (.mk hopen hbody hc) _⟩

theorem Inside.behind_path (hpath : IsPath path) (h : Inside d (path ++ rest)) : Inside d rest := by
  have hident {t : Token} (ht : t.isIdent) (e : Delimiter) : t.isPunct e.opening = false :=
    not_isPunct_of_isIdent ht _
  induction hpath with
  | last ht => exact h.of_plain (hident ht)
  | cons ht hcolons _ ih =>
    refine ih ((h.of_plain (hident ht)).of_plain fun e => ?_)
    exact not_isPunct_of_ne hcolons (by cases e <;> decide)

theorem Inside.path_rest (h : Inside d ts) : Inside d (Token.path ts).2 := by
  by_cases hfront : ∃ t more, ts = t :: more ∧ t.isIdent
  · obtain ⟨t, more, rfl, ht⟩ := hfront
    obtain ⟨path, rest, hsplit, hpath, hrest⟩ := exists_path ht more
    rw [hsplit] at h ⊢
    rw [path_append hpath hrest]
    exact h.behind_path hpath
  · rw [path_nameless fun t more heq => Bool.eq_false_iff.mpr fun ht => hfront ⟨t, more, heq, ht⟩]
    exact h

theorem IsGroup.inside_brackets (h : IsGroup d group) (hash : Token) :
    Inside d ((hash :: group).drop 2).dropLast := by
  obtain ⟨-, hbody, -⟩ := h
  simpa using hbody

end Token

open Token

-- ---------------------------------------------------------------------------
-- Arguments of attributes
-- ---------------------------------------------------------------------------

variable {hash next : Token} {ts after group : List Token} {e : ParseError}

theorem Attribute.exists_argsLength (hgroup : IsGroup .bracket group)
    (hrest : (Token.path ((hash :: group).drop 2).dropLast).2 = next :: after) (hnext : next.isPunct "(") :
    ∃ n, groupLength? (next :: after) = some n := by
  have hinside := (hgroup.inside_brackets hash).path_rest
  rw [hrest] at hinside
  exact hinside.exists_groupLength (e := .paren) hnext

/-- Whatever is wrong between closed brackets, it is not an open group. -/
theorem Attribute.parse_not_isUnclosed {first : Nat} (hgroup : IsGroup .bracket group)
    (h : Attribute.parse first (hash :: group) = .error e) : e.isUnclosed = false := by
  have hargs : ∀ next after, (Token.path ((hash :: group).drop 2).dropLast).2 = next :: after →
      next.isPunct "(" → ∃ n, groupLength? (next :: after) = some n :=
    fun _ _ => Attribute.exists_argsLength hgroup
  unfold Attribute.parse at h
  generalize Token.path ((hash :: group).drop 2).dropLast = read at h hargs
  obtain ⟨name, rest⟩ := read
  simp only at h hargs
  split at h
  · cases h
    rfl
  · split at h
    · cases h
    · rename_i next after
      cases hnext : next.isPunct "(" with
      | false =>
        rw [hnext] at h
        cases h
        rfl
      | true =>
        obtain ⟨n, hn⟩ := hargs next after rfl hnext
        simp only [hnext, hn, Bool.not_true, Bool.false_eq_true, if_false] at h
        split at h <;> cases h
        rfl

/-- An open group is always the brackets of an attribute. -/
theorem Item.attributesOnto_isUnclosed {done : List Attribute} {at_ : Nat} {ts : List Token}
    (h : attributesOnto done at_ ts = .error e) (hopen : e.isUnclosed) :
    ∃ place, e = .attributeUnclosed place := by
  fun_induction attributesOnto done at_ ts with
  | case1 | case2 =>
    cases h
    cases hopen
  | case3 | case6 => cases h
  | case4 =>
    cases h
    exact ⟨_, rfl⟩
  | case5 done at_ hash bracket rest hstart n hlength ih =>
    simp only [Bool.and_eq_true] at hstart
    obtain ⟨group, more, hsplit, hgroup, rfl⟩ := groupLength?_sound (d := .bracket) hstart.2 hlength
    cases hparse : Attribute.parse at_ (hash :: (bracket :: rest).take group.length) with
    | error e' =>
      -- the brackets are closed, so something else is wrong between them
      rw [hparse] at h
      cases h
      rw [hsplit, List.take_left] at hparse
      cases hopen.symm.trans (Attribute.parse_not_isUnclosed hgroup hparse)
    | ok a =>
      rw [hparse] at h
      exact ih a h

theorem Item.parse_isUnclosed {file : FileId} {base : Offset} {text : Text}
    (h : Item.parse file base text = .error e) (hopen : e.isUnclosed) :
    ∃ place, e = .attributeUnclosed place := by
  unfold Item.parse ofTokens at h
  generalize beforeEnd (lex file base text) = ts at h
  cases hread : attributesOnto [] 0 ts with
  | error e' =>
    rw [hread] at h
    cases h
    exact attributesOnto_isUnclosed hread hopen
  | ok attributes =>
    rw [hread] at h
    cases h

/-- A group is a delimiter, elements and the delimiter that closes it. From a token that opens a group,
the end is found exactly where the tokens up to it are one whole group; there is one such end at most,
and without one none is found. Behind the path of an attribute with closed brackets, arguments that are
opened have an end, so no text is refused for want of it. -/
theorem Item.groups_end :
    (∀ (d : Delimiter) (ts : List Token), IsGroup d ts ↔
      ∃ (o : Token) (elements : List (List Token)) (c : Token), ts = o :: (elements.flatten ++ [c]) ∧
        o.isPunct d.opening ∧ (∀ part ∈ elements, IsElement d part) ∧ c.isPunct d.closing) ∧
    (∀ (ts : List Token) (first : Nat),
      (∃ (o : Token) (d : Delimiter), ts[first]? = some o ∧ o.isPunct d.opening) →
        (∀ last, groupEnd? ts first = some last ↔ GroupAt ts first last) ∧
        (∀ last last', GroupAt ts first last → GroupAt ts first last' → last = last') ∧
        (groupEnd? ts first = none ↔ ¬ ∃ last, GroupAt ts first last)) ∧
    (∀ (hash bracket next : Token) (rest after : List Token) (n : Nat), bracket.isPunct "[" →
      groupLength? (bracket :: rest) = some n →
      (Token.path ((hash :: (bracket :: rest).take n).drop 2).dropLast).2 = next :: after →
      next.isPunct "(" → ∃ m, groupLength? (next :: after) = some m) ∧
    ∀ (file : FileId) (base : Offset) (text name : Text),
      Item.parse file base text ≠ .error (.attributeArgsUnclosed name) := by
  refine ⟨fun _ _ => isGroup_iff, ?_, ?_, ?_⟩
  · rintro ts first ⟨o, d, ho, hd⟩
    have hend (last : Nat) : groupEnd? ts first = some last ↔ GroupAt ts first last :=
      groupEnd?_eq_some ho hd
    refine ⟨hend, fun last last' h h' => ?_, ?_⟩
    · exact Option.some.inj (((hend last).mpr h).symm.trans ((hend last').mpr h'))
    · simp only [Option.eq_none_iff_forall_ne_some, ne_eq, hend, not_exists]
  · intro hash bracket next rest after n hbracket hn hrest hnext
    obtain ⟨group, more, hsplit, hgroup, rfl⟩ := groupLength?_sound (d := .bracket) hbracket hn
    rw [hsplit, List.take_left] at hrest
    exact Attribute.exists_argsLength hgroup hrest hnext
  · intro file base text name h
    obtain ⟨place, hplace⟩ := Item.parse_isUnclosed h rfl
    cases hplace

/-- A bracket in the arguments closes nothing. -/
def strayed : List Token :=
  beforeEnd (lex 1 0 "#[a(])] x")

theorem Item.groups_end_stray :
    groupEnd? strayed 1 = some 6 ∧ GroupAt strayed 1 6 ∧ (∀ last, GroupAt strayed 1 last → last = 6) ∧
      (Token.path ((strayed.take 7).drop 2).dropLast).2 = (strayed.drop 3).take 3 ∧
      ∃ n, groupLength? ((strayed.drop 3).take 3) = some n := by
  have hopener : ∃ (o : Token) (d : Delimiter), strayed[1]? = some o ∧ o.isPunct d.opening :=
    ⟨strayed.getD 1 default, .bracket, by decide +kernel, by decide +kernel⟩
  have hend : groupEnd? strayed 1 = some 6 := by decide +kernel
  obtain ⟨hfound, hsingle, -⟩ := groups_end.2.1 strayed 1 hopener
  have hgroup := (hfound 6).mp hend
  have hargs : (strayed.drop 3).take 3 = strayed.getD 3 default :: (strayed.drop 4).take 2 := by
    decide +kernel
  refine ⟨hend, hgroup, fun last hlast => hsingle last 6 hlast hgroup, by decide +kernel, ?_⟩
  rw [hargs]
  exact groups_end.2.2.1 (strayed.getD 0 default) (strayed.getD 1 default) (strayed.getD 3 default)
    (strayed.drop 2) ((strayed.drop 4).take 2) 6 (by decide +kernel) (by decide +kernel)
    (by decide +kernel) (by decide +kernel)

end MacroRelay
