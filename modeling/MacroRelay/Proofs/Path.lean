import MacroRelay.Path

/-!
# Clean paths as lists of names

An absolute path is cleaned to `rooted names`, where every name is plain: not empty, without
slashes, neither `.` nor `..`. Cleaning, joining and going to the parent are then operations
on the list of names.
-/

namespace MacroRelay

-- ---------------------------------------------------------------------------
-- Cutting at a byte
-- ---------------------------------------------------------------------------

namespace Text

theorem splitAt_nil (b : UInt8) : splitAt b [] = [[]] := rfl

theorem splitAt_cons_self (b : UInt8) (t : Text) : splitAt b (b :: t) = [] :: splitAt b t := by
  simp [splitAt]

theorem splitAt_cons_ne {b c : UInt8} (h : c ≠ b) {t first : Text} {rest : List Text}
    (ht : splitAt b t = first :: rest) : splitAt b (c :: t) = (c :: first) :: rest := by
  simp only [splitAt, List.foldr_cons, h, if_false, List.cons.injEq, true_and] at ht ⊢
  exact ht

theorem splitAt_ne_nil (b : UInt8) (t : Text) : splitAt b t ≠ [] := by
  simp [splitAt]

theorem splitAt_append (b : UInt8) (s t : Text) :
    splitAt b (s ++ b :: t) = splitAt b s ++ splitAt b t := by
  induction s with
  | nil => rw [splitAt_nil]; exact splitAt_cons_self b t
  | cons c s ih =>
    by_cases h : c = b
    · subst h
      rw [List.cons_append, splitAt_cons_self, splitAt_cons_self, ih, List.cons_append]
    · obtain ⟨first, rest, hs⟩ := List.exists_cons_of_ne_nil (splitAt_ne_nil b s)
      have hst : splitAt b (s ++ b :: t) = first :: (rest ++ splitAt b t) := by
        rw [ih, hs, List.cons_append]
      rw [List.cons_append, splitAt_cons_ne h hst, splitAt_cons_ne h hs, List.cons_append]

theorem splitAt_of_not_mem {b : UInt8} {t : Text} (h : b ∉ t) : splitAt b t = [t] := by
  induction t with
  | nil => rfl
  | cons c t ih =>
    have hc : c ≠ b := fun hc => h (hc ▸ List.mem_cons_self)
    exact splitAt_cons_ne hc (ih fun ht => h (List.mem_cons_of_mem _ ht))

theorem not_mem_splitAt {b : UInt8} {t part : Text} (h : part ∈ splitAt b t) : b ∉ part := by
  induction t generalizing part with
  | nil => simp_all [splitAt_nil]
  | cons c t ih =>
    by_cases hc : c = b
    · subst hc
      rw [splitAt_cons_self] at h
      rcases List.mem_cons.mp h with rfl | h
      · exact List.not_mem_nil
      · exact ih h
    · obtain ⟨first, rest, ht⟩ := List.exists_cons_of_ne_nil (splitAt_ne_nil b t)
      rw [splitAt_cons_ne hc ht] at h
      rw [ht] at ih
      rcases List.mem_cons.mp h with rfl | h
      · have hfirst := ih List.mem_cons_self
        simp [hfirst, Ne.symm hc]
      · exact ih (List.mem_cons_of_mem _ h)

end Text

namespace Path

-- ---------------------------------------------------------------------------
-- Parts
-- ---------------------------------------------------------------------------

/-- What cleaning keeps of a path as it stands, if it does not lead upwards. -/
def Part (t : Text) : Prop := t ≠ [] ∧ slash ∉ t ∧ t ≠ Text.ofString "."

instance (t : Text) : Decidable (Part t) := by unfold Part; infer_instance

def Plain (t : Text) : Prop := Part t ∧ t ≠ Text.ofString ".."

instance (t : Text) : Decidable (Plain t) := by unfold Plain; infer_instance

theorem part_of_mem {p part : Text} (h : part ∈ parts p) : Part part := by
  obtain ⟨hm, hp⟩ := List.mem_filter.mp h
  simp only [bne_iff_ne, Bool.and_eq_true, ne_eq] at hp
  exact ⟨hp.1, Text.not_mem_splitAt hm, hp.2⟩

theorem parts_nil : parts [] = [] := rfl

theorem parts_append (s t : Text) : parts (s ++ slash :: t) = parts s ++ parts t := by
  rw [parts, Text.splitAt_append, List.filter_append]
  rfl

theorem parts_slash (t : Text) : parts (slash :: t) = parts t := by
  rw [← List.nil_append (slash :: t), parts_append, parts_nil, List.nil_append]

theorem parts_part {t : Text} (h : Part t) : parts t = [t] := by
  obtain ⟨hne, hslash, hdot⟩ := h
  rw [parts, Text.splitAt_of_not_mem hslash]
  simp [hne, hdot]

theorem parts_joined {ps : List Text} (h : ∀ p ∈ ps, Part p) :
    parts (Text.joined [slash] ps) = ps := by
  match ps with
  | [] => rfl
  | [p] =>
    have hp := h p List.mem_cons_self
    simpa [Text.joined, List.intercalate] using parts_part hp
  | p :: q :: ps =>
    have hp := parts_part (h p List.mem_cons_self)
    have hrest : parts (Text.joined [slash] (q :: ps)) = q :: ps :=
      parts_joined fun x hx => h x (List.mem_cons_of_mem _ hx)
    have hj : Text.joined [slash] (p :: q :: ps) = p ++ slash :: Text.joined [slash] (q :: ps) := by
      rw [Text.joined, List.intercalate_cons_cons, List.append_assoc, List.singleton_append,
        Text.joined]
    rw [hj, parts_append, hp, hrest, List.singleton_append]

def rooted (names : List Text) : Text := slash :: Text.joined [slash] names

theorem parts_rooted {names : List Text} (h : ∀ n ∈ names, Part n) :
    parts (rooted names) = names := by
  rw [rooted, parts_slash, parts_joined h]

theorem isAbsolute_rooted (names : List Text) : isAbsolute (rooted names) = true := rfl

theorem rooted_ne_nil (names : List Text) : rooted names ≠ [] := List.cons_ne_nil _ _

theorem clean_of_isAbsolute {p : Text} (h : isAbsolute p = true) :
    clean p = rooted ((parts p).foldl (keep true) []).reverse := by
  simp [clean, h, rooted]

theorem isAbsolute_append {s t : Text} (hs : isAbsolute s = true) : isAbsolute (s ++ t) = true := by
  cases s with
  | nil => cases hs
  | cons b s => exact hs

theorem keep_plain {r : Bool} {kept : List Text} {part : Text} (h : Plain part) :
    keep r kept part = part :: kept := by
  simp [keep, h.2]

theorem foldl_keep_plain {r : Bool} {names kept : List Text} (h : ∀ n ∈ names, Plain n) :
    names.foldl (keep r) kept = names.reverse ++ kept := by
  induction names generalizing kept with
  | nil => rfl
  | cons n names ih =>
    rw [List.foldl_cons, keep_plain (h n List.mem_cons_self),
      ih fun m hm => h m (List.mem_cons_of_mem _ hm)]
    simp

theorem keep_all_plain {kept : List Text} {part : Text} (hk : ∀ n ∈ kept, Plain n)
    (hp : Part part) : ∀ n ∈ keep true kept part, Plain n := by
  unfold keep
  split
  · split
    · simp
    · rename_i last outer
      rw [if_neg (hk last List.mem_cons_self).2]
      exact fun n hn => hk n (List.mem_cons_of_mem _ hn)
  · rename_i hup
    intro n hn
    rcases List.mem_cons.mp hn with rfl | hn
    · exact ⟨hp, hup⟩
    · exact hk n hn

theorem foldl_keep_all_plain {ps kept : List Text} (hk : ∀ n ∈ kept, Plain n)
    (hp : ∀ p ∈ ps, Part p) : ∀ n ∈ ps.foldl (keep true) kept, Plain n := by
  induction ps generalizing kept with
  | nil => exact hk
  | cons p ps ih =>
    exact ih (keep_all_plain hk (hp p List.mem_cons_self))
      fun q hq => hp q (List.mem_cons_of_mem _ hq)

theorem clean_append_slash {names : List Text} (h : ∀ n ∈ names, Plain n) (t : Text) :
    clean (rooted names ++ slash :: t) =
      rooted ((parts t).foldl (keep true) names.reverse).reverse := by
  rw [clean_of_isAbsolute (isAbsolute_append (isAbsolute_rooted names)), parts_append,
    parts_rooted fun n hn => (h n hn).1, List.foldl_append, foldl_keep_plain h, List.append_nil]

theorem join_pair {s t : Text} (hs : s ≠ []) (ht : t ≠ []) :
    join [s, t] = clean (s ++ slash :: t) := by
  simp [join, hs, ht, Text.joined, List.intercalate]

theorem join_rooted {names : List Text} (h : ∀ n ∈ names, Plain n) (t : Text) :
    join [rooted names, t] = rooted ((parts t).foldl (keep true) names.reverse).reverse := by
  cases t with
  | nil =>
    have hclean := clean_of_isAbsolute (isAbsolute_rooted names)
    rw [parts_rooted fun n hn => (h n hn).1, foldl_keep_plain h, List.append_nil] at hclean
    simpa [join, rooted_ne_nil, Text.joined, List.intercalate, parts_nil] using hclean
  | cons b t => rw [join_pair (rooted_ne_nil names) (List.cons_ne_nil b t), clean_append_slash h]

-- ---------------------------------------------------------------------------
-- The last name
-- ---------------------------------------------------------------------------

theorem rooted_cons_cons (n m : Text) (names : List Text) :
    rooted (n :: m :: names) = slash :: n ++ rooted (m :: names) := by
  rw [rooted, Text.joined, List.intercalate_cons_cons, List.append_assoc, List.singleton_append]
  rfl

theorem rooted_concat {names : List Text} (h : names ≠ []) (n : Text) :
    rooted (names ++ [n]) = rooted names ++ slash :: n := by
  match names with
  | [m] => simp [rooted, Text.joined, List.intercalate]
  | m :: k :: names =>
    have ih := rooted_concat (List.cons_ne_nil k names) n
    rw [List.cons_append, List.cons_append, rooted_cons_cons, ← List.cons_append, ih,
      rooted_cons_cons, List.append_assoc]

theorem rooted_last (names : List Text) (n : Text) :
    ∃ s, rooted (names ++ [n]) = s ++ slash :: n ∧ clean (s ++ [slash]) = clean (rooted names) := by
  cases names with
  | nil => exact ⟨[], by simp [rooted, Text.joined, List.intercalate], rfl⟩
  | cons m names =>
    refine ⟨rooted (m :: names), rooted_concat (List.cons_ne_nil _ _) n, ?_⟩
    have habs := isAbsolute_rooted (m :: names)
    rw [clean_of_isAbsolute (isAbsolute_append habs), clean_of_isAbsolute habs, parts_append,
      parts_nil, List.append_nil]

theorem takeWhile_name {n s : Text} (h : slash ∉ n) :
    (n ++ slash :: s).takeWhile (· != slash) = n ∧
      (n ++ slash :: s).dropWhile (· != slash) = slash :: s := by
  have hall : ∀ b ∈ n, (b != slash) = true := fun b hb => bne_iff_ne.mpr fun heq => h (heq ▸ hb)
  rw [List.takeWhile_append_of_pos hall, List.dropWhile_append_of_pos hall]
  simp

theorem parent_append {n : Text} (h : slash ∉ n) (s : Text) :
    parent (s ++ slash :: n) = clean (s ++ [slash]) := by
  have hd := (takeWhile_name (s := s.reverse) (n := n.reverse) (by simpa using h)).2
  simp [parent, hd]

theorem fileName_append {n : Text} (h : slash ∉ n) (s : Text) : fileName (s ++ slash :: n) = n := by
  have ht := (takeWhile_name (s := s.reverse) (n := n.reverse) (by simpa using h)).1
  simp [fileName, ht]

theorem fileName_rooted {names : List Text} {n : Text} (h : slash ∉ n) :
    fileName (rooted (names ++ [n])) = n := by
  obtain ⟨s, hs, -⟩ := rooted_last names n
  rw [hs, fileName_append h]

theorem clean_rooted {names : List Text} (h : ∀ n ∈ names, Plain n) :
    clean (rooted names) = rooted names := by
  rw [clean_of_isAbsolute (isAbsolute_rooted names), parts_rooted fun n hn => (h n hn).1,
    foldl_keep_plain h, List.append_nil, List.reverse_reverse]

theorem parent_rooted {names : List Text} (h : ∀ n ∈ names, Plain n) :
    parent (rooted names) = rooted names.dropLast := by
  rcases List.eq_nil_or_concat names with rfl | ⟨front, n, rfl⟩
  · rfl
  · obtain ⟨s, hs, hclean⟩ := rooted_last front n
    rw [List.concat_eq_append] at h ⊢
    rw [hs, parent_append (h n (by simp)).1.2.1, hclean, List.dropLast_concat,
      clean_rooted fun m hm => h m (by simp [hm])]

theorem foldl_keep_part {r : Bool} {ps kept : List Text} (hk : ∀ n ∈ kept, Part n)
    (hp : ∀ p ∈ ps, Part p) : ∀ n ∈ ps.foldl (keep r) kept, Part n := by
  refine List.foldlRecOn (motive := fun kept : List Text => ∀ n ∈ kept, Part n) _ _ hk ?_
  intro kept hk part hm
  unfold keep
  split
  · split
    · split
      · simp
      · simpa using hp part hm
    · rename_i last outer
      split
      · exact List.forall_mem_cons.mpr ⟨hp part hm, hk⟩
      · exact fun n hn => hk n (List.mem_cons_of_mem _ hn)
  · exact List.forall_mem_cons.mpr ⟨hp part hm, hk⟩

theorem parts_clean (p : Text) :
    parts (clean p) = ((parts p).foldl (keep (isAbsolute p)) []).reverse := by
  have hkept : ∀ n ∈ ((parts p).foldl (keep (isAbsolute p)) []).reverse, Part n :=
    fun n hn => foldl_keep_part (by simp) (fun q => part_of_mem) n (List.mem_reverse.mp hn)
  cases habs : isAbsolute p with
  | true =>
    rw [clean_of_isAbsolute habs, parts_rooted (habs ▸ hkept)]
  | false =>
    rw [habs] at hkept
    have hjoined := parts_joined hkept
    simp only [clean, habs, Bool.false_eq_true, if_false]
    split
    · rename_i hempty
      rw [hempty] at hjoined
      rw [← hjoined]
      rfl
    · exact hjoined

theorem clean_ne_nil (p : Text) : clean p ≠ [] := by
  simp only [clean]
  split
  · exact List.cons_ne_nil _ _
  · split
    · decide
    · assumption

theorem isAbsolute_joined {ps : List Text} (h : ∀ p ∈ ps, Part p) :
    isAbsolute (Text.joined [slash] ps) = false := by
  match ps with
  | [] => rfl
  | p :: ps =>
    obtain ⟨hne, hslash, -⟩ := h p List.mem_cons_self
    obtain ⟨b, p, rfl⟩ := List.exists_cons_of_ne_nil hne
    have hb : b ≠ slash := fun hb => hslash (hb ▸ List.mem_cons_self)
    cases ps <;> simp [isAbsolute, Text.joined, List.intercalate, hb]

theorem isAbsolute_clean (p : Text) : isAbsolute (clean p) = isAbsolute p := by
  cases habs : isAbsolute p with
  | true => rw [clean_of_isAbsolute habs, isAbsolute_rooted]
  | false =>
    have hkept : ∀ n ∈ ((parts p).foldl (keep false) []).reverse, Part n :=
      fun n hn => foldl_keep_part (by simp) (fun q => part_of_mem) n (List.mem_reverse.mp hn)
    simp only [clean, habs, Bool.false_eq_true, if_false]
    split
    · rfl
    · exact isAbsolute_joined hkept

theorem foldl_keep_reverse {r : Bool} (ps : List Text) :
    (ps.foldl (keep r) []).reverse.foldl (keep r) [] = ps.foldl (keep r) [] := by
  refine List.foldlRecOn (motive := fun kept : List Text => kept.reverse.foldl (keep r) [] = kept)
    _ _ rfl ?_
  intro kept hkept part _
  have hadd (h : keep r kept part = part :: kept) :
      (keep r kept part).reverse.foldl (keep r) [] = keep r kept part := by
    rw [h, List.reverse_cons, List.foldl_append, hkept]
    exact h
  by_cases hup : part = Text.ofString ".."
  · cases kept with
    | nil =>
      cases r with
      | false => exact hadd (by simp [keep, hup])
      | true => simp [keep, hup]
    | cons last outer =>
      by_cases hlast : last = Text.ofString ".."
      · exact hadd (by simp [keep, hup, hlast])
      · have hout : keep r (last :: outer) part = outer := by simp [keep, hup, hlast]
        rw [hout]
        rw [List.reverse_cons, List.foldl_append, List.foldl_cons, List.foldl_nil] at hkept
        simpa [keep, hlast] using hkept
  · exact hadd (by simp [keep, hup])

theorem clean_clean (p : Text) : clean (clean p) = clean p := by
  have hkept : (parts (clean p)).foldl (keep (isAbsolute p)) [] =
      (parts p).foldl (keep (isAbsolute p)) [] := by
    rw [parts_clean, foldl_keep_reverse]
  rw [clean, isAbsolute_clean, hkept]
  rfl

theorem join_plain (s : Text) {names : List Text} (hne : names ≠ []) (h : ∀ n ∈ names, Plain n) :
    parts (join (s :: names)) = parts (clean s) ++ names ∧
      isAbsolute (join (s :: names)) = isAbsolute (clean s) := by
  have hall : names.filter (· != []) = names :=
    List.filter_eq_self.mpr fun n hn => bne_iff_ne.mpr (h n hn).1.1
  obtain ⟨n, rest, rfl⟩ := List.exists_cons_of_ne_nil hne
  have hjoined := parts_joined fun m hm => (h m hm).1
  have habs := isAbsolute_joined fun m hm => (h m hm).1
  by_cases hs : s = []
  · subst hs
    have hjoin : join ([] :: n :: rest) = clean (Text.joined [slash] (n :: rest)) := by
      rw [join, List.filter_cons_of_neg (by simp), hall]
    rw [hjoin, parts_clean, isAbsolute_clean, hjoined, habs, foldl_keep_plain h]
    exact ⟨by simp [show parts (clean []) = [] by decide], rfl⟩
  · have hjoin : join (s :: n :: rest) = clean (s ++ slash :: Text.joined [slash] (n :: rest)) := by
      have hkept : (s != []) = true := bne_iff_ne.mpr hs
      rw [join, List.filter_cons_of_pos (by exact hkept), hall]
      simp [Text.joined, List.intercalate]
    have hfront : isAbsolute (s ++ slash :: Text.joined [slash] (n :: rest)) = isAbsolute s := by
      obtain ⟨b, s, rfl⟩ := List.exists_cons_of_ne_nil hs
      rfl
    rw [hjoin, parts_clean, isAbsolute_clean, isAbsolute_clean, hfront, parts_append, hjoined,
      List.foldl_append, foldl_keep_plain h, parts_clean]
    exact ⟨by simp, rfl⟩

theorem join_plain_name (s : Text) {n : Text} (h : Plain n) :
    parts (join [s, n]) = parts (clean s) ++ [n] ∧
      isAbsolute (join [s, n]) = isAbsolute (clean s) :=
  join_plain s (List.cons_ne_nil n []) (by simpa using h)

theorem clean_join {elements : List Text} (h : join elements ≠ []) :
    clean (join elements) = join elements := by
  unfold join at h ⊢
  split
  · rename_i hnil
    simp [hnil] at h
  · exact clean_clean _

theorem join_ne_nil {elements : List Text} {e : Text} (he : e ∈ elements) (hne : e ≠ []) :
    join elements ≠ [] := by
  have hm : e ∈ elements.filter (· != []) := List.mem_filter.mpr ⟨he, bne_iff_ne.mpr hne⟩
  unfold join
  split
  · rename_i hnil
    rw [hnil] at hm
    cases hm
  · exact clean_ne_nil _

theorem joined_concat {names : List Text} (h : names ≠ []) (n : Text) :
    Text.joined [slash] (names ++ [n]) = Text.joined [slash] names ++ slash :: n :=
  (List.cons.inj (rooted_concat h n)).2

theorem join_clean {s n : Text} (hs : clean s = s) (hparts : parts s ≠ []) (hn : Plain n) :
    join [s, n] = s ++ slash :: n := by
  have hne : s ≠ [] := by
    rintro rfl
    exact hparts rfl
  have habs : isAbsolute (s ++ slash :: n) = isAbsolute s := by
    obtain ⟨b, s, rfl⟩ := List.exists_cons_of_ne_nil hne
    rfl
  have hkept : parts s = ((parts s).foldl (keep (isAbsolute s)) []).reverse := by
    rw [← parts_clean, hs]
  have hbody : Text.joined [slash] (parts s) ≠ [] := by
    intro hempty
    have hjoined := parts_joined fun p hp => part_of_mem (p := s) hp
    rw [hempty] at hjoined
    exact hparts hjoined.symm
  have hall : ((parts (s ++ slash :: n)).foldl (keep (isAbsolute s)) []).reverse =
      parts s ++ [n] := by
    rw [parts_append, parts_part hn.1, List.foldl_append, List.foldl_cons, List.foldl_nil,
      keep_plain hn, List.reverse_cons, ← hkept]
  rw [join_pair hne hn.1.1]
  conv => rhs; rw [← hs]
  simp only [clean, habs, hall, joined_concat hparts, ← hkept]
  split
  · rfl
  · simp [hbody]

end Path

end MacroRelay
