import MacroRelay.Proofs.Lists
import MacroRelay.Proofs.Session.Errand
import MacroRelay.Proofs.Session.Fleet
import Mathlib.Data.List.Nodup
import Mathlib.Data.List.Perm.Subperm

/-!
# Many callers and one call

Any number of callers share one session, and their errands move in any order. As long as the memo
forgets nothing, the server answers every digest at most once: whoever asks for it again finds the
answer in the memo, or waits for the flight that will put it there. A caller may have missed the
memo, been overtaken by a whole flight, and lead a flight of its own; it looks into the memo again
before it asks.

What carries this is where the answer to a digest is. It is in the memo, or the leader of the only
open flight for the digest is about to put it there.
-/

namespace MacroRelay

-- ---------------------------------------------------------------------------
-- The memo
-- ---------------------------------------------------------------------------

theorem Memo.mem_get? {κ α : Type} [DecidableEq κ] {m m' : Memo κ α} {key : κ} {a : α}
    (h : m.get? key = some (a, m')) :
    (key, a) ∈ m.entries ∧ m' = { m with entries := (key, a) :: without m.entries key } := by
  obtain ⟨found, hl, heq⟩ := Option.map_eq_some_iff.mp h
  cases heq
  obtain ⟨l, r, hentries, -⟩ := List.lookup_eq_some_iff.mp hl
  exact ⟨by simp [hentries], rfl⟩

theorem Memo.get?_eq_none {κ α : Type} [DecidableEq κ] {m : Memo κ α} {key : κ}
    (h : m.get? key = none) (a : α) : (key, a) ∉ m.entries := by
  have hl := List.lookup_eq_none_iff.mp (Option.map_eq_none_iff.mp h)
  intro hmem
  have hne := hl _ hmem
  simp at hne

namespace Session

variable {s s' : Session} {m : Memo Digest Gen2.Result} {d : Digest}

theorem lookUp_some {r : Gen2.Result} (hm : s.memo = some m) (h : s.lookUp d = (s', some r)) :
    (d, r) ∈ m.entries ∧
      s' = { s with memo := some { m with entries := (d, r) :: Memo.without m.entries d } } := by
  unfold lookUp at h
  split at h
  · rename_i r m' hg
    rw [hm] at hg
    obtain ⟨hmem, rfl⟩ := Memo.mem_get? hg
    cases h
    exact ⟨hmem, rfl⟩
  · cases h

theorem lookUp_none (hm : s.memo = some m) (h : s.lookUp d = (s', none)) (r : Gen2.Result) :
    (d, r) ∉ m.entries := by
  unfold lookUp at h
  split at h
  · cases h
  · rename_i hg
    rw [hm] at hg
    exact Memo.get?_eq_none hg r

end Session

-- ---------------------------------------------------------------------------
-- Where answers are
-- ---------------------------------------------------------------------------

namespace Errand

variable {σ κ τ : Type}

def leads? (e : Errand κ τ) : Option Nat :=
  match e.stage with
  | .leading flight _ _ | .searching flight _ _ | .asking flight _ _ | .waiting flight _ _ _
  | .answered flight _ _ | .remembered flight _ _ | .found flight _ _ => some flight
  | _ => none

def isCalling (e : Errand κ τ) : Bool :=
  match e.stage with
  | .waiting .. => true
  | _ => false

/-- The answer that it has from the server and that is in no store yet. -/
def carried? (e : Errand κ τ) : Option (Digest × Gen2.Result) :=
  match e.stage with
  | .answered _ f r => some ((e.query f).digest, r)
  | _ => none

/-- It has found no answer in the memo and has none from the server yet. -/
def isSeeking (e : Errand κ τ) : Bool :=
  match e.stage with
  | .searching .. | .asking .. | .waiting .. => true
  | _ => false

end Errand

theorem Errand.leads?_of_isSeeking {κ τ : Type} {e : Errand κ τ} (h : e.isSeeking) :
    ∃ n, e.leads? = some n := by
  obtain ⟨g, x, work, stage⟩ := e
  cases stage with
  | searching n _ _ | asking n _ _ | waiting n _ _ _ => exact ⟨n, rfl⟩
  | _ => cases h

theorem Errand.isSeeking_of_isCalling {κ τ : Type} {e : Errand κ τ} (h : e.isCalling) :
    e.isSeeking := by
  obtain ⟨g, x, work, stage⟩ := e
  cases stage with
  | waiting _ _ _ _ => rfl
  | _ => cases h

abbrev Answers := List (Digest × Gen2.Result)

section Accounts

variable {κ τ : Type}

def Aloft (flights : List Flight) (n : Nat) (d : Digest) : Prop :=
  flights[n]? = some ⟨d, none⟩

theorem Hall.flight?_eq_none {σ κ : Type} {h : Hall σ κ} {d : Digest} (hd : h.flight? d = none)
    (n : Nat) : ¬ Aloft h.flights n d := by
  intro hn
  have hno := List.findIdx?_eq_none_iff.mp hd _ (List.mem_of_getElem? hn)
  simp at hno

theorem Hall.flight?_eq_some {σ κ : Type} {h : Hall σ κ} {d : Digest} {n : Nat}
    (hn : h.flight? d = some n) : ∃ landed, h.flights[n]? = some ⟨d, landed⟩ := by
  obtain ⟨hlt, hflight, -⟩ := List.findIdx?_eq_some_iff_getElem.mp hn
  simp only [Bool.and_eq_true, decide_eq_true_eq] at hflight
  refine ⟨h.flights[n].landed, ?_⟩
  rw [List.getElem?_eq_getElem hlt, ← hflight.2]

/-- What an errand knows, wherever it is. -/
def Errand.Informed (f : Text) (flights : List Flight) (entries answers : Answers)
    (e : Errand κ τ) : Prop :=
  let d := (e.query f).digest
  match e.stage with
  | .begun | .connected _ | .returned none => True
  | .keyed _ f' | .missed _ f' => f' = f
  | .leading n _ f' => f' = f ∧ Aloft flights n d
  | .searching n _ f' | .asking n _ f' | .waiting n _ f' _ =>
    f' = f ∧ Aloft flights n d ∧ d ∉ answers.map Prod.fst
  | .answered n f' r => f' = f ∧ Aloft flights n d ∧ (d, r) ∈ answers
  | .remembered n f' r => f' = f ∧ Aloft flights n d ∧ (d, r) ∈ entries
  | .found .. => False
  | .aboard n => ∃ landed, flights[n]? = some (Flight.mk d landed)
  | .returned (some r) => (d, r) ∈ answers

theorem Errand.Informed.aloft {f : Text} {flights : List Flight} {entries answers : Answers}
    {e : Errand κ τ} (h : e.Informed f flights entries answers) {n : Nat}
    (hn : e.leads? = some n) : Aloft flights n (e.query f).digest := by
  obtain ⟨g, x, work, stage⟩ := e
  cases stage with
  | begun | connected _ | keyed _ _ | missed _ _ | aboard _ | returned _ => cases hn
  | leading _ _ _ => cases hn; exact h.2
  | searching _ _ _ | asking _ _ _ | waiting _ _ _ _ | answered _ _ _ | remembered _ _ _ =>
    cases hn
    exact h.2.1
  | found _ _ _ => exact h.elim

theorem Errand.Informed.aloft_of_carried {f : Text} {flights : List Flight}
    {entries answers : Answers} {e : Errand κ τ} (h : e.Informed f flights entries answers)
    {p : Digest × Gen2.Result} (hp : e.carried? = some p) :
    ∃ n, e.leads? = some n ∧ Aloft flights n p.1 := by
  obtain ⟨g, x, work, stage⟩ := e
  cases stage with
  | answered n f' r =>
    obtain ⟨rfl, hn, -⟩ := h
    cases hp
    exact ⟨n, rfl, hn⟩
  | _ => cases hp

theorem Errand.Informed.frame {f : Text} {flights flights' : List Flight}
    {entries entries' answers answers' : Answers} {e : Errand κ τ}
    (h : e.Informed f flights entries answers)
    (hlead : ∀ (n : Nat), e.leads? = some n → flights'[n]? = flights[n]?)
    (hdigest : ∀ (n : Nat) d l, flights[n]? = some (Flight.mk d l) →
      ∃ l', flights'[n]? = some (Flight.mk d l'))
    (hentries : entries ⊆ entries') (hanswers : answers ⊆ answers')
    (hseek : e.isSeeking → (e.query f).digest ∉ answers.map Prod.fst →
      (e.query f).digest ∉ answers'.map Prod.fst) :
    e.Informed f flights' entries' answers' := by
  obtain ⟨g, x, work, stage⟩ := e
  cases stage with
  | begun | connected _ => trivial
  | keyed _ _ | missed _ _ => exact h
  | leading n _ _ => exact ⟨h.1, (hlead n rfl).trans h.2⟩
  | searching n _ _ | asking n _ _ | waiting n _ _ _ =>
    exact ⟨h.1, (hlead n rfl).trans h.2.1, hseek rfl h.2.2⟩
  | answered n _ r => exact ⟨h.1, (hlead n rfl).trans h.2.1, hanswers h.2.2⟩
  | remembered n _ r => exact ⟨h.1, (hlead n rfl).trans h.2.1, hentries h.2.2⟩
  | found _ _ _ => exact h
  | aboard n =>
    obtain ⟨landed, hn⟩ := h
    exact hdigest n _ landed hn
  | returned answer =>
    cases answer with
    | none => trivial
    | some r => exact hanswers h

/-- Where the answers are that the server has given. -/
structure Accounts (f : Text) (flights : List Flight) (entries answers : Answers)
    (callers : List (Errand κ τ)) : Prop where
  distinct : (answers.map Prod.fst).Nodup
  entries_nodup : entries.Nodup
  entries_subset : entries ⊆ answers
  kept : ∀ p ∈ answers, p ∈ entries ∨
    ∃ (i : Nat) (e : Errand κ τ), callers[i]? = some e ∧ e.carried? = some p
  open_unique : ∀ {n n' : Nat} {d : Digest}, Aloft flights n d →
    Aloft flights n' d → n = n'
  leader_unique : ∀ {i j n : Nat} {e e' : Errand κ τ}, callers[i]? = some e →
    callers[j]? = some e' → e.leads? = some n → e'.leads? = some n → i = j
  landed : ∀ (n : Nat) (d : Digest) r, flights[n]? = some (Flight.mk d (some (.ok r))) →
    (d, r) ∈ answers
  informed : ∀ (i : Nat) (e : Errand κ τ), callers[i]? = some e →
    e.Informed f flights entries answers

namespace Accounts

variable {f : Text} {flights flights' : List Flight} {entries entries' answers : Answers}
  {callers : List (Errand κ τ)} {i : Nat} {e e' : Errand κ τ}

theorem carried_set {p : Digest × Gen2.Result} (hi : callers[i]? = some e)
    (hnot : e.carried? ≠ some p)
    (h : ∃ (j : Nat) (e₁ : Errand κ τ), callers[j]? = some e₁ ∧ e₁.carried? = some p) :
    ∃ (j : Nat) (e₁ : Errand κ τ), (callers.set i e')[j]? = some e₁ ∧ e₁.carried? = some p := by
  obtain ⟨j, e₁, hj, hp⟩ := h
  have hij : i ≠ j := by
    rintro rfl
    cases hi.symm.trans hj
    exact hnot hp
  exact ⟨j, e₁, by rw [List.getElem?_set_ne hij, hj], hp⟩

theorem leader_set (h : Accounts f flights entries answers callers) (hi : callers[i]? = some e)
    (hleads : ∀ (n : Nat), e'.leads? = some n → e.leads? = some n ∨
      ∀ (j : Nat) (e₁ : Errand κ τ), callers[j]? = some e₁ → e₁.leads? ≠ some n)
    {j j' n : Nat} {e₁ e₂ : Errand κ τ} (hj : (callers.set i e')[j]? = some e₁)
    (hj' : (callers.set i e')[j']? = some e₂) (hn : e₁.leads? = some n) (hn' : e₂.leads? = some n) :
    j = j' := by
  rcases getElem?_set_eq_some hj with ⟨rfl, rfl⟩ | ⟨-, hj₁⟩ <;>
    rcases getElem?_set_eq_some hj' with ⟨rfl, rfl⟩ | ⟨-, hj₂⟩
  · rfl
  · rcases hleads n hn with hn | hfree
    · exact h.leader_unique hi hj₂ hn hn'
    · exact absurd hn' (hfree _ _ hj₂)
  · rcases hleads n hn' with hn' | hfree
    · exact h.leader_unique hj₁ hi hn hn'
    · exact absurd hn (hfree _ _ hj₁)
  · exact h.leader_unique hj₁ hj₂ hn hn'

theorem turn (h : Accounts f flights entries answers callers) (hi : callers[i]? = some e)
    (hother : ∀ (n : Nat), e.leads? ≠ some n → flights'[n]? = flights[n]?)
    (hdigest : ∀ (n : Nat) d l, flights[n]? = some (Flight.mk d l) →
      ∃ l', flights'[n]? = some (Flight.mk d l'))
    (hopen : ∀ (n : Nat) d, Aloft flights' n d → Aloft flights n d)
    (hlanded : ∀ (n : Nat) d r, flights'[n]? = some (Flight.mk d (some (.ok r))) → (d, r) ∈ answers)
    (hleads : ∀ n, e'.leads? = some n → e.leads? = some n)
    (hcarried : ∀ p, e.carried? = some p → p ∈ entries)
    (hinformed : e'.Informed f flights' entries answers) :
    Accounts f flights' entries answers (callers.set i e') where
  distinct := h.distinct
  entries_nodup := h.entries_nodup
  entries_subset := h.entries_subset
  kept p hp := by
    rcases h.kept p hp with hp | hp
    · exact .inl hp
    · by_cases hc : e.carried? = some p
      · exact .inl (hcarried p hc)
      · exact .inr (carried_set hi hc hp)
  open_unique hn hn' := h.open_unique (hopen _ _ hn) (hopen _ _ hn')
  leader_unique := h.leader_set hi fun n hn => .inl (hleads n hn)
  landed := hlanded
  informed j e₁ hj := by
    rcases getElem?_set_eq_some hj with ⟨rfl, rfl⟩ | ⟨hne, hj⟩
    · exact hinformed
    · refine (h.informed j e₁ hj).frame (fun n hn => hother n fun hn' => ?_) hdigest
        (List.Subset.refl _) (List.Subset.refl _) (fun _ hd => hd)
      exact hne (h.leader_unique hj hi hn hn')

theorem move (h : Accounts f flights entries answers callers) (hi : callers[i]? = some e)
    (hleads : e'.leads? = none ∨ e'.leads? = e.leads?) (hcarried : e.carried?.toList ⊆ entries)
    (hinformed : e'.Informed f flights entries answers) :
    Accounts f flights entries answers (callers.set i e') := by
  refine h.turn hi (fun _ _ => rfl) (fun _ _ l hn => ⟨l, hn⟩) (fun _ _ hn => hn) h.landed
    (fun n hn => ?_) (fun p hp => hcarried (by simp [hp])) hinformed
  rcases hleads with hnone | hsame
  · cases hnone.symm.trans hn
  · exact hsame ▸ hn

theorem land (h : Accounts f flights entries answers callers) (hi : callers[i]? = some e) {n : Nat}
    (hn : e.leads? = some n) {answer : Except CallError Gen2.Result}
    (hanswer : ∀ r, answer = .ok r → ((e.query f).digest, r) ∈ answers)
    (hcarried : e.carried? = none) :
    Accounts f (flights.modify n fun f => { f with landed := some answer }) entries answers
      (callers.set i (e.arrive (.aboard n))) := by
  have hflight : flights[n]? = some ⟨(e.query f).digest, none⟩ := (h.informed i e hi).aloft hn
  have hmodify (k : Nat) : (flights.modify n fun f => { f with landed := some answer })[k]? =
      if k = n then some (Flight.mk (e.query f).digest (some answer)) else flights[k]? := by
    rw [List.getElem?_modify]
    by_cases hk : k = n
    · subst hk
      rw [hflight]
      simp
    · simp [hk, Ne.symm hk]
  refine h.turn hi (fun k hk => ?_) (fun k d l hl => ?_) (fun k d hk => ?_) (fun k d r hk => ?_)
    nofun (fun _ hp => nomatch hcarried.symm.trans hp) ⟨some answer, ?_⟩
  · rw [hmodify, if_neg fun heq => hk (by rw [heq, hn])]
  · rw [hmodify]
    split
    · rename_i heq
      subst heq
      cases hflight.symm.trans hl
      exact ⟨_, rfl⟩
    · exact ⟨l, hl⟩
  · rw [Aloft, hmodify] at hk
    split at hk
    · cases hk
    · exact hk
  · rw [hmodify] at hk
    split at hk
    · cases hk
      exact hanswer r rfl
    · exact h.landed k d r hk
  · rw [hmodify, if_pos rfl]
    rfl

theorem lead (h : Accounts f flights entries answers callers) (hi : callers[i]? = some e)
    (hnone : ∀ (n : Nat), ¬ Aloft flights n (e.query f).digest) (client : κ)
    (hcarried : e.carried? = none) :
    Accounts f (flights ++ [⟨(e.query f).digest, none⟩]) entries answers
      (callers.set i (e.arrive (.leading flights.length client f))) := by
  have hold {n : Nat} {flight : Flight} (hn : flights[n]? = some flight) :
      (flights ++ [⟨(e.query f).digest, none⟩])[n]? = some flight := by
    rw [List.getElem?_append_left (List.getElem?_eq_some_iff.mp hn).1, hn]
  have hlength {j n : Nat} {e₁ : Errand κ τ} (hj : callers[j]? = some e₁)
      (hn : e₁.leads? = some n) : n < flights.length :=
    (List.getElem?_eq_some_iff.mp ((h.informed j e₁ hj).aloft hn)).1
  refine ⟨h.distinct, h.entries_nodup, h.entries_subset, fun p hp => ?_, fun hn hn' => ?_,
    h.leader_set hi fun n hn => .inr ?_, fun n d r hn => ?_, fun j e₁ hj => ?_⟩
  · exact (h.kept p hp).imp_right (carried_set hi fun hc => nomatch hcarried.symm.trans hc)
  · rcases getElem?_concat_eq_some hn with hn | ⟨rfl, hd⟩ <;>
      rcases getElem?_concat_eq_some hn' with hn' | ⟨rfl, hd'⟩
    · exact h.open_unique hn hn'
    · cases hd'
      exact absurd hn (hnone _)
    · cases hd
      exact absurd hn' (hnone _)
    · rfl
  · intro j e₁ hj hn'
    cases hn
    exact absurd (hlength hj hn') (Nat.lt_irrefl _)
  · rcases getElem?_concat_eq_some hn with hn | ⟨-, hd⟩
    · exact h.landed n d r hn
    · cases hd
  · rcases getElem?_set_eq_some hj with ⟨rfl, rfl⟩ | ⟨-, hj⟩
    · refine ⟨rfl, ?_⟩
      rw [Aloft, List.getElem?_append_right (Nat.le_refl _), Nat.sub_self]
      rfl
    · refine (h.informed j e₁ hj).frame (fun n hn => ?_) (fun n d l hn => ⟨l, hold hn⟩)
        (List.Subset.refl _) (List.Subset.refl _) (fun _ hd => hd)
      exact List.getElem?_append_left (hlength hj hn)

theorem hear (h : Accounts f flights entries answers callers) (hi : callers[i]? = some e) {n : Nat}
    (hn : e.leads? = some n) (hseek : (e.query f).digest ∉ answers.map Prod.fst)
    (hcarried : e.carried? = none) (r : Gen2.Result) :
    Accounts f flights entries (((e.query f).digest, r) :: answers)
      (callers.set i (e.arrive (.answered n f r))) := by
  have hi' : i < callers.length := (List.getElem?_eq_some_iff.mp hi).1
  have haloft := (h.informed i e hi).aloft hn
  refine ⟨List.nodup_cons.mpr ⟨hseek, h.distinct⟩, h.entries_nodup,
    List.subset_cons_of_subset _ h.entries_subset, fun p hp => ?_, h.open_unique,
    h.leader_set hi fun m hm => .inl ?_, fun n d r hn => List.mem_cons_of_mem _ (h.landed n d r hn),
    fun j e₁ hj => ?_⟩
  · rcases List.mem_cons.mp hp with rfl | hp
    · exact .inr ⟨i, _, List.getElem?_set_self hi', rfl⟩
    · exact (h.kept p hp).imp_right (carried_set hi fun hc => nomatch hcarried.symm.trans hc)
  · cases hm
    exact hn
  · rcases getElem?_set_eq_some hj with ⟨rfl, rfl⟩ | ⟨hne, hj⟩
    · exact ⟨rfl, haloft, List.mem_cons_self⟩
    · refine (h.informed j e₁ hj).frame (fun _ _ => rfl) (fun _ _ l hl => ⟨l, hl⟩)
        (List.Subset.refl _) (List.subset_cons_self _ _) fun hs hd => ?_
      -- two flights for one digest are one flight, and that has one leader
      intro hmem
      rcases List.mem_cons.mp hmem with heq | hmem
      · obtain ⟨n', hn'⟩ := Errand.leads?_of_isSeeking hs
        have haloft' := (h.informed j e₁ hj).aloft hn'
        rw [show (e₁.query f).digest = (e.query f).digest from heq] at haloft'
        have hsame := h.open_unique haloft haloft'
        exact hne (h.leader_unique hj hi (hsame ▸ hn') hn)
      · exact hd hmem

/-- An answer that is not in the memo is with a leader, so who leads a flight and finds nothing in the
memo is the first to ask. -/
theorem unanswered (h : Accounts f flights entries answers callers) (hi : callers[i]? = some e)
    {n : Nat} (hn : e.leads? = some n) (hcarried : e.carried? = none)
    (hmiss : ∀ r, ((e.query f).digest, r) ∉ entries) :
    (e.query f).digest ∉ answers.map Prod.fst := by
  intro hd
  obtain ⟨⟨d, r⟩, hr, rfl⟩ := List.mem_map.mp hd
  rcases h.kept _ hr with hmem | ⟨j, e₁, hj, hp⟩
  · exact hmiss r hmem
  · obtain ⟨n₁, hn₁, haloft⟩ := (h.informed j e₁ hj).aloft_of_carried hp
    cases h.open_unique ((h.informed i e hi).aloft hn) haloft
    cases h.leader_unique hi hj hn hn₁
    cases hi.symm.trans hj
    cases hcarried.symm.trans hp

/-- An answer comes to the front of the memo. None is lost, since every digest has one answer. -/
theorem refresh (h : Accounts f flights entries answers callers) {d : Digest} {r : Gen2.Result}
    (hr : (d, r) ∈ answers) :
    Accounts f flights ((d, r) :: Memo.without entries d) answers callers := by
  have hentries : entries ⊆ (d, r) :: Memo.without entries d := by
    intro p hp
    by_cases hd : p.1 = d
    · rw [List.inj_on_of_nodup_map h.distinct (h.entries_subset hp) hr hd]
      exact List.mem_cons_self
    · exact List.mem_cons_of_mem _ (List.mem_filter.mpr ⟨hp, by simpa using hd⟩)
  refine { h with
    entries_nodup := List.nodup_cons.mpr ⟨fun hmem => ?_, h.entries_nodup.filter _⟩
    entries_subset :=
      List.cons_subset.mpr ⟨hr, fun p hp => h.entries_subset (List.mem_filter.mp hp).1⟩
    kept := fun p hp => (h.kept p hp).imp_left fun hp => hentries hp
    informed := fun j e hj => (h.informed j e hj).frame (fun _ _ => rfl) (fun _ _ l hl => ⟨l, hl⟩)
      hentries (List.Subset.refl _) (fun _ hd => hd) }
  have hne := (List.mem_filter.mp hmem).2
  simp at hne

theorem start (f : Text) : Accounts f [] [] [] ([] : List (Errand κ τ)) where
  distinct := List.nodup_nil
  entries_nodup := List.nodup_nil
  entries_subset := List.Subset.refl _
  kept := nofun
  open_unique hn := nomatch hn
  leader_unique hi := nomatch hi
  landed _ _ _ hn := nomatch hn
  informed _ _ hi := nomatch hi

theorem join (h : Accounts f flights entries answers callers) (he : e.stage = .begun) :
    Accounts f flights entries answers (callers ++ [e]) := by
  have hnone : e.leads? = none := by rw [Errand.leads?, he]
  refine { h with
    kept := fun p hp => (h.kept p hp).imp_right ?_
    leader_unique := fun hi hj hn hn' => ?_
    informed := fun j e₁ hj => ?_ }
  · rintro ⟨j, e₁, hj, hp⟩
    exact ⟨j, e₁, by rw [List.getElem?_append_left (List.getElem?_eq_some_iff.mp hj).1, hj], hp⟩
  · rcases getElem?_concat_eq_some hi with hi | ⟨-, rfl⟩
    · rcases getElem?_concat_eq_some hj with hj | ⟨-, rfl⟩
      · exact h.leader_unique hi hj hn hn'
      · cases hnone.symm.trans hn'
    · cases hnone.symm.trans hn
  · rcases getElem?_concat_eq_some hj with hj | ⟨-, rfl⟩
    · exact h.informed j e₁ hj
    · rw [Errand.Informed, he]
      trivial

theorem length_le (h : Accounts f flights entries answers callers) :
    entries.length ≤ answers.length :=
  (h.entries_nodup.subperm h.entries_subset).length_le

end Accounts

end Accounts

-- ---------------------------------------------------------------------------
-- The crowd
-- ---------------------------------------------------------------------------

/-- One session and everybody who asks it for something. -/
structure Crowd (σ κ τ : Type) where
  hall : Hall σ κ
  callers : List (Errand κ τ) := []
  answers : Answers := []

namespace Crowd

inductive Move (σ κ : Type) where
  | ask (g : Generation) (x : Expansion)
  | advance (caller : Nat)
  | drift (remote : σ)
  | setStatus (status : Status κ)

variable {σ κ τ : Type}

/-- A session without a disk, connected to a server. -/
def start (memoSize : Int) (files : FileTree) (client : κ) (f : Text) (remote : σ) :
    Crowd σ κ τ where
  hall := { workspace := {
    session := Session.ofOptions memoSize none, cell := some (.connected client), files,
    fingerprint := f, remote } }

def withWorkspace (c : Crowd σ κ τ) (w : Workspace σ κ) : Crowd σ κ τ :=
  { c with hall := { c.hall with workspace := w } }

def step (line : Line σ κ τ) (c : Crowd σ κ τ) : Move σ κ → Option (Crowd σ κ τ)
  | .ask g x =>
    let (hall, e) := Errand.start c.hall g x
    some { c with hall, callers := c.callers ++ [e] }
  | .advance i => do
    let e ← c.callers[i]?
    let (hall, e) ← e.step line c.hall
    -- an errand that carries an answer has just got it from the server
    return { hall, callers := c.callers.set i e, answers := e.carried?.toList ++ c.answers }
  | .drift remote => some (c.withWorkspace { c.hall.workspace with remote })
  | .setStatus status =>
    some (c.withWorkspace { c.hall.workspace with cell := (c.hall.workspace.cell.set status).1 })

def run (line : Line σ κ τ) (c : Crowd σ κ τ) (history : List (Move σ κ)) : Crowd σ κ τ :=
  history.foldl (fun c m => (c.step line m).getD c) c

structure Sound (f : Text) (capacity : Nat) (c : Crowd σ κ τ) : Prop where
  fingerprint : c.hall.workspace.fingerprint = f
  disk : c.hall.workspace.session.disk = none
  stores : ∃ entries, c.hall.workspace.session.memo = some ⟨capacity, entries⟩ ∧
    Accounts f c.hall.flights entries c.answers c.callers

variable {line : Line σ κ τ} {c c' : Crowd σ κ τ} {f : Text} {capacity : Nat}

theorem advance_sound (h : c.Sound f capacity) {i : Nat} (hs : c.step line (.advance i) = some c')
    (hroom : c'.answers.length ≤ capacity) : c'.Sound f capacity := by
  obtain ⟨e, he, hs⟩ := Option.bind_eq_some_iff.mp hs
  obtain ⟨⟨hall, e'⟩, hstep, hs⟩ := Option.bind_eq_some_iff.mp hs
  cases hs
  obtain ⟨hf, hdisk, entries, hmemo, hacc⟩ := h
  have hinf := hacc.informed i e he
  obtain ⟨g, x, work, stage⟩ := e
  cases stage with
  | begun =>
    simp only [Errand.step] at hstep
    split at hstep <;> cases hstep
    · exact ⟨hf, hdisk, entries, hmemo, hacc.move he (.inl rfl) (List.nil_subset _) trivial⟩
    · exact ⟨hf, hdisk, entries, hmemo, hacc.move he (.inl rfl) (List.nil_subset _) trivial⟩
  | connected client =>
    cases hstep
    exact ⟨hf, hdisk, entries, hmemo, hacc.move he (.inl rfl) (List.nil_subset _) hf⟩
  | keyed client f' =>
    obtain rfl : f' = f := hinf
    simp only [Errand.step] at hstep
    split at hstep
    · rename_i session r hl
      obtain ⟨hmem, rfl⟩ := Session.lookUp_some hmemo hl
      cases hstep
      have hr := hacc.entries_subset hmem
      exact ⟨hf, hdisk, _, rfl, (hacc.refresh hr).move he (.inl rfl) (List.nil_subset _) hr⟩
    · cases hstep
      exact ⟨hf, hdisk, entries, hmemo, hacc.move he (.inl rfl) (List.nil_subset _) rfl⟩
  | missed client f' =>
    obtain rfl : f' = f := hinf
    simp only [Errand.step] at hstep
    split at hstep
    · rename_i n hflight
      cases hstep
      exact ⟨hf, hdisk, entries, hmemo, hacc.move he (.inl rfl) (List.nil_subset _) (Hall.flight?_eq_some hflight)⟩
    · rename_i hflight
      cases hstep
      exact ⟨hf, hdisk, entries, hmemo,
        hacc.lead he (Hall.flight?_eq_none hflight) client rfl⟩
  | leading n client f' =>
    obtain ⟨rfl, hn⟩ := hinf
    simp only [Errand.step] at hstep
    split at hstep
    · rename_i session r hl
      obtain ⟨hmem, rfl⟩ := Session.lookUp_some hmemo hl
      cases hstep
      have hr := hacc.entries_subset hmem
      refine ⟨hf, hdisk, _, rfl, (hacc.refresh hr).land he rfl (fun r' h => ?_) rfl⟩
      cases h
      exact hr
    · rename_i hl
      cases hstep
      have hseek := hacc.unanswered he rfl rfl (Session.lookUp_none hmemo hl)
      exact ⟨hf, hdisk, entries, hmemo, hacc.move he (.inr rfl) (List.nil_subset _) ⟨rfl, hn, hseek⟩⟩
  | searching n client f' =>
    obtain ⟨rfl, hn, hseek⟩ := hinf
    simp only [Errand.step, Workspace.fetch, hdisk] at hstep
    cases hstep
    exact ⟨hf, hdisk, entries, hmemo, hacc.move he (.inr rfl) (List.nil_subset _) ⟨rfl, hn, hseek⟩⟩
  | asking n client f' =>
    obtain ⟨rfl, hn, hseek⟩ := hinf
    cases hstep
    exact ⟨hf, hdisk, entries, hmemo, hacc.move he (.inr rfl) (List.nil_subset _) ⟨rfl, hn, hseek⟩⟩
  | waiting n client f' ticket =>
    obtain ⟨rfl, hn, hseek⟩ := hinf
    simp only [Errand.step] at hstep
    split at hstep
    · cases hstep
    · cases hstep
      exact ⟨hf, hdisk, entries, hmemo, hacc.land he rfl (fun _ h => by cases h) rfl⟩
    · split at hstep
      · rename_i r _
        cases hstep
        exact ⟨hf, hdisk, entries, hmemo, hacc.hear he rfl hseek rfl r⟩
      · cases hstep
        exact ⟨hf, hdisk, entries, hmemo, hacc.land he rfl (fun _ h => by cases h) rfl⟩
  | answered n f' r =>
    obtain ⟨rfl, hn, hr⟩ := hinf
    cases hstep
    have hacc' := hacc.refresh hr
    refine ⟨hf, hdisk, _, ?_, hacc'.move he (.inr rfl) ?_ ⟨rfl, hn, List.mem_cons_self⟩⟩
    · have hlen := Nat.le_trans hacc'.length_le hroom
      simp only [Session.remember, hmemo, Option.map_some, Memo.insert]
      rw [List.take_of_length_le hlen]
    · exact List.cons_subset.mpr ⟨List.mem_cons_self, List.nil_subset _⟩
  | remembered n f' r =>
    obtain ⟨rfl, hn, hr⟩ := hinf
    obtain ⟨hsession, -, hfingerprint, -⟩ :=
      c.hall.workspace.store_frame (Query.digest ⟨g, x, f'⟩) r
    cases hstep
    refine ⟨hfingerprint.trans hf, (congrArg Session.disk hsession).trans hdisk, entries,
      (congrArg Session.memo hsession).trans hmemo, hacc.land he rfl (fun r' h => ?_) rfl⟩
    cases h
    exact hacc.entries_subset hr
  | found n f' r => exact hinf.elim
  | aboard n =>
    obtain ⟨landed, hn⟩ := hinf
    simp only [Errand.step] at hstep
    split at hstep
    · cases hstep
    · rename_i answer hanswer
      rw [hn] at hanswer
      cases hanswer
      cases hstep
      cases answer with
      | error fault => exact ⟨hf, hdisk, entries, hmemo, hacc.move he (.inl rfl) (List.nil_subset _) trivial⟩
      | ok r =>
        exact ⟨hf, hdisk, entries, hmemo, hacc.move he (.inl rfl) (List.nil_subset _) (hacc.landed n _ r hn)⟩
  | returned answer => cases hstep

theorem ask_sound (h : c.Sound f capacity) {g : Generation} {x : Expansion}
    (hs : c.step line (.ask g x) = some c') : c'.Sound f capacity := by
  cases hs
  obtain ⟨hf, hdisk, entries, hmemo, hacc⟩ := h
  exact ⟨hf, hdisk, entries, hmemo, hacc.join rfl⟩

theorem step_sound (h : c.Sound f capacity) {m : Move σ κ} (hs : c.step line m = some c')
    (hroom : c'.answers.length ≤ capacity) : c'.Sound f capacity := by
  cases m with
  | ask g x => exact ask_sound h hs
  | advance i => exact advance_sound h hs hroom
  | drift remote => cases hs; exact ⟨h.fingerprint, h.disk, h.stores⟩
  | setStatus status => cases hs; exact ⟨h.fingerprint, h.disk, h.stores⟩

theorem answers_step {m : Move σ κ} (hs : c.step line m = some c') :
    c.answers.length ≤ c'.answers.length := by
  cases m with
  | advance i =>
    obtain ⟨e, -, hs⟩ := Option.bind_eq_some_iff.mp hs
    obtain ⟨⟨hall, e'⟩, -, hs⟩ := Option.bind_eq_some_iff.mp hs
    cases hs
    simp
  | _ => cases hs; exact Nat.le_refl _

theorem answers_run (c : Crowd σ κ τ) (history : List (Move σ κ)) :
    c.answers.length ≤ (c.run line history).answers.length := by
  induction history generalizing c with
  | nil => exact Nat.le_refl _
  | cons m history ih =>
    rw [run, List.foldl_cons]
    cases hs : c.step line m with
    | none => exact ih c
    | some c' => exact Nat.le_trans (answers_step hs) (ih c')

theorem run_sound (h : c.Sound f capacity) (history : List (Move σ κ))
    (hroom : (c.run line history).answers.length ≤ capacity) :
    (c.run line history).Sound f capacity := by
  induction history generalizing c with
  | nil => exact h
  | cons m history ih =>
    rw [run, List.foldl_cons] at hroom ⊢
    cases hs : c.step line m with
    | none =>
      rw [hs] at hroom
      exact ih h hroom
    | some c' =>
      rw [hs] at hroom
      exact ih (step_sound h hs (Nat.le_trans (answers_run c' history) hroom)) hroom

/-- Every digest is answered once. Whatever the order of the moves, the server gives one answer at
most under each digest, no two calls for one digest are with the server at a time, and a caller
that gets an answer gets this one. The memo starts out empty, and forgets nothing as long as it has
room for all answers of the server. -/
theorem answered_once {memoSize : Int} {memo : Memo Digest Gen2.Result}
    (hmemo : (Session.ofOptions memoSize none).memo = some memo) {files : FileTree} {client : κ}
    {remote : σ} (history : List (Move σ κ))
    (hc : c = (start memoSize files client f remote).run line history)
    (hroom : c.answers.length ≤ memo.capacity) :
    (c.answers.map Prod.fst).Nodup ∧
      (∀ (i j : Nat) (e e' : Errand κ τ), c.callers[i]? = some e → c.callers[j]? = some e' →
        e.isCalling → e'.isCalling → (e.query f).digest = (e'.query f).digest → i = j) ∧
      ∀ e ∈ c.callers, ∀ r, e.stage = .returned (some r) → ((e.query f).digest, r) ∈ c.answers := by
  have hstart : (start memoSize files client f remote : Crowd σ κ τ).Sound f memo.capacity := by
    refine ⟨rfl, rfl, [], hmemo.trans ?_, .start f⟩
    simp only [Session.ofOptions] at hmemo
    split at hmemo <;> cases hmemo
    rfl
  subst hc
  obtain ⟨-, -, entries, -, hacc⟩ := run_sound hstart history hroom
  refine ⟨hacc.distinct, fun i j e e' hi hj hcalling hcalling' hd => ?_, fun e he r hr => ?_⟩
  · obtain ⟨n, hn⟩ := Errand.leads?_of_isSeeking (Errand.isSeeking_of_isCalling hcalling)
    obtain ⟨n', hn'⟩ := Errand.leads?_of_isSeeking (Errand.isSeeking_of_isCalling hcalling')
    have haloft := (hacc.informed i e hi).aloft hn
    have haloft' := (hacc.informed j e' hj).aloft hn'
    have hsame := hacc.open_unique (hd ▸ haloft) haloft'
    exact hacc.leader_unique hi hj hn (hsame ▸ hn')
  · obtain ⟨i, hi⟩ := List.mem_iff_getElem?.mp he
    have hinf := hacc.informed i e hi
    obtain ⟨g, x, work, stage⟩ := e
    cases hr
    exact hinf

-- ---------------------------------------------------------------------------
-- Three callers
-- ---------------------------------------------------------------------------

/-- Says the same to everybody, and counts its calls. -/
def uniform : Line Nat Unit Outcome :=
  .ofCaller fun n _ _ _ => (n + 1, .ok (some (Fleet.spoken ["fn f"])))

/-- Both miss the memo. The second one is overtaken by a whole flight and leads one of its own. -/
def overtaken : List (Move Nat Unit) :=
  List.replicate 2 (.ask .second (.attribute { attr := "memoize" })) ++
    List.replicate 3 (.advance 1) ++ List.replicate 11 (.advance 0) ++ List.replicate 3 (.advance 1)

theorem answered_once_overtaken :
    let c := (start 1 (FileTree.empty "/") () "f" 0).run uniform overtaken
    (c.answers.length = 1 ∧ c.hall.workspace.remote = 1 ∧
      (c.callers.map fun e => match e.stage with
        | .returned (some _) => true
        | _ => false) = [true, true]) ∧
      (c.answers.map Prod.fst).Nodup ∧
      (∀ (i j : Nat) (e e' : Errand Unit Outcome), c.callers[i]? = some e →
        c.callers[j]? = some e' → e.isCalling → e'.isCalling →
          (e.query "f").digest = (e'.query "f").digest → i = j) ∧
      ∀ e ∈ c.callers, ∀ r, e.stage = .returned (some r) →
        ((e.query "f").digest, r) ∈ c.answers := by
  have hend :
      let c := (start 1 (FileTree.empty "/") () "f" 0).run uniform overtaken
      c.answers.length = 1 ∧ c.hall.workspace.remote = 1 ∧
        (c.callers.map fun e => match e.stage with
          | .returned (some _) => true
          | _ => false) = [true, true] := by decide +kernel
  exact ⟨hend, answered_once rfl overtaken rfl (Nat.le_of_eq hend.1)⟩

end Crowd

end MacroRelay
