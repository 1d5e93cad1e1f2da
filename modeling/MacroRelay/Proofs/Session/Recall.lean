import MacroRelay.Proofs.Cache.Recency
import MacroRelay.Proofs.Expansion.Request
import MacroRelay.Proofs.Session.Ways

/-!
# What a session recalls

A session on its own, without a disk and over a connection that never fails, has nothing to answer
from but its memo and the server. Its memo recalls the most recent keys, so that a request is sent
if and only if too many other keys were asked for since its own.
-/

namespace MacroRelay

inductive Chore where
  | ask (g : Generation) (e : Expansion)
  | purge

namespace Chore

def key? (f : Text) : Chore → Option Digest
  | .ask g e => some (Query.digest ⟨g, e, f⟩)
  | .purge => none

def keys (f : Text) (chores : List Chore) : List Digest := chores.filterMap (key? f)

/-- The keys asked for since the last purge, the latest first, after one more chore. -/
def note (f : Text) (asked : List Digest) : Chore → List Digest
  | .ask g e => Query.digest ⟨g, e, f⟩ :: asked
  | .purge => []

def asked (f : Text) (chores : List Chore) : List Digest := chores.foldl (note f) []

end Chore

namespace Workspace

variable {σ κ : Type} {call : Caller σ κ} {w w' : Workspace σ κ} {client : κ} {f : Text} {n : Nat}
  {asked : List Digest} {answer : Option Gen2.Result} {g : Generation} {e : Expansion}

def obey (call : Caller σ κ) (w : Workspace σ κ) : Chore → Workspace σ κ
  | .ask g e => (w.expand call g e).1
  | .purge => { w with session := w.session.clear }

def obeyAll (call : Caller σ κ) (w : Workspace σ κ) (chores : List Chore) : Workspace σ κ :=
  chores.foldl (obey call) w

def sent (call : Caller σ κ) : Workspace σ κ → List Chore → List Digest
  | _, [] => []
  | w, .ask g e :: chores =>
    let w' := (w.expand call g e).1
    if w'.session.stats.calls = w.session.stats.calls then sent call w' chores
    else w.digest g e :: sent call w' chores
  | w, .purge :: chores => sent call { w with session := w.session.clear } chores

/-- Connected, with a memo of `n` places that recalls what was asked, and without a disk. -/
structure Alone (client : κ) (f : Text) (n : Nat) (asked : List Digest) (w : Workspace σ κ) : Prop where
  client : w.cell.load.client? = some client
  fingerprint : w.fingerprint = f
  disk : w.session.disk = none
  memo : ∃ memo, w.session.memo = some memo ∧ memo.capacity = n ∧ memo.Recalls asked

def NeverFails (call : Caller σ κ) (client : κ) : Prop :=
  ∀ remote g e, (served? call remote client g e).isSome

def opened (n : Nat) (client : κ) (files : FileTree) (f : Text) (remote : σ) : Workspace σ κ where
  session := Session.ofOptions n none
  cell := some (.connected client)
  files
  fingerprint := f
  remote

theorem alone_opened (hn : 0 < n) (client : κ) (files : FileTree) (f : Text) (remote : σ) :
    (opened n client files f remote).Alone client f n [] := by
  refine ⟨rfl, rfl, rfl, ⟨n, []⟩, ?_, rfl, by simp [Memo.Recalls, Memo.keys, stack]⟩
  have hsize : n ≠ 0 := Nat.ne_of_gt hn
  simp [opened, Session.ofOptions, hsize]

theorem Alone.of_way (h : w.Alone client f n asked) (hcall : NeverFails call client)
    (hway : Way call w g e w' answer) :
    answer.isSome ∧ w'.Alone client f n (Query.digest ⟨g, e, f⟩ :: asked) ∧
      if Recent n asked (Query.digest ⟨g, e, f⟩) then Recalled w w' else Sent call client g e w w' := by
  obtain ⟨hclient, rfl, hdisk, memo, hmemo, rfl, hrecalls⟩ := h
  have hkey : Query.digest ⟨g, e, w.fingerprint⟩ = w.digest g e := rfl
  have hrecent := hrecalls.isSome_get? (k := w.digest g e)
  rw [hkey]
  cases hway with
  | offline trace hnone => cases hnone.symm.trans hclient
  | remembered trace client' s r _ hfound =>
    obtain ⟨memo₁, memo', hmemo₁, hget, rfl⟩ := Session.lookUp_eq_some hfound
    cases hmemo.symm.trans hmemo₁
    obtain ⟨hcapacity, hrecalls'⟩ := hrecalls.get? hget
    refine ⟨rfl, ⟨hclient, rfl, hdisk, memo', rfl, hcapacity, hrecalls'⟩, ?_⟩
    rw [if_pos (hrecent.mp (by rw [hget, Option.isSome_some]))]
    exact ⟨rfl, rfl, rfl⟩
  | shelved trace client' r _ _ hfound => simp [onDisk?, hdisk] at hfound
  | failed trace client' hclient' _ _ hserved =>
    cases hclient'.symm.trans hclient
    simpa [hserved] using hcall w.remote g e
  | served trace client' r hclient' hnone _ hserved =>
    cases hclient'.symm.trans hclient
    rw [Session.get?_eq_none hnone hmemo] at hrecent
    refine ⟨rfl, ⟨hclient, rfl, hdisk, memo.insert _ r, ?_, rfl, hrecalls.insert _ r⟩, ?_⟩
    · simp [Session.remember, hmemo]
    · rw [if_neg fun h => nomatch hrecent.mpr h]
      exact ⟨rfl, rfl, rfl⟩

theorem Alone.expand (h : w.Alone client f n asked) (hcall : NeverFails call client)
    (g : Generation) (e : Expansion) :
    (w.expand call g e).2.isSome ∧
      (w.expand call g e).1.Alone client f n (Query.digest ⟨g, e, f⟩ :: asked) ∧
      if Recent n asked (Query.digest ⟨g, e, f⟩) then Recalled w (w.expand call g e).1
      else Sent call client g e w (w.expand call g e).1 :=
  h.of_way hcall (expand_way call w g e)

theorem Alone.obey (h : w.Alone client f n asked) (hcall : NeverFails call client) (chore : Chore) :
    (w.obey call chore).Alone client f n (Chore.note f asked chore) := by
  cases chore with
  | ask g e => exact (h.expand hcall g e).2.1
  | purge =>
    obtain ⟨hclient, hf, hdisk, memo, hmemo, hcapacity, -⟩ := h
    exact ⟨hclient, hf, hdisk, memo.clear, by simp [Workspace.obey, Session.clear, hmemo],
      hcapacity, memo.recalls_clear⟩

theorem Alone.obeyAll (h : w.Alone client f n asked) (hcall : NeverFails call client)
    (chores : List Chore) :
    (w.obeyAll call chores).Alone client f n (chores.foldl (Chore.note f) asked) := by
  induction chores generalizing w asked with
  | nil => exact h
  | cons chore chores ih => exact ih (h.obey hcall chore)

theorem Alone.account (h : w.Alone client f n asked) (hcall : NeverFails call client)
    (chores : List Chore) :
    (w.obeyAll call chores).session.stats.memoHits + (w.obeyAll call chores).session.stats.calls =
      w.session.stats.memoHits + w.session.stats.calls + (Chore.keys f chores).length := by
  induction chores generalizing w asked with
  | nil => rfl
  | cons chore chores ih =>
    have hrest := ih (h.obey hcall chore)
    cases chore with
    | purge => exact hrest
    | ask g e =>
      obtain ⟨-, -, hcounts⟩ := h.expand hcall g e
      have hstep : (w.expand call g e).1.session.stats.memoHits +
          (w.expand call g e).1.session.stats.calls =
            w.session.stats.memoHits + w.session.stats.calls + 1 := by
        split at hcounts
        · rw [hcounts.memoHits, hcounts.calls]
          omega
        · rw [hcounts.memoHits, hcounts.calls]
          omega
      simp only [Workspace.obeyAll, List.foldl_cons, Workspace.obey, Chore.keys, Chore.key?,
        List.filterMap_cons, List.length_cons] at hrest ⊢
      rw [hrest, hstep]
      omega

theorem Alone.count_sent (h : w.Alone client f n asked) (hcall : NeverFails call client)
    {chores : List Chore} (hpurge : .purge ∉ chores)
    (hroom : (asked ++ Chore.keys f chores).toFinset.card ≤ n) (d : Digest) :
    (w.sent call chores).count d =
      if d ∈ asked then 0 else if d ∈ Chore.keys f chores then 1 else 0 := by
  induction chores generalizing w asked with
  | nil => simp [sent, Chore.keys]
  | cons chore chores ih =>
    cases chore with
    | purge => simp at hpurge
    | ask g e =>
      obtain ⟨-, hnext, hcounts⟩ := h.expand hcall g e
      have hkeys : Chore.keys f (.ask g e :: chores) =
        Query.digest ⟨g, e, f⟩ :: Chore.keys f chores := rfl
      have hkey : w.digest g e = Query.digest ⟨g, e, f⟩ := by
        rw [← h.fingerprint]
        rfl
      rw [hkeys] at hroom ⊢
      simp only [sent, hkey]
      generalize Query.digest ⟨g, e, f⟩ = k at hnext hcounts hroom ⊢
      have hsame : (k :: asked ++ Chore.keys f chores).toFinset =
          (asked ++ k :: Chore.keys f chores).toFinset := by
        ext
        simp
      have hrest := ih hnext (fun hmem => hpurge (List.mem_cons_of_mem _ hmem)) (hsame ▸ hroom)
      by_cases hk : k ∈ asked
      · have hrecent : Recent n asked k :=
          recent_of_room hk (le_trans (Finset.card_le_card fun a ha => by simp_all) hroom)
        rw [if_pos hrecent] at hcounts
        rw [if_pos hcounts.calls, hrest]
        by_cases hd : d = k
        · simp [hd, hk]
        · simp [hd]
      · rw [if_neg fun hrecent => hk hrecent.1] at hcounts
        rw [if_neg (by rw [hcounts.calls]; omega), List.count_cons, hrest]
        by_cases hd : d = k
        · simp [hd, hk]
        · simp [hd, Ne.symm hd]

end Workspace

theorem Chore.asked_eq_nil {f : Text} {chores : List Chore}
    (h : chores = [] ∨ chores.getLast? = some .purge) : asked f chores = [] := by
  rcases h with rfl | h
  · rfl
  · obtain ⟨before, rfl⟩ := List.getLast?_eq_some_iff.mp h
    simp [asked, note]

namespace Workspace

variable {σ κ : Type} {call : Caller σ κ} {client : κ} {n : Nat}

/-- A request is answered from the memo if and only if its key was asked for since the last purge and
fewer than `n` others were since then. All others are sent, and while no more than `n` keys are
in use every one of them once. -/
theorem recall_by_distance (hn : 0 < n) (hcall : NeverFails call client) (files : FileTree)
    (f : Text) (remote : σ) (chores : List Chore) :
    let start := opened n client files f remote
    let w := start.obeyAll call chores
    (∀ g e,
      let w' := (w.expand call g e).1
      (w.expand call g e).2.isSome ∧
      (Recalled w w' ↔ Recent n (Chore.asked f chores) (start.digest g e)) ∧
      (¬ Recalled w w' → Sent call client g e w w')) ∧
    w.session.stats.memoHits + w.session.stats.calls = (Chore.keys f chores).length ∧
    ∀ before stretch, chores = before ++ stretch →
      before = [] ∨ before.getLast? = some .purge → .purge ∉ stretch →
      (Chore.keys f stretch).toFinset.card ≤ n →
      ∀ d ∈ Chore.keys f stretch, ((start.obeyAll call before).sent call stretch).count d = 1 := by
  intro start w
  have hstart : start.Alone client f n [] := alone_opened hn client files f remote
  refine ⟨fun g e => ?_, ?_, ?_⟩
  · have hw : w.Alone client f n (Chore.asked f chores) := hstart.obeyAll hcall chores
    have hkey : start.digest g e = Query.digest ⟨g, e, f⟩ := rfl
    obtain ⟨hanswer, -, hcounts⟩ := hw.expand hcall g e
    rw [← hkey] at hcounts
    refine ⟨hanswer, ?_⟩
    split at hcounts
    · rename_i hrecent
      exact ⟨iff_of_true hcounts hrecent, fun hnot => absurd hcounts hnot⟩
    · rename_i hrecent
      have hnot : ¬ Recalled w (w.expand call g e).1 := fun hrecalled => by
        have hcalls := hcounts.calls.symm.trans hrecalled.calls
        omega
      exact ⟨iff_of_false hnot hrecent, fun _ => hcounts⟩
  · exact (hstart.account hcall chores).trans (Nat.zero_add _)
  · intro before stretch _ hbefore hpurge hroom d hd
    have hw := hstart.obeyAll hcall before
    have hnil : before.foldl (Chore.note f) [] = [] := Chore.asked_eq_nil hbefore
    rw [hnil] at hw
    rw [hw.count_sent hcall hpurge hroom, if_neg (List.not_mem_nil), if_pos hd]

def steady : Caller Nat Unit := fun calls _ _ _ => (calls + 1, .ok none)

theorem steady_neverFails : NeverFails steady () := by
  intro calls g e
  cases g <;> rfl

def expandTwice : Expansion := .inline ⟨⟨"pkg"⟩, "twice", {}, ⟨0, 0⟩⟩

/-- With room for one key, a request is recalled when it is made for the second time in a row. -/
theorem recall_by_distance_twice :
    let start := opened 1 () (FileTree.empty "/") "f" 0
    let w := start.obeyAll steady [.ask .second expandTwice]
    Recalled w (w.expand steady .second expandTwice).1 ∧
      w.session.stats.memoHits + w.session.stats.calls = 1 := by
  intro start w
  obtain ⟨hrecalled, hcounts, -⟩ := recall_by_distance (n := 1) (by decide) steady_neverFails
    (FileTree.empty "/") "f" 0 [.ask .second expandTwice]
  refine ⟨(hrecalled .second expandTwice).2.1.mpr ?_, hcounts⟩
  have hasked : Chore.asked "f" [.ask .second expandTwice] = [start.digest .second expandTwice] :=
    rfl
  rw [hasked]
  generalize start.digest .second expandTwice = k
  simp [Recent]

end Workspace

end MacroRelay
