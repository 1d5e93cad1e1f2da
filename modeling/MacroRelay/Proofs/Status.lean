import MacroRelay.Proofs.Lists
import MacroRelay.Status

/-!
# Setting the status from many places

A status is set in two steps. The first looks at what the cell holds and gives up if the status may
not replace that. The second puts the status there if the cell still holds the same, and otherwise
everything starts over. Whatever the order of all these steps, the calls that succeed take effect
one after another, and everybody who reads gets what the last of them has set.

What carries this is that statuses are told apart by who set them. A cell that holds the same as
before has not been set in between, so that what was seen is still true.
-/

namespace MacroRelay

-- ---------------------------------------------------------------------------
-- One after another
-- ---------------------------------------------------------------------------

namespace StatusCell

variable {κ : Type} {cell : StatusCell κ} {status : Status κ}

theorem set_of_admits (h : cell.admits status) : cell.set status = (some status, true) := if_pos h

theorem set_of_not_admits (h : cell.admits status = false) : cell.set status = (cell, false) := by
  rw [set, h]
  rfl

theorem not_admits_of_crashed (h : cell.load = .crashed) : cell.admits status = false := by
  rcases cell with _ | _ | _ | _ <;> cases h
  rfl

theorem load_set (cell : StatusCell κ) (status : Status κ) :
    (cell.set status).1.load =
      if cell.load.isCrashed || status.isPending then cell.load else status := by
  rcases cell with _ | _ | _ | _ <;> cases status <;> rfl

def setAll (cell : StatusCell κ) (statuses : List (Status κ)) : StatusCell κ × List Bool :=
  statuses.foldl (fun (cell, took) status =>
    let (cell, t) := cell.set status
    (cell, took ++ [t])) (cell, [])

theorem setAll_concat (cell : StatusCell κ) (statuses : List (Status κ)) (status : Status κ) :
    cell.setAll (statuses ++ [status]) =
      (((cell.setAll statuses).1.set status).1,
        (cell.setAll statuses).2 ++ [((cell.setAll statuses).1.set status).2]) :=
  List.foldl_concat ..

/-- What the statuses come to: a crash for good, or else the latest client. -/
def verdict (statuses : List (Status κ)) : Status κ :=
  if statuses.any (·.isCrashed) then .crashed
  else match (statuses.filterMap (·.client?)).getLast? with
    | some client => .connected client
    | none => .pending

theorem verdict_isCrashed (statuses : List (Status κ)) :
    (verdict statuses).isCrashed = statuses.any (·.isCrashed) := by
  unfold verdict
  cases statuses.any (·.isCrashed) with
  | true => rfl
  | false => cases (statuses.filterMap (·.client?)).getLast? <;> rfl

theorem verdict_concat (statuses : List (Status κ)) (status : Status κ) :
    verdict (statuses ++ [status]) =
      if (verdict statuses).isCrashed || status.isPending then verdict statuses else status := by
  have hany : (statuses ++ [status]).any (·.isCrashed) =
      (statuses.any (·.isCrashed) || status.isCrashed) := by simp
  have hclients : (statuses ++ [status]).filterMap (·.client?) =
      statuses.filterMap (·.client?) ++ status.client?.toList := by
    rw [List.filterMap_append]
    cases status <;> rfl
  rw [verdict_isCrashed]
  unfold verdict
  rw [hany, hclients]
  generalize statuses.any (·.isCrashed) = crashed
  generalize statuses.filterMap (·.client?) = clients
  cases status with
  | pending => cases crashed <;> simp [Status.isCrashed, Status.isPending, Status.client?]
  | connected client => cases crashed <;> simp [Status.isCrashed, Status.isPending, Status.client?]
  | crashed => cases crashed <;> simp [Status.isCrashed, Status.isPending]

theorem load_setAll (statuses : List (Status κ)) :
    (setAll none statuses).1.load = verdict statuses := by
  induction statuses using List.reverseRecOn with
  | nil => rfl
  | append_singleton statuses status ih => rw [setAll_concat, load_set, ih, verdict_concat]

end StatusCell

-- ---------------------------------------------------------------------------
-- Calls that overlap
-- ---------------------------------------------------------------------------

/-- How far a call that sets the status has come. -/
inductive PostStage where
  /-- It is about to look. -/
  | ready
  /-- It may replace what it saw: nothing, or the status of a post. -/
  | seen (holder : Option Nat)
  | done (took : Bool)

structure Post (κ : Type) where
  status : Status κ
  stage : PostStage := .ready

/-- What a cell lets see. -/
inductive Sign (κ : Type) where
  | set (post : Nat) (status : Status κ) (took : Bool)
  | read (status : Status κ)

structure Board (κ : Type) where
  posts : List (Post κ) := []
  /-- The post whose status the cell holds. Posts of the same status are told apart. -/
  holder : Option Nat := none
  log : List (Sign κ) := []

def PostStage.took? : PostStage → Option Bool
  | .done took => some took
  | _ => none

def Post.outcome? {κ : Type} (p : Post κ) : Option (Status κ × Bool) :=
  p.stage.took?.map (p.status, ·)

namespace Sign

variable {κ : Type}

def accepted? : Sign κ → Option (Status κ)
  | .set _ status true => some status
  | _ => none

def post? : Sign κ → Option Nat
  | .set i _ _ => some i
  | .read _ => none

def outcome? : Sign κ → Option (Status κ × Bool)
  | .set _ status took => some (status, took)
  | .read _ => none

def Holds (cell : StatusCell κ) : Sign κ → Prop
  | .set _ status took => (cell.set status).2 = took
  | .read status => cell.load = status

end Sign

namespace Board

variable {κ : Type}

/-- What was accepted last. -/
def latest (log : List (Sign κ)) : StatusCell κ :=
  (log.filterMap (·.accepted?)).getLast?

def statuses (b : Board κ) : List (Status κ) :=
  b.posts.map (·.status)

def heldBy (statuses : List (Status κ)) (holder : Option Nat) : StatusCell κ :=
  holder.bind (statuses[·]?)

def cell (b : Board κ) : StatusCell κ :=
  heldBy b.statuses b.holder

inductive Move (κ : Type) where
  | post (status : Status κ)
  | look (post : Nat)
  | swap (post : Nat)
  | read

def step (b : Board κ) : Move κ → Option (Board κ)
  | .post status => some { b with posts := b.posts ++ [⟨status, .ready⟩] }
  | .look i =>
    match b.posts[i]? with
    | some ⟨status, .ready⟩ =>
      if b.cell.admits status then
        some { b with posts := b.posts.set i ⟨status, .seen b.holder⟩ }
      else
        some { b with
          posts := b.posts.set i ⟨status, .done false⟩
          log := b.log ++ [.set i status false] }
    | _ => none
  | .swap i =>
    match b.posts[i]? with
    | some ⟨status, .seen holder⟩ =>
      if b.holder = holder then
        some {
          posts := b.posts.set i ⟨status, .done true⟩
          holder := some i
          log := b.log ++ [.set i status true] }
      else some { b with posts := b.posts.set i ⟨status, .ready⟩ }
    | _ => none
  | .read => some { b with log := b.log ++ [.read b.cell.load] }

def run (b : Board κ) (history : List (Move κ)) : Board κ :=
  history.foldl (fun b m => (b.step m).getD b) b

variable {b b' : Board κ} {m : Move κ} {status : Status κ} {e : Sign κ} {i : Nat}
  {before after log : List (Sign κ)} {stage stage' : PostStage} {took : Bool} {holder : Option Nat}

theorem run_concat (b : Board κ) (history : List (Move κ)) (m : Move κ) :
    b.run (history ++ [m]) = ((b.run history).step m).getD (b.run history) :=
  List.foldl_concat ..

inductive Turn (b : Board κ) : Move κ → Board κ → Prop
  | post {status : Status κ} :
    Turn b (.post status) { b with posts := b.posts ++ [⟨status, .ready⟩] }
  | look {i : Nat} {status : Status κ} : b.posts[i]? = some ⟨status, .ready⟩ →
    b.cell.admits status →
    Turn b (.look i) { b with posts := b.posts.set i ⟨status, .seen b.holder⟩ }
  | refuse {i : Nat} {status : Status κ} : b.posts[i]? = some ⟨status, .ready⟩ →
    b.cell.admits status = false →
    Turn b (.look i) { b with
      posts := b.posts.set i ⟨status, .done false⟩
      log := b.log ++ [.set i status false] }
  | accept {i : Nat} {status : Status κ} : b.posts[i]? = some ⟨status, .seen b.holder⟩ →
    Turn b (.swap i) {
      posts := b.posts.set i ⟨status, .done true⟩
      holder := some i
      log := b.log ++ [.set i status true] }
  | retry {i : Nat} {status : Status κ} {holder : Option Nat} :
    b.posts[i]? = some ⟨status, .seen holder⟩ → b.holder ≠ holder →
    Turn b (.swap i) { b with posts := b.posts.set i ⟨status, .ready⟩ }
  | read : Turn b .read { b with log := b.log ++ [.read b.cell.load] }

theorem turn_of_step (h : b.step m = some b') : b.Turn m b' := by
  cases m with
  | post status =>
    cases h
    exact .post
  | look i =>
    simp only [step] at h
    split at h
    · rename_i status hpost
      cases hadmits : b.cell.admits status with
      | true =>
        simp only [hadmits, if_true, Option.some.injEq] at h
        exact h ▸ .look hpost hadmits
      | false =>
        simp only [hadmits, Bool.false_eq_true, if_false, Option.some.injEq] at h
        exact h ▸ .refuse hpost hadmits
    · cases h
  | swap i =>
    simp only [step] at h
    split at h
    · rename_i status holder hpost
      split at h <;> cases h
      · rename_i hsame
        exact .accept (hsame ▸ hpost)
      · exact .retry hpost ‹_›
    · cases h
  | read =>
    cases h
    exact .read

theorem Turn.log_grows (h : b.Turn m b') : b.log <+: b'.log := by
  cases h with
  | refuse | accept | read => exact List.prefix_append _ _
  | _ => exact List.prefix_rfl

-- ---------------------------------------------------------------------------
-- Logs
-- ---------------------------------------------------------------------------

/-- The signs are those of a cell that is used by one at a time. -/
def Honest (log : List (Sign κ)) : Prop :=
  ∀ before e after, log = before ++ e :: after → e.Holds (latest before)

theorem latest_read (log : List (Sign κ)) (status : Status κ) :
    latest (log ++ [.read status]) = latest log := by
  rw [latest, List.filterMap_append]
  exact congrArg List.getLast? (List.append_nil _)

theorem latest_accepted (log : List (Sign κ)) (i : Nat) (status : Status κ) :
    latest (log ++ [.set i status true]) = some status := by
  rw [latest, List.filterMap_append]
  exact List.getLast?_concat

theorem latest_refused (log : List (Sign κ)) (i : Nat) (status : Status κ) :
    latest (log ++ [.set i status false]) = latest log := by
  rw [latest, List.filterMap_append]
  exact congrArg List.getLast? (List.append_nil _)

theorem latest_set (h : ((latest log).set status).2 = took) (i : Nat) :
    latest (log ++ [.set i status took]) = ((latest log).set status).1 := by
  cases hadmits : (latest log).admits status with
  | true =>
    rw [StatusCell.set_of_admits hadmits] at h ⊢
    exact h ▸ latest_accepted log i status
  | false =>
    rw [StatusCell.set_of_not_admits hadmits] at h ⊢
    exact h ▸ latest_refused log i status

theorem honest_nil : Honest ([] : List (Sign κ)) := by
  intro before e after h
  simp at h

theorem Honest.concat (h : Honest log) (he : e.Holds (latest log)) : Honest (log ++ [e]) := by
  intro before e' after heq
  rcases eq_or_of_concat_eq heq with ⟨rfl, rfl, -⟩ | ⟨front, hlog, -⟩
  · exact he
  · exact h before e' front hlog

theorem Honest.of_append (h : Honest (before ++ after)) : Honest before :=
  fun front e back heq => h front e (back ++ after) (by rw [heq, List.append_assoc, List.cons_append])

theorem Honest.last (h : Honest (log ++ [e])) : e.Holds (latest log) :=
  h log e [] rfl

theorem Honest.keeps {P : StatusCell κ → Prop} (h : Honest (before ++ after))
    (hset : ∀ cell status, P cell → P (cell.set status).1) (hbefore : P (latest before)) :
    P (latest (before ++ after)) := by
  induction after using List.reverseRecOn with
  | nil => rwa [List.append_nil]
  | append_singleton after e ih =>
    rw [← List.append_assoc] at h ⊢
    have hlast := h.last
    have hlatest := ih h.of_append
    cases e with
    | read status => rwa [latest_read]
    | set i status took =>
      rw [latest_set hlast]
      exact hset _ _ hlatest

theorem Honest.latest_crashed (h : Honest log) (hcrashed : .set i .crashed true ∈ log) :
    (latest log).load = .crashed := by
  obtain ⟨before, after, rfl⟩ := List.append_of_mem hcrashed
  rw [List.append_cons] at h ⊢
  refine h.keeps (P := fun cell => cell.load = .crashed) (fun cell status hcell => ?_) ?_
  · rw [StatusCell.load_set, hcell]
    rfl
  · rw [latest_accepted]
    rfl

theorem Honest.crashed_forever (h : Honest (before ++ .set i .crashed true :: after)) (he : e ∈ after) :
    e.accepted? = none ∧ ∀ status, e = .read status → status = .crashed := by
  obtain ⟨front, rest, rfl⟩ := List.append_of_mem he
  rw [← List.cons_append, ← List.append_assoc] at h
  have hcrashed := h.of_append.latest_crashed (i := i) (by simp)
  have hholds := h _ e rest rfl
  generalize latest (before ++ .set i .crashed true :: front) = cell at hcrashed hholds
  cases e with
  | read status =>
    refine ⟨rfl, fun status' heq => ?_⟩
    cases heq
    exact hholds.symm.trans hcrashed
  | set j status took =>
    have htook : took = false := by
      rw [← show (cell.set status).2 = took from hholds,
        StatusCell.set_of_not_admits (StatusCell.not_admits_of_crashed hcrashed)]
    exact ⟨by rw [htook]; rfl, nofun⟩

theorem Honest.pending_no_more (h : Honest (before ++ .read status :: after))
    (hstatus : status ≠ .pending) : .read .pending ∉ after := by
  intro hmem
  obtain ⟨front, rest, rfl⟩ := List.append_of_mem hmem
  have hread : (latest before).load = status := h before _ _ rfl
  rw [← List.cons_append, ← List.append_assoc] at h
  have hkept : (latest (before ++ .read status :: front)).load ≠ .pending := by
    refine h.of_append.keeps (P := fun cell => cell.load ≠ .pending) (fun cell next hcell => ?_)
      (hread ▸ hstatus)
    rw [StatusCell.load_set]
    split
    · exact hcell
    · rintro rfl
      simp [Status.isPending] at *
  exact hkept (h _ _ rest rfl)

/-- The calls that return come out as if they had been made in the order of the log. -/
theorem Honest.setAll (h : Honest log) :
    StatusCell.setAll none ((log.filterMap (·.outcome?)).map (·.1)) =
      (latest log, (log.filterMap (·.outcome?)).map (·.2)) := by
  induction log using List.reverseRecOn with
  | nil => rfl
  | append_singleton log e ih =>
    have hlast := h.last
    have hall := ih h.of_append
    rw [List.filterMap_append]
    cases e with
    | read status =>
      rw [latest_read, show List.filterMap Sign.outcome? [Sign.read status] = [] from rfl,
        List.append_nil, hall]
    | set i status took =>
      rw [latest_set hlast,
        show List.filterMap Sign.outcome? [Sign.set i status took] = [(status, took)] from rfl,
        List.map_append, List.map_append, List.map_singleton, List.map_singleton,
        StatusCell.setAll_concat, hall]
      exact congrArg (fun t => (_, _ ++ [t])) hlast

-- ---------------------------------------------------------------------------
-- What the cell holds
-- ---------------------------------------------------------------------------

theorem statuses_set (hi : b.posts[i]? = some ⟨status, stage⟩) (stage' : PostStage) :
    (b.posts.set i ⟨status, stage'⟩).map (·.status) = b.statuses := by
  rw [List.map_set]
  exact set_eq_self (by rw [List.getElem?_map, hi]; rfl)

/-- The holder is one of the posts, if there is one. -/
def Knows (b : Board κ) (holder : Option Nat) : Prop :=
  ∀ j ∈ holder, j < b.posts.length

theorem Knows.heldBy_concat (h : b.Knows holder) (status : Status κ) :
    heldBy (b.statuses ++ [status]) holder = heldBy b.statuses holder := by
  cases holder with
  | none => rfl
  | some j =>
    have hlt : j < b.statuses.length := by
      rw [statuses, List.length_map]
      exact h j rfl
    exact List.getElem?_append_left hlt

structure Sound (b : Board κ) : Prop where
  cell : b.cell = latest b.log
  honest : Honest b.log
  held : b.Knows b.holder
  /-- What was seen may be replaced as long as the cell holds it. -/
  seen : ∀ (i : Nat) (status : Status κ) (holder : Option Nat),
    b.posts[i]? = some ⟨status, .seen holder⟩ →
    b.Knows holder ∧ (heldBy b.statuses holder).admits status

theorem sound_empty : ({} : Board κ).Sound where
  cell := rfl
  honest := honest_nil
  held := nofun
  seen := by simp

theorem Sound.post (h : b.Sound) (status : Status κ) :
    Sound { b with posts := b.posts ++ [⟨status, .ready⟩] } := by
  have hstatuses : statuses { b with posts := b.posts ++ [⟨status, .ready⟩] } =
      b.statuses ++ [status] := List.map_append
  have hknows {holder : Option Nat} (hheld : b.Knows holder) :
      Knows { b with posts := b.posts ++ [⟨status, .ready⟩] } holder := by
    intro j hj
    rw [List.length_append]
    exact Nat.lt_add_right _ (hheld j hj)
  constructor
  · exact (congrArg (heldBy · b.holder) hstatuses).trans
      ((h.held.heldBy_concat status).trans h.cell)
  · exact h.honest
  · exact hknows h.held
  · intro j status' holder hj
    rcases getElem?_concat_eq_some hj with hj | ⟨-, heq⟩
    · obtain ⟨hheld, hadmits⟩ := h.seen j status' holder hj
      refine ⟨hknows hheld, ?_⟩
      rw [hstatuses, hheld.heldBy_concat]
      exact hadmits
    · cases heq

theorem Sound.advance (h : b.Sound) (hi : b.posts[i]? = some ⟨status, stage⟩)
    (hseen : ∀ holder, stage' = .seen holder →
      b.Knows holder ∧ (heldBy b.statuses holder).admits status) :
    Sound { b with posts := b.posts.set i ⟨status, stage'⟩ } := by
  have hstatuses := statuses_set hi stage'
  constructor
  · exact (congrArg (heldBy · b.holder) hstatuses).trans h.cell
  · exact h.honest
  · rw [Knows, List.length_set]
    exact h.held
  · intro j status' holder hj
    rw [Knows, List.length_set, statuses, hstatuses]
    rcases getElem?_set_eq_some hj with ⟨-, heq⟩ | ⟨-, hj⟩
    · cases heq
      exact hseen holder rfl
    · exact h.seen j status' holder hj

theorem Sound.finish (h : b.Sound) (hi : b.posts[i]? = some ⟨status, stage⟩)
    (hholds : (b.cell.set status).2 = took) (hheld : b.Knows holder)
    (hcell : heldBy b.statuses holder = (b.cell.set status).1) :
    Sound ⟨b.posts.set i ⟨status, .done took⟩, holder, b.log ++ [.set i status took]⟩ := by
  have hstatuses := statuses_set hi (.done took)
  rw [h.cell] at hholds hcell
  constructor
  · rw [latest_set hholds, ← hcell]
    exact congrArg (heldBy · holder) hstatuses
  · exact h.honest.concat hholds
  · rw [Knows, List.length_set]
    exact hheld
  · intro j status' seen hj
    rw [Knows, List.length_set, statuses, hstatuses]
    rcases getElem?_set_eq_some hj with ⟨-, heq⟩ | ⟨-, hj⟩
    · cases heq
    · exact h.seen j status' seen hj

theorem Sound.turn (h : b.Sound) (hturn : b.Turn m b') : b'.Sound := by
  cases hturn with
  | post => exact h.post _
  | look hi hadmits =>
    refine h.advance hi ?_
    rintro _ ⟨⟩
    exact ⟨h.held, hadmits⟩
  | refuse hi hadmits =>
    have hset := StatusCell.set_of_not_admits hadmits
    exact h.finish hi (by rw [hset]) h.held (by rw [hset]; rfl)
  | @accept i status hi =>
    -- the cell holds what was seen
    have hset := StatusCell.set_of_admits (h.seen i status b.holder hi).2
    refine h.finish hi (congrArg Prod.snd hset) ?_ ?_
    · rintro _ ⟨⟩
      exact (List.getElem?_eq_some_iff.mp hi).1
    · refine Eq.trans ?_ (congrArg Prod.fst hset).symm
      show b.statuses[i]? = some status
      rw [statuses, List.getElem?_map, hi]
      rfl
  | retry hi _ => exact h.advance hi nofun
  | read =>
    have hread := h.honest.concat (e := .read b.cell.load) (congrArg StatusCell.load h.cell.symm)
    exact ⟨h.cell.trans (latest_read _ _).symm, hread, h.held, h.seen⟩

theorem run_sound (history : List (Move κ)) : (run {} history : Board κ).Sound :=
  foldl_getD_keeps sound_empty (fun _ _ _ h hs => h.turn (turn_of_step hs)) history

-- ---------------------------------------------------------------------------
-- What is returned
-- ---------------------------------------------------------------------------

/-- The calls that have returned are those of the log, each once. -/
structure Returned (b : Board κ) : Prop where
  signs : ∀ (i : Nat) (status : Status κ) (took : Bool), Sign.set i status took ∈ b.log ↔
    b.posts[i]? = some ⟨status, .done took⟩
  once : (b.log.filterMap (·.post?)).Nodup

theorem returned_empty : ({} : Board κ).Returned := ⟨by simp, List.nodup_nil⟩

theorem Returned.advance (h : b.Returned) (hi : b.posts[i]? = some ⟨status, stage⟩)
    (hbusy : stage.took? = none) (hbusy' : stage'.took? = none) :
    Returned { b with posts := b.posts.set i ⟨status, stage'⟩ } := by
  refine ⟨fun j status' took => ?_, h.once⟩
  rw [h.signs]
  by_cases hij : i = j
  · subst hij
    rw [hi, getElem?_set_of_some hi]
    constructor
    · rintro ⟨⟩
      cases hbusy
    · rintro ⟨⟩
      cases hbusy'
  · rw [List.getElem?_set_ne hij]

theorem Returned.finish (h : b.Returned) (hi : b.posts[i]? = some ⟨status, stage⟩)
    (hbusy : stage.took? = none) (took : Bool) (holder : Option Nat) :
    Returned ⟨b.posts.set i ⟨status, .done took⟩, holder, b.log ++ [.set i status took]⟩ := by
  have hfresh (status' : Status κ) (took' : Bool) : Sign.set i status' took' ∉ b.log := by
    intro hmem
    cases hi.symm.trans ((h.signs i status' took').mp hmem)
    cases hbusy
  constructor
  · intro j status' took'
    rw [List.mem_append, List.mem_singleton]
    by_cases hij : i = j
    · subst hij
      rw [getElem?_set_of_some hi]
      constructor
      · rintro (hmem | heq)
        · exact absurd hmem (hfresh status' took')
        · cases heq
          rfl
      · intro heq
        cases heq
        exact .inr rfl
    · rw [List.getElem?_set_ne hij, ← h.signs]
      refine or_iff_left ?_
      rintro ⟨⟩
      exact hij rfl
  · rw [List.filterMap_append]
    refine List.nodup_append.mpr ⟨h.once, List.nodup_singleton i, ?_⟩
    rintro j hj j' hj' rfl
    obtain rfl := List.mem_singleton.mp hj'
    obtain ⟨e, he, hpost⟩ := List.mem_filterMap.mp hj
    cases e with
    | read => cases hpost
    | set k status' took' =>
      cases hpost
      exact hfresh status' took' he

theorem Returned.turn (h : b.Returned) (hturn : b.Turn m b') : b'.Returned := by
  cases hturn with
  | post =>
    refine ⟨fun j status' took => ?_, h.once⟩
    rw [h.signs]
    refine ⟨fun hj => getElem?_concat_of_some hj _, fun hj => ?_⟩
    rcases getElem?_concat_eq_some hj with hj | ⟨-, heq⟩
    · exact hj
    · cases heq
  | look hi _ => exact h.advance hi rfl rfl
  | refuse hi _ => exact h.finish hi rfl false b.holder
  | accept hi => exact h.finish hi rfl true _
  | retry hi _ => exact h.advance hi rfl rfl
  | read =>
    refine ⟨fun j status' took => ?_, ?_⟩
    · rw [← h.signs, List.mem_append, List.mem_singleton]
      exact or_iff_left nofun
    · rw [List.filterMap_append]
      exact (List.append_nil _).symm ▸ h.once

theorem run_returned (history : List (Move κ)) : (run {} history : Board κ).Returned :=
  foldl_getD_keeps returned_empty (fun _ _ _ h hs => h.turn (turn_of_step hs)) history

-- ---------------------------------------------------------------------------
-- One call after the other
-- ---------------------------------------------------------------------------

/-- Nobody sets the status before all others have returned. -/
def OneByOne (history : List (Move κ)) : Prop :=
  ∀ earlier status later, history = earlier ++ .post status :: later →
    ∀ p ∈ (run {} earlier).posts, p.stage.took?.isSome

/-- The calls have returned in their order, but for the last one. -/
structure InOrder (b : Board κ) : Prop where
  outcomes : b.log.filterMap (·.outcome?) = b.posts.filterMap (·.outcome?)
  last : ∀ p ∈ b.posts.dropLast, p.stage.took?.isSome

theorem InOrder.busy (h : b.InOrder) (hi : b.posts[i]? = some ⟨status, stage⟩)
    (hbusy : stage.took? = none) :
    ∃ front, b.posts = front ++ [⟨status, stage⟩] ∧ i = front.length := by
  rcases List.eq_nil_or_concat b.posts with hnil | ⟨front, last, hposts⟩
  · rw [hnil] at hi
    cases hi
  · rw [List.concat_eq_append] at hposts
    have hdone := h.last
    rw [hposts] at hi
    rw [hposts, List.dropLast_concat] at hdone
    rcases getElem?_concat_eq_some hi with hold | ⟨hindex, rfl⟩
    · have hsome := hdone _ (List.mem_of_getElem? hold)
      rw [hbusy] at hsome
      cases hsome
    · exact ⟨front, hposts, hindex⟩

theorem InOrder.set (h : b.InOrder) (hi : b.posts[i]? = some ⟨status, stage⟩)
    (hbusy : stage.took? = none) (stage' : PostStage) :
    (b.posts.set i ⟨status, stage'⟩).filterMap (·.outcome?) =
      b.posts.filterMap (·.outcome?) ++ (stage'.took?.map (status, ·)).toList ∧
    ∀ p ∈ (b.posts.set i ⟨status, stage'⟩).dropLast, p.stage.took?.isSome := by
  obtain ⟨front, hposts, rfl⟩ := h.busy hi hbusy
  have hset : b.posts.set front.length ⟨status, stage'⟩ = front ++ [⟨status, stage'⟩] := by
    rw [hposts, List.set_append_right _ _ (Nat.le_refl _), Nat.sub_self]
    rfl
  have hlast := h.last
  rw [hposts, List.dropLast_concat] at hlast
  rw [hset, List.dropLast_concat]
  refine ⟨?_, hlast⟩
  rw [hposts, List.filterMap_append, List.filterMap_append]
  cases hstage : stage'.took? <;> simp [Post.outcome?, hbusy, hstage]

theorem InOrder.turn (h : b.InOrder) (hturn : b.Turn m b')
    (hpost : ∀ status, m = .post status → ∀ p ∈ b.posts, p.stage.took?.isSome) : b'.InOrder := by
  have hadvance {i : Nat} {status : Status κ} {stage : PostStage}
      (hi : b.posts[i]? = some ⟨status, stage⟩) (hbusy : stage.took? = none) (stage' : PostStage)
      (hbusy' : stage'.took? = none) :
      InOrder { b with posts := b.posts.set i ⟨status, stage'⟩ } := by
    obtain ⟨houtcomes, hlast⟩ := h.set hi hbusy stage'
    rw [hbusy'] at houtcomes
    exact ⟨h.outcomes.trans (houtcomes.trans (List.append_nil _)).symm, hlast⟩
  have hfinish {i : Nat} {status : Status κ} {stage : PostStage}
      (hi : b.posts[i]? = some ⟨status, stage⟩) (hbusy : stage.took? = none) (took : Bool)
      (holder : Option Nat) : InOrder ⟨b.posts.set i ⟨status, .done took⟩, holder,
        b.log ++ [.set i status took]⟩ := by
    obtain ⟨houtcomes, hlast⟩ := h.set hi hbusy (.done took)
    refine ⟨?_, hlast⟩
    rw [List.filterMap_append, houtcomes, h.outcomes]
    rfl
  cases hturn with
  | post =>
    refine ⟨?_, ?_⟩
    · rw [List.filterMap_append, h.outcomes]
      exact (List.append_nil _).symm
    · rw [List.dropLast_concat]
      exact hpost _ rfl
  | look hi _ => exact hadvance hi rfl _ rfl
  | refuse hi _ => exact hfinish hi rfl false b.holder
  | accept hi => exact hfinish hi rfl true _
  | retry hi _ => exact hadvance hi rfl _ rfl
  | read =>
    refine ⟨?_, h.last⟩
    rw [List.filterMap_append]
    exact (List.append_nil _).trans h.outcomes

theorem run_inOrder {history : List (Move κ)} (h : OneByOne history) : (run {} history).InOrder := by
  induction history using List.reverseRecOn with
  | nil => exact ⟨rfl, nofun⟩
  | append_singleton history m ih =>
    have hearlier : OneByOne history := fun earlier status later heq =>
      h earlier status (later ++ [m]) (by rw [heq, List.append_assoc, List.cons_append])
    rw [run_concat]
    cases hs : (run {} history).step m with
    | none => exact ih hearlier
    | some b' =>
      refine (ih hearlier).turn (turn_of_step hs) ?_
      rintro status rfl
      exact h history status [] rfl

theorem run_setAll {history : List (Move κ)} (h : OneByOne history)
    (hdone : ∀ p ∈ (run {} history).posts, p.stage.took?.isSome) :
    StatusCell.setAll none (run {} history).statuses =
      ((run {} history).cell, (run {} history).posts.filterMap (·.stage.took?)) := by
  have hsound : (run {} history : Board κ).Sound := run_sound history
  have houtcomes := (run_inOrder h).outcomes
  generalize run {} history = b at hdone hsound houtcomes
  have hstatuses : (b.posts.filterMap (·.outcome?)).map (·.1) = b.statuses := by
    rw [statuses, List.map_filterMap, ← List.filterMap_eq_map]
    refine List.filterMap_congr fun p hp => ?_
    obtain ⟨took, htook⟩ := Option.isSome_iff_exists.mp (hdone p hp)
    simp [Post.outcome?, htook]
  have htook : (b.posts.filterMap (·.outcome?)).map (·.2) = b.posts.filterMap (·.stage.took?) := by
    rw [List.map_filterMap]
    refine List.filterMap_congr fun p _ => ?_
    cases h : p.stage.took? <;> simp [Post.outcome?, h]
  have hall := hsound.honest.setAll
  rw [houtcomes, hstatuses, htook, ← hsound.cell] at hall
  exact hall

end Board

end MacroRelay
