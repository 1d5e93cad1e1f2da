import MacroRelay.Proofs.Client.Hub
import Mathlib.Algebra.Group.Nat.Defs
import Mathlib.Data.List.Basic

/-!
# Responses reach the call they answer, once

A response can come at any time: before the request is written, after the call has given up, for
a number that nobody has, or twice. It is matched to a call by its number, and the match is undone
as it is used. So of an entry among the pending, a response on its way, and a response that a call
has heard, there is only ever one for each call, and the reader finds room wherever it delivers.
-/

namespace MacroRelay

namespace Hub

/-- Whether a response can be matched to a call. -/
inductive Phase where
  | before
  | listed
  | over
deriving DecidableEq

def Stage.phase : Stage → Phase
  | .numbered | .opened | .admitted | .refused => .before
  | .returned _ => .over
  | _ => .listed

namespace Call

def HasReturned (c : Call) : Prop :=
  ∃ outcome, c.stage = .returned outcome

def heard (c : Call) : List Response :=
  c.inbox ++ c.taken

variable {c : Call} {err : Option Cause} {gone : Bool} {a : Act} {s : Stage}

theorem HasReturned.phase (h : c.HasReturned) : c.stage.phase = .over := by
  obtain ⟨outcome, hs⟩ := h
  rw [hs]
  rfl

/-- A call is listed by registering, and no longer listed by leaving. Before it registers it can
return without having been listed. -/
theorem Leads.phase (h : c.Leads err gone a s) :
    (a = .register ∧ c.stage.phase = .before ∧ s.phase = .listed) ∨
    (a = .leave ∧ c.stage.phase = .listed ∧ s.phase = .over) ∨
    (a ≠ .register ∧ a ≠ .leave ∧
      (s.phase = c.stage.phase ∨ (c.stage.phase = .before ∧ s.phase = .over))) := by
  cases h with
  | rejected h _ => rcases h with h | h | h <;> simp [h, Stage.phase]
  | expired h _ => rcases h with h | h <;> simp [h, Stage.phase]
  | _ => simp [*, Stage.phase]

theorem goTo_heard (c : Call) (s : Stage) (a : Act) (h : c.heard.length ≤ 1) :
    (c.goTo s a).heard = c.heard := by
  cases a with
  | takeAnswer =>
    obtain ⟨id, method, reads, stage, expiry, report, inbox, taken⟩ := c
    cases inbox with
    | nil => simp [goTo, heard]
    | cons r rest =>
      simp only [heard, List.length_append, List.length_cons] at h
      obtain rfl : rest = [] := List.length_eq_zero_iff.mp (by omega)
      obtain rfl : taken = [] := List.length_eq_zero_iff.mp (by omega)
      rfl
  | _ => rfl

end Call

-- ---------------------------------------------------------------------------
-- One ticket for each call
-- ---------------------------------------------------------------------------

/-- Call number `k` has heard one response to its own number at most, and none before it was
listed. -/
structure Call.Sound (k : Nat) (c : Call) : Prop where
  id : c.id = (k + 1).toUInt64
  own : ∀ r ∈ c.heard, r.id = c.id
  once : c.heard.length ≤ 1
  fresh : c.stage.phase = .before → c.heard = []

/-- Who is among the pending has heard nothing and has nothing on its way. -/
structure Routed (h : Hub) : Prop where
  lastId : h.lastId = h.calls.length.toUInt64
  sound : ∀ k (c : Call), h.calls[k]? = some c → c.Sound k
  pending : ∀ id k, (id, k) ∈ h.pending → (∀ r, h.reader ≠ .delivering r k) ∧
    ∃ c, h.calls[k]? = some c ∧ c.id = id ∧ c.stage.phase = .listed ∧ c.heard = []
  delivering : ∀ r k, h.reader = .delivering r k →
    ∃ c, h.calls[k]? = some c ∧ c.id = r.id ∧ c.stage.phase ≠ .before ∧ c.heard = []

theorem Call.Sound.goTo {k : Nat} {c : Call} {err : Option Cause} {gone : Bool} {a : Act}
    {s : Stage} (hc : c.Sound k) (hl : c.Leads err gone a s) : (c.goTo s a).Sound k := by
  have hheard := goTo_heard c s a hc.once
  refine ⟨by rw [goTo_id]; exact hc.id, ?_, by rw [hheard]; exact hc.once, ?_⟩
  · rw [hheard, goTo_id]
    exact hc.own
  · rw [goTo_stage, hheard]
    intro hs
    refine hc.fresh ?_
    rcases hl.phase with ⟨-, hbefore, -⟩ | ⟨-, -, hover⟩ | ⟨-, -, hkept | ⟨hbefore, -⟩⟩
    · exact hbefore
    · rw [hover] at hs
      cases hs
    · rw [← hkept, hs]
    · exact hbefore

namespace Routed

variable {h h' : Hub} {k : Nat} {c c' : Call}

theorem start : Routed {} :=
  ⟨rfl, nofun, nofun, nofun⟩

theorem of_eq (hr : Routed h) (hlast : h'.lastId = h.lastId) (hcalls : h'.calls = h.calls)
    (hpending : h'.pending = h.pending) (hreader : h'.reader = h.reader) : Routed h' := by
  obtain ⟨_, _, _, _, _, _, _⟩ := h
  obtain ⟨_, _, _, _, _, _, _⟩ := h'
  cases hlast
  cases hcalls
  cases hpending
  cases hreader
  exact ⟨hr.lastId, hr.sound, hr.pending, hr.delivering⟩

theorem withReader (hr : Routed h) {reader : Reader} (hn : ∀ r k, reader ≠ .delivering r k) :
    Routed { h with reader } :=
  ⟨hr.lastId, hr.sound, fun id k hp => ⟨fun r => hn r k, (hr.pending id k hp).2⟩,
    fun r k hd => absurd hd (hn r k)⟩

theorem turn (hr : Routed h) (hc : h.calls[k]? = some c) (hs : c'.Sound k)
    (hheard : c'.heard = c.heard) (hphase : c'.stage.phase = .before → c.stage.phase = .before)
    {pending : List (UInt64 × Nat)} (hsub : pending ⊆ h.pending)
    (hlisted : ∀ id, (id, k) ∈ pending → c'.stage.phase = .listed) :
    Routed { h.put k c' with pending } := by
  have hid : c'.id = c.id := hs.id.trans (hr.sound k c hc).id.symm
  have hnow := getElem?_set_of_some hc c'
  refine ⟨?_, ?_, ?_, ?_⟩
  · simpa [put] using hr.lastId
  · intro j d hd
    rcases getElem?_set_eq_some hd with ⟨rfl, rfl⟩ | ⟨-, hd⟩
    · exact hs
    · exact hr.sound j d hd
  · intro id j hp
    obtain ⟨hfree, d, hd, hdid, hdphase, hdheard⟩ := hr.pending id j (hsub hp)
    refine ⟨hfree, ?_⟩
    by_cases hkj : k = j
    · subst hkj
      obtain rfl : c = d := Option.some.inj (hc.symm.trans hd)
      exact ⟨c', hnow, hid.trans hdid, hlisted id hp, hheard.trans hdheard⟩
    · exact ⟨d, by simp [List.getElem?_set_ne hkj, hd], hdid, hdphase, hdheard⟩
  · intro r j hd
    obtain ⟨d, hdc, hdid, hdphase, hdheard⟩ := hr.delivering r j hd
    by_cases hkj : k = j
    · subst hkj
      obtain rfl : c = d := Option.some.inj (hc.symm.trans hdc)
      exact ⟨c', hnow, hid.trans hdid, fun h => hdphase (hphase h), hheard.trans hdheard⟩
    · exact ⟨d, by simp [List.getElem?_set_ne hkj, hdc], hdid, hdphase, hdheard⟩

theorem turn_kept (hr : Routed h) (hc : h.calls[k]? = some c) (hs : c'.Sound k)
    (hheard : c'.heard = c.heard) (hphase : c'.stage.phase = .before → c.stage.phase = .before)
    (hlisted : c.stage.phase = .listed → c'.stage.phase = .listed) : Routed (h.put k c') := by
  refine (hr.turn hc hs hheard hphase (List.Subset.refl _) fun id hp => hlisted ?_).of_eq rfl rfl rfl rfl
  obtain ⟨-, d, hd, -, hdphase, -⟩ := hr.pending id k hp
  obtain rfl : c = d := Option.some.inj (hc.symm.trans hd)
  exact hdphase

theorem touch (hr : Routed h) (hc : h.calls[k]? = some c) (hid : c'.id = c.id)
    (hheard : c'.heard = c.heard) (hstage : c'.stage.phase = c.stage.phase) : Routed (h.put k c') := by
  obtain ⟨hcid, hown, honce, hfresh⟩ := hr.sound k c hc
  refine hr.turn_kept hc ⟨hid.trans hcid, ?_, ?_, ?_⟩ hheard (fun h => hstage ▸ h) fun h => hstage ▸ h
  · rw [hheard, hid]
    exact hown
  · rw [hheard]
    exact honce
  · rw [hheard, hstage]
    exact hfresh

theorem enlist (hr : Routed h) (hc : h.calls[k]? = some c) (hphase : c.stage.phase = .listed)
    (hheard : c.heard = []) (hfree : ∀ r, h.reader ≠ .delivering r k) :
    Routed { h with pending := (c.id, k) :: h.pending } := by
  refine ⟨hr.lastId, hr.sound, fun id j hp => ?_, hr.delivering⟩
  rcases List.mem_cons.mp hp with hp | hp
  · cases hp
    exact ⟨hfree, c, hc, rfl, hphase, hheard⟩
  · exact hr.pending id j hp

theorem acted (hr : Routed h) (hc : h.calls[k]? = some c) {err : Option Cause} {gone : Bool}
    {a : Act} {s : Stage} (hl : c.Leads err gone a s) (hreg : a ≠ .register) (hleave : a ≠ .leave) :
    Routed (h.put k (c.goTo s a)) := by
  have hsound := hr.sound k c hc
  obtain ⟨ha, -, -⟩ | ⟨ha, -, -⟩ | ⟨-, -, hphase⟩ := hl.phase
  · exact absurd ha hreg
  · exact absurd ha hleave
  · refine hr.turn_kept hc (hsound.goTo hl) (c.goTo_heard s a hsound.once) ?_ ?_
    · rw [Call.goTo_stage]
      rcases hphase with hkept | ⟨hbefore, -⟩
      · exact fun h => hkept ▸ h
      · exact fun _ => hbefore
    · rw [Call.goTo_stage]
      rcases hphase with hkept | ⟨hbefore, -⟩
      · exact fun h => hkept ▸ h
      · exact fun h => by rw [hbefore] at h; cases h

theorem registered (hr : Routed h) (hc : h.calls[k]? = some c) (hs : c.stage = .admitted) :
    Routed { h.put k { c with stage := .registered } with pending := (c.id, k) :: h.pending } := by
  have hsound := hr.sound k c hc
  have hbefore : c.stage.phase = .before := by rw [hs]; rfl
  have hl : c.Leads h.err h.gone .register .registered := .registered hs
  have hput : Routed (h.put k { c with stage := .registered }) :=
    hr.turn_kept hc (hsound.goTo hl) rfl (fun _ => hbefore) fun h => by rw [hbefore] at h; cases h
  -- nothing is on its way to a call that was not listed yet
  have hfree : ∀ r, h.reader ≠ .delivering r k := by
    intro r hd
    obtain ⟨d, hdc, -, hdphase, -⟩ := hr.delivering r k hd
    obtain rfl : c = d := Option.some.inj (hc.symm.trans hdc)
    exact hdphase hbefore
  exact hput.enlist (c := { c with stage := .registered }) (getElem?_set_of_some hc _) rfl
    (hsound.fresh hbefore) hfree

theorem left (hr : Routed h) (hc : h.calls[k]? = some c) {outcome : Outcome}
    (hs : c.stage = .leaving outcome) :
    Routed ((h.put k { c with stage := .returned outcome }).unlist c.id) := by
  have hl : c.Leads h.err h.gone .leave (.returned outcome) := .returned hs
  refine hr.turn hc ((hr.sound k c hc).goTo hl) rfl nofun (fun e he => (List.mem_filter.mp he).1) ?_
  intro id hp
  obtain ⟨hp, hne⟩ := List.mem_filter.mp hp
  obtain ⟨-, d, hd, hid, -⟩ := hr.pending id k hp
  obtain rfl : c = d := Option.some.inj (hc.symm.trans hd)
  simp [hid] at hne

theorem dropped (hr : Routed h) (id : UInt64) {reader : Reader}
    (hn : ∀ r k, reader ≠ .delivering r k) : Routed { h.unlist id with reader } :=
  ⟨hr.lastId, hr.sound, fun id k hp => ⟨fun r => hn r k,
    (hr.pending id k (List.mem_filter.mp hp).1).2⟩, fun r k hd => absurd hd (hn r k)⟩

theorem matched (hr : Routed h) {r : Response} (hk : h.pending.lookup r.id = some k) :
    Routed { h.unlist r.id with reader := .delivering r k } := by
  obtain ⟨-, c, hc, hid, hlisted, hheard⟩ := hr.pending r.id k (mem_of_lookup hk)
  refine ⟨hr.lastId, hr.sound, fun id j hp => ?_, fun r' j hd => ?_⟩
  · obtain ⟨hp, hne⟩ := List.mem_filter.mp hp
    obtain ⟨-, d, hd, hdid, hdlisted, hdheard⟩ := hr.pending id j hp
    refine ⟨fun r' hreader => ?_, d, hd, hdid, hdlisted, hdheard⟩
    -- the call that the response was matched to has no other entry
    cases hreader
    obtain rfl : c = d := Option.some.inj (hc.symm.trans hd)
    simp [← hdid, hid] at hne
  · cases hd
    exact ⟨c, hc, hid, by rw [hlisted]; decide, hheard⟩

theorem delivered (hr : Routed h) {r : Response} (hreader : h.reader = .delivering r k)
    (hc : h.calls[k]? = some c) :
    Routed { h.put k { c with inbox := [r] } with reader := .reading } := by
  obtain ⟨d, hdc, hdid, hdphase, hdheard⟩ := hr.delivering r k hreader
  obtain rfl : c = d := Option.some.inj (hc.symm.trans hdc)
  have htaken : c.taken = [] := (List.append_eq_nil_iff.mp hdheard).2
  have hheard : ({ c with inbox := [r] } : Call).heard = [r] := by simp [Call.heard, htaken]
  refine ⟨by simpa [put] using hr.lastId, fun j d hd => ?_, fun id j hp => ?_, nofun⟩
  · rcases getElem?_set_eq_some hd with ⟨rfl, rfl⟩ | ⟨-, hd⟩
    · refine ⟨(hr.sound j c hc).id, ?_, ?_, fun h => absurd h hdphase⟩
      · rw [hheard]
        intro r' hr'
        rw [List.mem_singleton.mp hr', hdid]
      · rw [hheard]
        exact Nat.le_refl 1
    · exact hr.sound j d hd
  · obtain ⟨hfree, d, hd, hpending⟩ := hr.pending id j hp
    have hkj : k ≠ j := fun h => hfree r (h ▸ hreader)
    exact ⟨nofun, d, by simp [List.getElem?_set_ne hkj, hd], hpending⟩

theorem numbered (hr : Routed h) (method : Text) (reads : Text → Bool) : Routed { h with
    lastId := h.lastId + 1
    calls := h.calls ++ [{ id := h.lastId + 1, method, reads }] } := by
  have hnext : h.lastId + 1 = (h.calls.length + 1).toUInt64 := by
    rw [hr.lastId]
    exact (UInt64.ofNat_add _ _).symm
  refine ⟨by simpa using hnext, fun k c hc => ?_, fun id k hp => ?_, fun r k hd => ?_⟩
  · rcases getElem?_concat_eq_some hc with hc | ⟨rfl, rfl⟩
    · exact hr.sound k c hc
    · exact ⟨hnext, nofun, Nat.zero_le 1, fun _ => rfl⟩
  · obtain ⟨hfree, c, hc, hpending⟩ := hr.pending id k hp
    exact ⟨hfree, c, getElem?_concat_of_some hc _, hpending⟩
  · obtain ⟨c, hc, hdelivering⟩ := hr.delivering r k hd
    exact ⟨c, getElem?_concat_of_some hc _, hdelivering⟩

theorem step (hr : Routed h) {m : Move} (hs : h.step m = some h') : Routed h' := by
  cases step_stepped hs with
  | start => exact hr.numbered _ _
  | acted hc hl hreg _ hleave => exact hr.acted hc hl hreg hleave
  | registered hc hstage => exact hr.registered hc hstage
  | handed hc hstage hw =>
    have hl : Call.Leads _ h.err h.gone .handOver .handed := .handed hstage
    exact (hr.acted hc hl nofun nofun).of_eq rfl rfl rfl rfl
  | left hc hstage => exact hr.left hc hstage
  | expired hc => exact hr.touch hc rfl rfl rfl
  | @wrote k c well hw hc =>
    have hput : Routed (h.put k { c with report := some well }) := hr.touch hc rfl rfl rfl
    exact hput.of_eq rfl rfl rfl rfl
  | read | failedRead | passedReader => exact hr.withReader nofun
  | matched hreader hk => exact hr.matched hk
  | dropped hreader hk => exact hr.dropped _ nofun
  | delivered hreader hc hi => exact hr.delivered hreader hc
  | passedCall hc hstage hg => exact hr.touch hc rfl rfl (by rw [hstage]; rfl)
  | stopped | blamed | passedWriter | closed | closedAgain | shut => exact hr.of_eq rfl rfl rfl rfl

theorem run {moves : List Move} (hrun : run {} moves = some h) : Routed h :=
  run_keeps (fun hs hr => hr.step hs) hrun start

theorem distinct (hr : Routed h) (hlen : h.calls.length < 2 ^ 64) {j : Nat} {d : Call}
    (hc : h.calls[k]? = some c) (hd : h.calls[j]? = some d) (hid : c.id = d.id) : k = j := by
  have hk := (List.getElem?_eq_some_iff.mp hc).1
  have hj := (List.getElem?_eq_some_iff.mp hd).1
  have hnat := congrArg UInt64.toNat hid
  rw [(hr.sound k c hc).id, (hr.sound j d hd).id, UInt64.toNat_ofNat', UInt64.toNat_ofNat',
    Nat.mod_eq_of_lt (by omega), Nat.mod_eq_of_lt (by omega)] at hnat
  exact Nat.succ.inj hnat

theorem not_pending (hr : Routed h) (hlen : h.calls.length < 2 ^ 64) (hc : h.calls[k]? = some c)
    (hphase : c.stage.phase ≠ .listed) : c.id ∉ h.pending.map (·.1) := by
  intro hmem
  obtain ⟨⟨id, j⟩, hp, hid⟩ := List.mem_map.mp hmem
  obtain ⟨-, d, hd, hdid, hlisted, -⟩ := hr.pending id j hp
  obtain rfl := hr.distinct hlen hc hd (hid.symm.trans hdid.symm)
  obtain rfl : c = d := Option.some.inj (hc.symm.trans hd)
  exact hphase hlisted

theorem deliver_isSome (hr : Routed h) {r : Response} (hd : h.reader = .delivering r k) :
    (h.step .deliver).isSome := by
  obtain ⟨c, hc, -, -, hheard⟩ := hr.delivering r k hd
  have hinbox : c.inbox = [] := (List.append_eq_nil_iff.mp hheard).1
  simp [Hub.step, hd, hc, hinbox]

end Routed

/-- As long as there are numbers for all calls: numbers tell calls apart, a call hears responses to
its own number only and no more than one, the reader never waits for room, and the pending are
calls that have not returned. -/
theorem responses_routed {moves : List Move} {h : Hub} (hrun : run {} moves = some h)
    (hlen : h.calls.length < 2 ^ 64) :
    (∀ (k j : Nat) (c d : Call), h.calls[k]? = some c → h.calls[j]? = some d →
      c.id = d.id → k = j) ∧
    (∀ c ∈ h.calls, (∀ r ∈ c.inbox ++ c.taken, r.id = c.id) ∧ (c.inbox ++ c.taken).length ≤ 1) ∧
    (∀ r k, h.reader = .delivering r k → (h.step .deliver).isSome) ∧
    (∀ id k, (id, k) ∈ h.pending → ∃ c, h.calls[k]? = some c ∧ c.id = id ∧ ¬ c.HasReturned) ∧
    ∀ c ∈ h.calls, c.HasReturned → c.id ∉ h.pending.map (·.1) := by
  have hr := Routed.run hrun
  refine ⟨fun k j c d hc hd => hr.distinct hlen hc hd, fun c hc => ?_,
    fun r k hd => hr.deliver_isSome hd, fun id k hp => ?_, fun c hc hreturned => ?_⟩
  · obtain ⟨k, hk⟩ := List.mem_iff_getElem?.mp hc
    exact ⟨(hr.sound k c hk).own, (hr.sound k c hk).once⟩
  · obtain ⟨-, c, hc, hid, hlisted, -⟩ := hr.pending id k hp
    refine ⟨c, hc, hid, fun h => ?_⟩
    rw [h.phase] at hlisted
    cases hlisted
  · obtain ⟨k, hk⟩ := List.mem_iff_getElem?.mp hc
    exact hr.not_pending hlen hk (by rw [hreturned.phase]; decide)

/-- The second call is answered before its request is written, and once more; a number that nobody
has is answered; and the first call is answered between giving up and taking its number back. -/
def crossed : List Move := [
  .start "a" fun _ => true, .start "b" fun _ => true,
  .act 0 .checkOpen, .act 0 .checkTime, .act 0 .register, .act 0 .handOver, .wrote true,
  .act 0 .noticeReport, .act 1 .checkOpen, .act 1 .checkTime, .act 1 .register,
  .read { id := 2 }, .lookUp, .deliver, .read { id := 2 }, .lookUp, .read { id := 9 }, .lookUp,
  .expire 0 .cancelled, .act 0 .noticeExpiry, .read { id := 1 }, .lookUp, .act 0 .leave, .deliver,
  .act 1 .handOver, .wrote true, .act 1 .noticeReport, .act 1 .takeAnswer, .act 1 .leave]

theorem responses_routed_crossed : ∃ h, run {} crossed = some h ∧
    h.calls.map (fun c => (c.id, c.inbox.length, c.taken.length)) = [(1, 1, 0), (2, 0, 1)] ∧
    (∀ c ∈ h.calls, (∀ r ∈ c.inbox ++ c.taken, r.id = c.id) ∧ (c.inbox ++ c.taken).length ≤ 1) ∧
    ∀ c ∈ h.calls, c.HasReturned → c.id ∉ h.pending.map (·.1) := by
  have hend : (run {} crossed).map (fun h =>
      h.calls.map fun c => (c.id, c.inbox.length, c.taken.length)) = some [(1, 1, 0), (2, 0, 1)] := by
    decide +kernel
  obtain ⟨h, hrun, hcalls⟩ := Option.map_eq_some_iff.mp hend
  have hlen : h.calls.length = 2 := by simpa using congrArg List.length hcalls
  obtain ⟨-, hheard, -, -, hpending⟩ := responses_routed hrun (by omega)
  exact ⟨h, hrun, hcalls, hheard, hpending⟩

end Hub

end MacroRelay
