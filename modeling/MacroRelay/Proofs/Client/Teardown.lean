import MacroRelay.Proofs.Client.Hub

/-!
# How a connection ends

Reader and writer end a connection when they cannot go on, a client ends it by closing, and a call
ends it when the writer has its request and does not get it written before the time of the call is
up. Nothing else does. The first cause stays, and a call that comes later is refused.

A call looks at its time before it waits for the writer, and while it waits it takes the end of its
time or a writer that is free, whichever it finds. So the writer may take a request whose time ran
out in between, and then the call blames a connection that does nothing wrong.
-/

namespace MacroRelay

namespace Hub

-- ---------------------------------------------------------------------------
-- The cause
-- ---------------------------------------------------------------------------

variable {h h' : Hub} {m : Move} {k : Nat} {c c' : Call} {history : List Move} {cause : Cause}
  {why : Expiry}

theorem err_step (hs : h.step m = some h') (he : h.err = some cause) : h'.err = some cause := by
  cases step_stepped hs with
  | blamed _ hn | closed hn => rw [he] at hn; cases hn
  | _ => exact he

theorem gone_step (hs : h.step m = some h') (hg : h.gone = true) : h'.gone = true := by
  cases step_stepped hs with
  | shut _ _ => rfl
  | _ => exact hg

theorem gone_err {moves : List Move} (hrun : run {} moves = some h) (hg : h.gone = true) :
    h.err ≠ none := by
  refine run_keeps (P := fun h => h.gone = true → h.err ≠ none) ?_ hrun nofun hg
  intro h m h' hs hold
  cases step_stepped hs with
  | blamed _ _ | closed _ => exact fun _ => Option.some_ne_none _
  | shut he _ => exact fun _ => he
  | _ => exact hold

-- ---------------------------------------------------------------------------
-- Reader and writer
-- ---------------------------------------------------------------------------

theorem step_failing (hs : h.step m = some h') :
    (∀ fault, h'.reader = .failing fault → h.reader = .failing fault ∨ m = .failRead fault) ∧
      (h'.writer = .failing → h.writer = .failing ∨ m = .wrote false) := by
  cases step_stepped hs with
  | failedRead _ =>
    refine ⟨fun fault hf => .inr ?_, .inl⟩
    cases hf
    rfl
  | @wrote _ _ well _ _ =>
    refine ⟨fun _ => .inl, fun hf => .inr ?_⟩
    cases well with
    | false => rfl
    | true => cases hf
  | read | matched | dropped | delivered | passedReader => exact ⟨nofun, .inl⟩
  | handed | stopped | passedWriter => exact ⟨fun _ => .inl, nofun⟩
  | _ => exact ⟨fun _ => .inl, .inl⟩

theorem run_failing (hrun : run {} history = some h) :
    (∀ fault, h.reader = .failing fault → .failRead fault ∈ history) ∧
      (h.writer = .failing → .wrote false ∈ history) := by
  refine run_induction (P := fun history h =>
    (∀ fault, h.reader = .failing fault → .failRead fault ∈ history) ∧
      (h.writer = .failing → .wrote false ∈ history))
    ⟨fun _ h => (by cases h), fun h => (by cases h)⟩ ?_ hrun
  rintro history h m h' - ⟨hreader, hwriter⟩ hs
  obtain ⟨hreader', hwriter'⟩ := step_failing hs
  refine ⟨fun fault hf => ?_, fun hf => ?_⟩
  · rcases hreader' fault hf with hf | rfl
    · exact List.mem_append_left _ (hreader fault hf)
    · simp
  · rcases hwriter' hf with hf | rfl
    · exact List.mem_append_left _ (hwriter hf)
    · simp

-- ---------------------------------------------------------------------------
-- Calls that end a connection
-- ---------------------------------------------------------------------------

def Move.expiry? (k : Nat) : Move → Option Expiry
  | .expire j why => if j = k then some why else none
  | _ => none

def timeUp? (history : List Move) (k : Nat) : Option Expiry :=
  history.findSome? (Move.expiry? k)

/-- The call looked at its time, and it was not up. -/
def Looked (history : List Move) (k : Nat) : Prop :=
  ∃ early late, history = early ++ .act k .checkTime :: late ∧ timeUp? early k = none

/-- The writer has the request of call `k`, the time of the call is up, and there is no report yet. -/
def Waiting (history : List Move) (k : Nat) (why : Expiry) : Prop :=
  ∃ h c, run {} history = some h ∧ h.calls[k]? = some c ∧ c.stage = .handed ∧
    c.expiry = some why ∧ c.report = none

/-- The time of call `k` ran out after the writer had taken its request, and the call noticed that
before the writer said what became of the request. -/
def Stalled (history : List Move) (k : Nat) (why : Expiry) : Prop :=
  ∃ before between after,
    history = before ++ .act k .handOver :: (between ++ .act k .noticeExpiry :: after) ∧
    timeUp? before k = none ∧ Waiting (before ++ .act k .handOver :: between) k why

/-- The time of call `k` ran out after the call had looked at it and before the writer took the
request, and the call noticed that only once the writer had it. -/
def Overtaken (history : List Move) (k : Nat) (why : Expiry) : Prop :=
  ∃ before between after,
    history = before ++ .act k .handOver :: (between ++ .act k .noticeExpiry :: after) ∧
    Looked before k ∧ timeUp? before k = some why ∧
    Waiting (before ++ .act k .handOver :: between) k why

/-- The call gave up on a request that the writer had. -/
def GaveUp (history : List Move) (k : Nat) (why : Expiry) : Prop :=
  Stalled history k why ∨ Overtaken history k why

def Call.GivesUp (c : Call) (why : Expiry) : Prop :=
  c.stage = .stalling why ∨ c.stage = .leaving (c.expired why) ∨ c.stage = .returned (c.expired why)

theorem timeUp?_concat (history : List Move) (m : Move) (k : Nat) :
    timeUp? (history ++ [m]) k = (timeUp? history k).or (m.expiry? k) := by
  simp [timeUp?, List.findSome?_append]

theorem Move.expiry?_eq_some : m.expiry? k = some why ↔ m = .expire k why := by
  cases m <;> simp [expiry?]

theorem Looked.concat (hl : Looked history k) (m : Move) : Looked (history ++ [m]) k := by
  obtain ⟨early, late, rfl, hnone⟩ := hl
  exact ⟨early, late ++ [m], by simp, hnone⟩

theorem GaveUp.concat (hg : GaveUp history k why) (m : Move) : GaveUp (history ++ [m]) k why := by
  rcases hg with ⟨before, between, after, rfl, hst⟩ | ⟨before, between, after, rfl, hst⟩
  · exact .inl ⟨before, between, after ++ [m], by simp, hst⟩
  · exact .inr ⟨before, between, after ++ [m], by simp, hst⟩

structure Call.Told (history : List Move) (k : Nat) (c : Call) : Prop where
  expiry : c.expiry = timeUp? history k
  looked : c.stage = .admitted ∨ c.stage = .registered → Looked history k
  handed : c.stage = .handed →
    ∃ before between, history = before ++ .act k .handOver :: between ∧ Looked before k
  weary : ∀ why, c.stage = .weary why → c.report = none → GaveUp history k why
  stalling : ∀ why, c.stage = .stalling why → GaveUp history k why
  blamed : .blame (.call k) ∈ history → ∃ why, GaveUp history k why ∧ c.GivesUp why

theorem blame_call {k : Nat} (hs : h.step (.blame (.call k)) = some h') (hc : h.calls[k]? = some c) :
    ∃ why, c.stage = .stalling why := by
  obtain ⟨cause, hcharge, -⟩ := Option.bind_eq_some_iff.mp hs
  obtain ⟨d, hd, hcharge⟩ := Option.bind_eq_some_iff.mp hcharge
  obtain rfl : c = d := Option.some.inj (hc.symm.trans hd)
  split at hcharge
  · exact ⟨_, ‹_›⟩
  · cases hcharge

theorem Call.expired_goTo (c : Call) (s : Stage) (a : Act) (why : Expiry) :
    (c.goTo s a).expired why = c.expired why := by
  cases a <;> rfl

theorem Call.expiry_goTo (c : Call) (s : Stage) (a : Act) : (c.goTo s a).expiry = c.expiry := by
  cases a <;> rfl

theorem step_expiry (hs : h.step m = some h') (hc : h.calls[k]? = some c)
    (hc' : h'.calls[k]? = some c') : c'.expiry = c.expiry.or (m.expiry? k) := by
  cases hm : m.expiry? k with
  | some why =>
    obtain rfl := Move.expiry?_eq_some.mp hm
    obtain ⟨d, hd, hs⟩ := Option.bind_eq_some_iff.mp hs
    obtain rfl : c = d := Option.some.inj (hc.symm.trans hd)
    cases hs
    obtain rfl := Option.some.inj (hc'.symm.trans (getElem?_set_of_some hc _))
    rfl
  | none =>
    rw [Option.or_none]
    obtain ⟨d, hd, ht⟩ := step_turn hs hc
    obtain rfl : c' = d := Option.some.inj (hc'.symm.trans hd)
    cases ht with
    | acted _ => exact c.expiry_goTo _ _
    | expired => cases (Move.expiry?_eq_some.mpr rfl).symm.trans hm
    | kept | reported _ | delivered _ _ | passed _ _ => rfl

/-- A stalling call waits for the connection to be gone, a leaving one returns as it is about to, and
one that has returned does nothing more. -/
theorem Call.Leads.last {err : Option Cause} {gone : Bool} {a : Act} {s : Stage}
    (hl : c.Leads err gone a s) : (∀ why, c.stage ≠ .stalling why) ∧
      (∀ outcome, c.stage ≠ .returned outcome) ∧
      ∀ outcome, c.stage = .leaving outcome → s = .returned outcome := by
  cases hl with
  | rejected h _ => rcases h with h | h | h <;> simp [h]
  | expired h _ => rcases h with h | h <;> simp [h]
  | refused h _ | opened h _ | lapsed h _ | admitted h _ | registered h | handed h | written h _
  | unwritten h _ | weary h _ | late h _ | lost h _ | stalling h _ | turnedAway h | cutOff h
  | answered h _ | returned h => simp [h]

theorem Call.GivesUp.leads {err : Option Cause} {gone : Bool} {a : Act} {s : Stage}
    (hg : c.GivesUp why) (hl : c.Leads err gone a s) : s = .returned (c.expired why) := by
  obtain ⟨hstalling, hreturned, hleaving⟩ := hl.last
  rcases hg with hg | hg | hg
  · exact absurd hg (hstalling why)
  · exact hleaving _ hg
  · exact absurd hg (hreturned _)

namespace Call.Told

theorem gaveUp (hc : c.Told history k) (hrun : run {} history = some h) (hget : h.calls[k]? = some c)
    (hs : c.stage = .handed) (he : c.expiry = some why) (hr : c.report = none) :
    GaveUp (history ++ [.act k .noticeExpiry]) k why := by
  obtain ⟨before, between, rfl, hlooked⟩ := hc.handed hs
  have hwaiting : Waiting (before ++ .act k .handOver :: between) k why :=
    ⟨h, c, hrun, hget, hs, he, hr⟩
  have hsplit : before ++ .act k .handOver :: between ++ [.act k .noticeExpiry] =
      before ++ .act k .handOver :: (between ++ .act k .noticeExpiry :: []) := by simp
  cases hup : timeUp? before k with
  | none => exact .inl ⟨before, between, [], hsplit, hup, hwaiting⟩
  | some w =>
    -- the first end of the time is the one that counts
    have hwhy := hc.expiry.symm.trans he
    rw [timeUp?, List.findSome?_append, ← timeUp?, hup, Option.some_or, Option.some.injEq] at hwhy
    subst hwhy
    exact .inr ⟨before, between, [], hsplit, hlooked, hup, hwaiting⟩

theorem frame (hc : c.Told history k) (hexpiry : c'.expiry = timeUp? (history ++ [m]) k)
    (hmethod : c'.method = c.method) (hstage : c'.stage = c.stage)
    (hreport : c'.report = none → c.report = none)
    (hblame : m = .blame (.call k) → ∃ why, c.stage = .stalling why) :
    c'.Told (history ++ [m]) k := by
  have hgives (why : Expiry) (hg : c.GivesUp why) : c'.GivesUp why := by
    unfold GivesUp expired at hg ⊢
    rw [hmethod, hstage]
    exact hg
  constructor
  case expiry => exact hexpiry
  case looked => exact fun hs => (hc.looked (hstage ▸ hs)).concat m
  case handed =>
    intro hs
    obtain ⟨before, between, rfl, hlooked⟩ := hc.handed (hstage ▸ hs)
    exact ⟨before, between ++ [m], by simp, hlooked⟩
  case weary => exact fun why hs hr => (hc.weary why (hstage ▸ hs) (hreport hr)).concat m
  case stalling => exact fun why hs => (hc.stalling why (hstage ▸ hs)).concat m
  case blamed =>
    intro hb
    rcases List.mem_append.mp hb with hb | hb
    · obtain ⟨why, hst, hg⟩ := hc.blamed hb
      exact ⟨why, hst.concat m, hgives why hg⟩
    · obtain ⟨why, hs⟩ := hblame (List.mem_singleton.mp hb).symm
      exact ⟨why, (hc.stalling why hs).concat m, hgives why (.inl hs)⟩

theorem goTo {err : Option Cause} {gone : Bool} {a : Act} {s : Stage} (hrun : run {} history = some h)
    (hget : h.calls[k]? = some c) (hc : c.Told history k) (hl : c.Leads err gone a s) :
    (c.goTo s a).Told (history ++ [.act k a]) k := by
  constructor
  case expiry =>
    rw [expiry_goTo, hc.expiry, timeUp?_concat]
    exact Option.or_none.symm
  case looked =>
    intro hs
    rw [goTo_stage] at hs
    rcases hs with rfl | rfl
    · cases hl with
      | admitted _ he => exact ⟨history, [], rfl, hc.expiry.symm.trans he⟩
    · cases hl with
      | registered hs => exact (hc.looked (.inl hs)).concat _
  case handed =>
    intro hs
    rw [goTo_stage] at hs
    subst hs
    cases hl with
    | handed hs => exact ⟨history, [], rfl, hc.looked (.inr hs)⟩
  case weary =>
    intro why hs hr
    rw [goTo_stage] at hs
    subst hs
    cases hl with
    | weary hs he => exact hc.gaveUp hrun hget hs he hr
  case stalling =>
    intro why hs
    rw [goTo_stage] at hs
    subst hs
    cases hl with
    | stalling hs hr => exact (hc.weary why hs hr).concat _
  case blamed =>
    intro hb
    rcases List.mem_append.mp hb with hb | hb
    · obtain ⟨why, hst, hg⟩ := hc.blamed hb
      refine ⟨why, hst.concat _, .inr (.inr ?_)⟩
      rw [goTo_stage, expired_goTo, hg.leads hl]
    · cases List.mem_singleton.mp hb

theorem turn (hrun : run {} history = some h) (hget : h.calls[k]? = some c) (hc : c.Told history k)
    (hs : h.step m = some h') (hget' : h'.calls[k]? = some c') (ht : Turn h k c m c') :
    c'.Told (history ++ [m]) k := by
  have hexpiry : c'.expiry = timeUp? (history ++ [m]) k := by
    rw [timeUp?_concat, ← hc.expiry]
    exact step_expiry hs hget hget'
  cases ht with
  | kept => exact hc.frame hexpiry rfl rfl (fun hr => hr) fun hm => blame_call (hm ▸ hs) hget
  | acted hl => exact hc.goTo hrun hget hl
  | expired | delivered _ _ => exact hc.frame hexpiry rfl rfl (fun hr => hr) nofun
  | reported _ => exact hc.frame hexpiry rfl rfl nofun nofun
  | passed hstage hg =>
    refine ⟨hexpiry, nofun, nofun, nofun, nofun, fun hb => ?_⟩
    rcases List.mem_append.mp hb with hb | hb
    · obtain ⟨why, hst, hgives⟩ := hc.blamed hb
      refine ⟨why, hst.concat _, .inr (.inl ?_)⟩
      unfold GivesUp at hgives
      rw [hstage] at hgives
      rcases hgives with hw | hw | hw <;> cases hw
      rfl
    · cases List.mem_singleton.mp hb

end Call.Told

theorem mention_lt (hrun : run {} history = some h) (hm : m ∈ history)
    (hk : m = .blame (.call k) ∨ m = .expire k why) : k < h.calls.length := by
  refine run_induction (P := fun history h => ∀ m ∈ history, m = .blame (.call k) ∨
    m = .expire k why → k < h.calls.length) nofun ?_ hrun m hm hk
  intro history h last h' hrun hold hs m hm hk
  rcases List.mem_append.mp hm with hm | hm
  · exact Nat.lt_of_lt_of_le (hold m hm hk) (length_step hs)
  · obtain rfl := List.mem_singleton.mp hm
    refine Nat.lt_of_lt_of_le ?_ (length_step hs)
    rcases hk with rfl | rfl
    · obtain ⟨cause, hcharge, -⟩ := Option.bind_eq_some_iff.mp hs
      obtain ⟨c, hc, -⟩ := Option.bind_eq_some_iff.mp hcharge
      exact (List.getElem?_eq_some_iff.mp hc).1
    · obtain ⟨c, hc, -⟩ := Option.bind_eq_some_iff.mp hs
      exact (List.getElem?_eq_some_iff.mp hc).1

theorem told (hrun : run {} history = some h) (hget : h.calls[k]? = some c) : c.Told history k := by
  refine run_induction (P := fun history h => ∀ (k : Nat) (c : Call), h.calls[k]? = some c →
    c.Told history k) (fun k c hc => by simp at hc) ?_ hrun k c hget
  intro history h m h' hrun hold hs k c' hc'
  rcases step_call hs hc' with ⟨method, reads, rfl, rfl, rfl⟩ | ⟨c, hget, ht⟩
  · -- nothing has been said about a call that starts
    have hnew (m : Move) (hm : m ∈ history ++ [.start method reads]) (why : Expiry)
        (hk : m = .blame (.call h.calls.length) ∨ m = .expire h.calls.length why) : False := by
      rcases List.mem_append.mp hm with hm | hm
      · exact absurd (mention_lt hrun hm hk) (Nat.lt_irrefl _)
      · obtain rfl := List.mem_singleton.mp hm
        rcases hk with hk | hk <;> cases hk
    refine ⟨Eq.symm ?_, nofun, nofun, nofun, nofun, fun hb => (hnew _ hb .deadline (.inl rfl)).elim⟩
    refine List.findSome?_eq_none_iff.mpr fun m hm => Option.eq_none_iff_forall_ne_some.mpr ?_
    exact fun why hw => hnew m hm why (.inr (Move.expiry?_eq_some.mp hw))
  · exact (hold k c hget).turn hrun hget hs hc' ht

/-- The writer has not had the request of the call yet. -/
def Stage.IsAsking : Stage → Prop
  | .numbered | .opened | .admitted | .registered => True
  | _ => False

theorem Call.Leads.past {err : Option Cause} {gone : Bool} {a : Act} {s : Stage}
    (hl : c.Leads err gone a s) (hc : ¬ c.stage.IsAsking) : a ≠ .handOver ∧ ¬ s.IsAsking := by
  cases hl with
  | rejected h _ => exact ⟨nofun, not_false⟩
  | expired h _ => exact ⟨nofun, not_false⟩
  | _ => simp_all [Stage.IsAsking]

theorem handed_once {before rest : List Move}
    (hrun : run {} (before ++ .act k .handOver :: rest) = some h) : .act k .handOver ∉ rest := by
  rw [← List.singleton_append, ← List.append_assoc, run, List.foldlM_append] at hrun
  obtain ⟨mid, hmid, hrest⟩ := Option.bind_eq_some_iff.mp hrun
  have hmid : run {} (before ++ [.act k .handOver]) = some mid := hmid
  rw [run_concat] at hmid
  obtain ⟨asking, -, hstep⟩ := Option.bind_eq_some_iff.mp hmid
  have hpast : ∃ c, mid.calls[k]? = some c ∧ ¬ c.stage.IsAsking := by
    cases step_stepped hstep with
    | acted _ _ _ hh _ => exact absurd rfl hh
    | handed hc _ _ => exact ⟨_, getElem?_set_of_some hc _, not_false⟩
  refine (run_induction (P := fun moves h => .act k .handOver ∉ moves ∧
    ∃ c, h.calls[k]? = some c ∧ ¬ c.stage.IsAsking) ⟨List.not_mem_nil, hpast⟩ ?_ hrest).1
  rintro moves mid m last - ⟨hnot, c, hget, hc⟩ hs
  obtain ⟨c', hget', ht⟩ := step_turn hs hget
  have hturn : m ≠ .act k .handOver ∧ ¬ c'.stage.IsAsking := by
    cases ht with
    | kept =>
      refine ⟨?_, hc⟩
      rintro rfl
      cases step_stepped hs with
      | acted _ _ _ hh _ => exact absurd rfl hh
      | handed hd hstage _ =>
        obtain rfl := Option.some.inj (hget.symm.trans hd)
        exact hc (by rw [hstage]; trivial)
    | acted hl =>
      obtain ⟨ha, hs⟩ := hl.past hc
      exact ⟨fun hm => ha (Move.act.inj hm).2, by rwa [Call.goTo_stage]⟩
    | expired | reported _ | delivered _ _ => exact ⟨fun hm => (by cases hm), hc⟩
    | passed _ _ => exact ⟨fun hm => (by cases hm), not_false⟩
  refine ⟨fun hm => ?_, c', hget', hturn.2⟩
  rcases List.mem_append.mp hm with hm | hm
  · exact hnot hm
  · exact hturn.1 (List.mem_singleton.mp hm).symm

theorem Stalled.not_overtaken {w : Expiry} (hrun : run {} history = some h)
    (hst : Stalled history k why) : ¬ Overtaken history k w := by
  rintro ⟨before', between', after', hsplit', -, hup', -⟩
  obtain ⟨before, between, after, rfl, hup, -⟩ := hst
  have hrest := handed_once hrun
  have hbefore : .act k .handOver ∉ before := by
    intro hmem
    obtain ⟨front, behind, rfl⟩ := List.append_of_mem hmem
    rw [List.append_assoc, List.cons_append] at hrun
    exact handed_once hrun (by simp)
  obtain ⟨rfl, -, -⟩ := (List.append_cons_inj_of_notMem hbefore hrest).mp hsplit'
  cases hup.symm.trans hup'

/-- How a step can end a connection that nobody has ended yet. -/
inductive Felled (history : List Move) (h : Hub) : Move → Cause → Prop
  | unreadable {fault : Pack.Fault} (hm : .failRead fault ∈ history) :
    Felled history h (.blame .reader) (.unreadable fault)
  | unwritable (hm : .wrote false ∈ history) : Felled history h (.blame .writer) .unwritable
  | closed : Felled history h .close .closed
  | stalled {j : Nat} {d : Call} {w : Expiry} (hd : h.calls[j]? = some d)
    (hst : GaveUp history j w) : Felled history h (.blame (.call j)) (.stalled d.method w)

theorem charged (hrun : run {} history = some h) {p : Party} (hc : h.charge? p = some cause) :
    Felled history h (.blame p) cause := by
  obtain ⟨hreader, hwriter⟩ := run_failing hrun
  cases p with
  | reader =>
    simp only [charge?] at hc
    split at hc
    · rename_i fault hf
      cases hc
      exact .unreadable (hreader fault hf)
    · cases hc
  | writer =>
    simp only [charge?] at hc
    split at hc
    · rename_i hf
      cases hc
      exact .unwritable (hwriter hf)
    · cases hc
  | call k =>
    obtain ⟨c, hget, hc⟩ := Option.bind_eq_some_iff.mp hc
    split at hc
    · rename_i why hstage
      cases hc
      exact .stalled hget ((told hrun hget).stalling why hstage)
    · cases hc

theorem felled (hrun : run {} history = some h) (hs : h.step m = some h') (he : h.err = none)
    (he' : h'.err = some cause) : Felled history h m cause := by
  cases step_stepped hs with
  | blamed hc _ =>
    cases he'
    exact charged hrun hc
  | closed _ =>
    cases he'
    exact .closed
  | _ => cases he.symm.trans he'

/-- The call asks for nothing any more. -/
def Stage.IsLeaving : Stage → Prop
  | .refused | .rejected | .leaving _ | .returned _ => True
  | _ => False

theorem Call.Leads.leaving {err : Option Cause} {gone : Bool} {a : Act} {s : Stage}
    (hl : c.Leads err gone a s) (hc : c.stage.IsLeaving) : s.IsLeaving := by
  cases hl with
  | rejected h _ => rcases h with h | h | h <;> simp [h, Stage.IsLeaving] at hc
  | expired h _ => rcases h with h | h <;> simp [h, Stage.IsLeaving] at hc
  | _ => simp_all [Stage.IsLeaving]

/-- The time of the call was up before it looked; or the writer has said what became of its request;
or it has its outcome: a failure that the server reports, a result that cannot be decoded, the end
of its time while it waited for the writer, or any other. -/
inductive Call.Spares (c : Call) : Prop
  | late (hs : c.stage = .numbered ∨ c.stage = .opened) (he : c.expiry ≠ none)
  | reported (hs : ∀ why, c.stage ≠ .stalling why) (hr : c.report ≠ none)
  | leaving (hs : c.stage.IsLeaving)

theorem Call.Spares.stage (hc : c.Spares) (why : Expiry) : c.stage ≠ .stalling why := by
  intro hs
  cases hc with
  | late h _ => rcases h with h | h <;> cases hs.symm.trans h
  | reported h _ => exact h why hs
  | leaving h => rw [hs] at h; exact h

theorem Call.Spares.goTo {err : Option Cause} {gone : Bool} {a : Act} {s : Stage} (hc : c.Spares)
    (hl : c.Leads err gone a s) : (c.goTo s a).Spares := by
  have hreport : (c.goTo s a).report = c.report := by cases a <;> rfl
  have hexpiry : (c.goTo s a).expiry = c.expiry := by cases a <;> rfl
  cases hc with
  | late hs he =>
    have hnext : s.IsLeaving ∨ s = .opened := by
      rcases hs with hs | hs <;> cases hl <;> simp_all [Stage.IsLeaving]
    rcases hnext with hs' | hs'
    · exact .leaving (by rw [goTo_stage]; exact hs')
    · exact .late (.inr (by rw [goTo_stage, hs'])) (hexpiry ▸ he)
  | reported hs hr =>
    refine .reported (fun why hw => ?_) (hreport ▸ hr)
    rw [goTo_stage] at hw
    subst hw
    cases hl with
    | stalling _ hn => exact hr hn
  | leaving hs =>
    refine .leaving ?_
    rw [goTo_stage]
    exact hl.leaving hs

theorem Call.Spares.turn (hc : c.Spares) (ht : Turn h k c m c') : c'.Spares := by
  cases ht with
  | kept => exact hc
  | acted hl => exact hc.goTo hl
  | passed _ _ => exact .leaving trivial
  | reported _ => exact .reported hc.stage (Option.some_ne_none _)
  | expired =>
    cases hc with
    | late hs he =>
      refine .late hs fun h => he ?_
      exact (Option.or_eq_none_iff.mp h).1
    | reported hs hr => exact .reported hs hr
    | leaving hs => exact .leaving hs
  | delivered _ _ =>
    cases hc with
    | late hs he => exact .late hs he
    | reported hs hr => exact .reported hs hr
    | leaving hs => exact .leaving hs

/-- A call that is late, or has its report or its outcome, ends nothing. -/
theorem Call.Spares.run {moves : List Move} (hc : c.Spares) (hget : h.calls[k]? = some c)
    (hrun : h.run moves = some h') : .blame (.call k) ∉ moves := by
  have hkept : .blame (.call k) ∉ moves ∧ ∃ c', h'.calls[k]? = some c' ∧ c'.Spares := by
    refine run_induction (P := fun moves h' => .blame (.call k) ∉ moves ∧
      ∃ c', h'.calls[k]? = some c' ∧ c'.Spares) ⟨List.not_mem_nil, c, hget, hc⟩ ?_ hrun
    rintro moves mid m last - ⟨hnot, c, hget, hc⟩ hs
    obtain ⟨c', hget', ht⟩ := step_turn hs hget
    refine ⟨fun hb => ?_, c', hget', hc.turn ht⟩
    rcases List.mem_append.mp hb with hb | hb
    · exact hnot hb
    · obtain rfl := List.mem_singleton.mp hb
      obtain ⟨why, hstage⟩ := blame_call hs hget
      exact hc.stage why hstage
  exact hkept.1

-- ---------------------------------------------------------------------------
-- Calls on a connection that is gone
-- ---------------------------------------------------------------------------

/-- Where a call is that came when the connection was gone: it has yet to see that, it has yet to
ask why, or it has returned with the cause. -/
def Call.IsRefused (c : Call) (cause : Cause) : Prop :=
  c.stage = .numbered ∨ c.stage = .refused ∨ c.stage = .returned (.error (.closed c.method cause))

/-- The connection is gone, and call `k` is refused for it. -/
structure Refuses (h : Hub) (k : Nat) (method : Text) (cause : Cause) : Prop where
  err : h.err = some cause
  gone : h.gone = true
  call : ∃ c, h.calls[k]? = some c ∧ c.method = method ∧ c.IsRefused cause

theorem Call.IsRefused.leads {a : Act} {s : Stage} (hr : c.IsRefused cause)
    (hl : c.Leads (some cause) true a s) : (a = .checkOpen ∨ a = .readCause) ∧
      (c.goTo s a).IsRefused cause := by
  rcases hr with hr | hr | hr
  · cases hl with
    | refused _ _ => exact ⟨.inl rfl, .inr (.inl rfl)⟩
    | opened _ hg => cases hg
    | rejected h _ => rcases h with h | h | h <;> cases hr.symm.trans h
    | expired h _ => rcases h with h | h <;> cases hr.symm.trans h
    | lapsed h _ | admitted h _ | registered h | handed h | written h _ | unwritten h _ | weary h _
    | late h _ | lost h _ | stalling h _ | turnedAway h | cutOff h | answered h _ | returned h =>
      cases hr.symm.trans h
  · cases hl with
    | turnedAway _ => exact ⟨.inr rfl, .inr (.inr rfl)⟩
    | rejected h _ => rcases h with h | h | h <;> cases hr.symm.trans h
    | expired h _ => rcases h with h | h <;> cases hr.symm.trans h
    | refused h _ | opened h _ | lapsed h _ | admitted h _ | registered h | handed h | written h _
    | unwritten h _ | weary h _ | late h _ | lost h _ | stalling h _ | cutOff h | answered h _
    | returned h => cases hr.symm.trans h
  · exact absurd hr (hl.last.2.1 _)

namespace Refuses

variable {method : Text}

theorem step (hr : h.Refuses k method cause) (hs : h.step m = some h') :
    (∀ a, m = .act k a → a = .checkOpen ∨ a = .readCause) ∧ h'.Refuses k method cause := by
  obtain ⟨herr, hgone, c, hc, rfl, hrefused⟩ := hr
  refine ⟨?_, err_step hs herr, gone_step hs hgone, ?_⟩
  · rintro a rfl
    obtain ⟨d, hd, hs⟩ := Option.bind_eq_some_iff.mp hs
    obtain rfl : c = d := Option.some.inj (hc.symm.trans hd)
    obtain ⟨s, hnext, -⟩ := Option.bind_eq_some_iff.mp hs
    rw [herr, hgone] at hnext
    exact (hrefused.leads (Call.next_leads hnext)).1
  · obtain ⟨c', hc', ht⟩ := step_turn hs hc
    cases ht with
    | kept | expired | reported _ | delivered _ _ => exact ⟨_, hc', rfl, hrefused⟩
    | acted hl =>
      rw [herr, hgone] at hl
      exact ⟨_, hc', Call.goTo_method _ _ _, (hrefused.leads hl).2⟩
    | passed hstage _ => rcases hrefused with hr | hr | hr <;> cases hstage.symm.trans hr

theorem start (hg : h.gone = true) (he : h.err = some cause) {reads : Text → Bool}
    (hs : h.step (.start method reads) = some h') : h'.Refuses h.calls.length method cause := by
  cases hs
  exact ⟨he, hg, _, List.getElem?_concat_length, rfl, .inl rfl⟩

theorem run {moves : List Move} (hr : h.Refuses k method cause) (hrun : h.run moves = some h') :
    (∀ a, .act k a ∈ moves → a = .checkOpen ∨ a = .readCause) ∧ h'.Refuses k method cause := by
  refine run_induction (P := fun moves h => (∀ a, .act k a ∈ moves → a = .checkOpen ∨ a = .readCause) ∧
    h.Refuses k method cause) ⟨nofun, hr⟩ ?_ hrun
  rintro moves mid m last - ⟨hacts, hmid⟩ hs
  obtain ⟨hact, hlast⟩ := hmid.step hs
  refine ⟨fun a ha => ?_, hlast⟩
  rcases List.mem_append.mp ha with ha | ha
  · exact hacts a ha
  · exact hact a (List.mem_singleton.mp ha).symm

theorem finish (hr : h.Refuses k method cause) : ∃ (acts : List Act) (h' : Hub) (c : Call),
    acts.length ≤ 2 ∧ h.run (acts.map (.act k)) = some h' ∧ h'.calls[k]? = some c ∧
      c.stage = .returned (.error (.closed method cause)) := by
  obtain ⟨herr, hgone, c, hc, rfl, hr⟩ := hr
  have hask : ∀ (g : Hub) (d : Call), g.calls[k]? = some d → d.stage = .refused → g.err = some cause →
      g.step (.act k .readCause) = some (g.put k { d with stage := .returned (d.closed g.err) }) :=
    fun g d hd hstage herr => step_act hd (by simp [Call.next, hstage])
  rcases hr with hr | hr | hr
  · have hsee : h.step (.act k .checkOpen) = some (h.put k { c with stage := .refused }) :=
      step_act hc (by simp [Call.next, hr, hgone])
    have hput := getElem?_set_of_some hc { c with stage := .refused }
    have hrun := (run_cons [.act k .readCause] hsee).trans
      (run_cons [] (hask (h.put k _) _ hput rfl herr))
    refine ⟨[.checkOpen, .readCause], _, _, by decide, hrun, getElem?_set_of_some hput _, ?_⟩
    simp [Call.closed, put, herr]
  · have hrun := run_cons [] (hask h c hc hr herr)
    refine ⟨[.readCause], _, _, by decide, hrun, getElem?_set_of_some hc _, ?_⟩
    simp [Call.closed, herr]
  · exact ⟨[], h, c, by decide, rfl, hc, hr⟩

end Refuses

/-- Whatever happened so far: a connection ends by its reader, by its writer, by closing, or by a
call that gave up on a request that the writer had. Such a call returns with the end of its own time,
which ran out while the writer had the request, or else after the call had looked at its time and
before the writer took the request. A call whose time was up before it looked, or that has a report
or an outcome, does not end the connection. Once the connection is gone there is a cause, the first
one, and both stay. A call that starts then takes no step but to see that and to ask why, and two
such steps are enough for it to return. -/
theorem torn_down (hrun : run {} history = some h) :
    (∀ m h' cause, h.step m = some h' → h.err = none → h'.err = some cause →
      Felled history h m cause) ∧
    (∀ k, .blame (.call k) ∈ history → ∃ c why, h.calls[k]? = some c ∧ c.GivesUp why ∧
      (Stalled history k why ↔ ¬ Overtaken history k why)) ∧
    (∀ k c moves h', h.calls[k]? = some c → c.Spares → h.run moves = some h' →
      .blame (.call k) ∉ moves) ∧
    (h.gone = true → h.err ≠ none) ∧
    (∀ cause moves h', h.err = some cause → h.run moves = some h' →
      h'.err = some cause ∧ (h.gone = true → h'.gone = true)) ∧
    ∀ method reads h₁ moves h₂, h.gone = true → h.step (.start method reads) = some h₁ →
      h₁.run moves = some h₂ →
        (∀ a, .act h.calls.length a ∈ moves → a = .checkOpen ∨ a = .readCause) ∧
        ∃ cause, h.err = some cause ∧ h₂.Refuses h.calls.length method cause ∧
          ∃ (acts : List Act) (h₃ : Hub) (c : Call), acts.length ≤ 2 ∧
            h₂.run (acts.map (.act h.calls.length)) = some h₃ ∧
            h₃.calls[h.calls.length]? = some c ∧
            c.stage = .returned (.error (.closed method cause)) := by
  refine ⟨fun m h' cause => felled hrun, fun k hb => ?_, fun k c moves h' hget hc => hc.run hget,
    fun hg => ?_, fun cause moves h' he hmoves => ⟨?_, fun hg => ?_⟩, ?_⟩
  · have hmention : Move.blame (.call k) = .blame (.call k) ∨ Move.blame (.call k) = .expire k .deadline :=
      .inl rfl
    obtain ⟨c, hc⟩ : ∃ c, h.calls[k]? = some c :=
      ⟨_, List.getElem?_eq_getElem (mention_lt hrun hb hmention)⟩
    obtain ⟨why, hgave, hg⟩ := (told hrun hc).blamed hb
    refine ⟨c, why, hc, hg, fun hst => hst.not_overtaken hrun, fun hnot => ?_⟩
    exact hgave.resolve_right hnot
  · exact gone_err hrun hg
  · exact run_keeps (P := (·.err = some cause)) err_step hmoves he
  · exact run_keeps (P := (·.gone = true)) gone_step hmoves hg
  · intro method reads h₁ moves h₂ hg hs hmoves
    obtain ⟨cause, he⟩ := Option.ne_none_iff_exists'.mp (gone_err hrun hg)
    obtain ⟨hacts, hrefuses⟩ := (Refuses.start hg he hs).run hmoves
    exact ⟨hacts, cause, he, hrefuses, hrefuses.finish⟩

/-- The time of a call is up while the writer is at its request. -/
def deadlinePassed : List Move := [
  .start "a" fun _ => true, .act 0 .checkOpen, .act 0 .checkTime, .act 0 .register, .act 0 .handOver,
  .expire 0 .deadline, .act 0 .noticeExpiry, .act 0 .lookAgain, .blame (.call 0), .shut,
  .pass (.call 0), .act 0 .leave]

theorem stalled_deadlinePassed : Stalled deadlinePassed 0 .deadline :=
  ⟨deadlinePassed.take 4, [.expire 0 .deadline], deadlinePassed.drop 7, rfl, rfl, _, _, rfl, rfl, rfl,
    rfl, rfl⟩

theorem torn_down_deadlinePassed : ∃ h, run {} deadlinePassed = some h ∧
    h.err = some (.stalled "a" .deadline) ∧
    (∃ c why, h.calls[0]? = some c ∧ c.GivesUp why ∧ Stalled deadlinePassed 0 why) ∧
    (∀ moves h', h.run moves = some h' → h'.err = some (.stalled "a" .deadline)) ∧
    ∀ moves h₁ h₂, h.step (.start "b" fun _ => true) = some h₁ → h₁.run moves = some h₂ →
      .act 1 .handOver ∉ moves ∧ h₂.Refuses 1 "b" (.stalled "a" .deadline) := by
  have hend : (run {} deadlinePassed).map (fun h => (h.err, h.gone, h.calls.length)) =
      some (some (.stalled "a" .deadline), true, 1) := by
    decide +kernel
  obtain ⟨h, hrun, hends⟩ := Option.map_eq_some_iff.mp hend
  simp only [Prod.mk.injEq] at hends
  obtain ⟨he, hgone, hlen⟩ := hends
  obtain ⟨-, hblamed, -, -, hkept, hrefused⟩ := torn_down hrun
  refine ⟨h, hrun, he, ?_, fun moves h' hmoves => (hkept _ moves h' he hmoves).1, ?_⟩
  · obtain ⟨c, why, hc, hg, hiff⟩ := hblamed 0 (by simp [deadlinePassed])
    exact ⟨c, why, hc, hg, hiff.mpr (stalled_deadlinePassed.not_overtaken hrun)⟩
  · intro moves h₁ h₂ hs hmoves
    obtain ⟨hacts, cause, hcause, hr, -⟩ := hrefused _ _ h₁ moves h₂ hgone hs hmoves
    obtain rfl := Option.some.inj (he.symm.trans hcause)
    rw [hlen] at hacts hr
    refine ⟨fun hm => ?_, hr⟩
    rcases hacts _ hm with h | h <;> cases h

/-- The time of a call is up before the writer takes its request, which it then writes well. -/
def deadlineOvertaken : List Move := [
  .start "a" fun _ => true, .act 0 .checkOpen, .act 0 .checkTime, .act 0 .register,
  .expire 0 .deadline, .act 0 .handOver, .act 0 .noticeExpiry, .act 0 .lookAgain, .wrote true,
  .blame (.call 0), .shut]

theorem overtaken_deadlineOvertaken : Overtaken deadlineOvertaken 0 .deadline :=
  ⟨deadlineOvertaken.take 5, [], deadlineOvertaken.drop 7, rfl,
    ⟨deadlineOvertaken.take 2, [.act 0 .register, .expire 0 .deadline], rfl, rfl⟩, rfl, _, _, rfl, rfl,
    rfl, rfl, rfl⟩

/-- A response whose result is not a value. -/
def brokenResult : Text :=
  [0x82, 0xa2, 0x69, 0x64, 0x01, 0xa6, 0x72, 0x65, 0x73, 0x75, 0x6c, 0x74, 0xc1]

/-- A connection that reads and writes well ends for a call whose time was up before the writer took
its request; and a result that is no value at all ends the connection too, by its reader. -/
theorem torn_down_otherwise :
    (∃ h, run {} deadlineOvertaken = some h ∧ h.gone = true ∧
      h.err = some (.stalled "a" .deadline) ∧ timeUp? (deadlineOvertaken.take 5) 0 = some .deadline ∧
      deadlineOvertaken[5]? = some (.act 0 .handOver) ∧ ∀ why, ¬ Stalled deadlineOvertaken 0 why) ∧
    Response.codec.readValue brokenResult = .error .malformed ∧
    ∃ h, run {} [.failRead .malformed, .blame .reader, .shut] = some h ∧ h.gone = true := by
  have hend : (run {} deadlineOvertaken).map (fun h => (h.err, h.gone)) =
      some (some (.stalled "a" .deadline), true) := by
    decide +kernel
  obtain ⟨h, hrun, hends⟩ := Option.map_eq_some_iff.mp hend
  simp only [Prod.mk.injEq] at hends
  obtain ⟨he, hgone⟩ := hends
  have hbroken : Response.codec.readValue brokenResult = .error .malformed := by
    decide +kernel
  exact ⟨⟨h, hrun, hgone, he, rfl, rfl, fun why hst =>
    hst.not_overtaken hrun overtaken_deadlineOvertaken⟩, hbroken, _, rfl, rfl⟩

end Hub

end MacroRelay
