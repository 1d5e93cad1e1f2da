import MacroRelay.Proofs.Lists
import MacroRelay.Proofs.Sorted
import MacroRelay.Proofs.Trace.Sinks

/-!
# What a recorder tells its tracer

A recorder is used in any order: work is begun, noted on and ended, points and failures are told. The
recorder decides by the level that the tracer reports whether something is told at all, and every sink
decides once more by its own level. The two agree on everything, so that no number is lost on the way,
and every end event has its begin event.
-/

namespace MacroRelay.Trace

-- ---------------------------------------------------------------------------
-- Levels and sinks
-- ---------------------------------------------------------------------------

variable {t : Tracer} {l : Level} {e : Event}

theorem Level.accepts_of_ne_failure {kind : Kind} (h : kind ≠ Kind.failure) (scope : Scope) :
    l.accepts kind scope = l.admits scope := if_neg h

theorem Level.accepts_failure (scope : Scope) : l.accepts Kind.failure scope = l.enabled := if_pos rfl

namespace Tracer

def sinkLevels : Tracer → List Level
  | .silent => []
  | .feed f => [f.level]
  | .ring r => [r.level]
  | .both _ f r => [f.level, r.level]

theorem feed_level_mem {f : Feed} (h : t.feed? = some f) : f.level ∈ t.sinkLevels := by
  cases t <;> cases h <;> exact List.mem_cons_self

theorem ring_level_mem {r : Ring} (h : t.ring? = some r) : r.level ∈ t.sinkLevels := by
  cases t <;> cases h <;> simp [sinkLevels]

@[simp] theorem level_emit (t : Tracer) (e : Event) : (t.emit e).level = t.level := by
  cases t with
  | feed f => simp only [emit, level, Feed.emit]; split <;> rfl
  | ring r => exact r.emit_level e
  | _ => rfl

@[simp] theorem level_amend (t : Tracer) (id : UInt64) (extras : Extras) :
    (t.amend id extras).level = t.level := by
  cases t <;> rfl

@[simp] theorem feed?_amend (t : Tracer) (id : UInt64) (extras : Extras) :
    (t.amend id extras).feed? = t.feed? := by
  cases t <;> rfl

theorem ring?_amend (t : Tracer) (id : UInt64) (extras : Extras) :
    (t.amend id extras).ring? = t.ring?.map (·.amend id extras) := by
  cases t <;> rfl

theorem Made.level {s : Settings} (h : Made s t) : t.level = s.level := by
  cases h with
  | silent hoff => exact hoff.symm
  | _ => rfl

theorem Made.holds {s : Settings} (h : Made s t) {r : Ring} (hring : t.ring? = some r) :
    r.Holds [] := by
  cases h <;> cases hring <;> exact Ring.holds_empty _

theorem Made.sinks {s : Settings} (h : Made s t) : ∀ l ∈ t.sinkLevels, l = t.level := by
  cases h <;> simp [sinkLevels, Tracer.level, Settings.feed, Ring.empty]

end Tracer

-- ---------------------------------------------------------------------------
-- Notes
-- ---------------------------------------------------------------------------

namespace Extras

variable {key value : Text} {x : Extras}

theorem lookup_cons (k v key : Text) (rest : Extras) :
    List.lookup key ((k, v) :: rest) = if key = k then some v else rest.lookup key := by
  by_cases h : key = k
  · simp [h]
  · rw [List.lookup_cons, beq_eq_false_iff_ne.mpr h, if_neg h]

theorem lookup_set (key value k : Text) (x : Extras) :
    (x.set key value).lookup k = if k = key then some value else x.lookup k := by
  fun_induction set key value x with
  | case1 => exact lookup_cons key value k []
  | case2 v rest =>
    rw [lookup_cons, lookup_cons]
    by_cases hk : k = key <;> simp [hk]
  | case3 k' v rest hne hbefore => exact lookup_cons key value k _
  | case4 k' v rest hne hbefore ih =>
    rw [lookup_cons, lookup_cons, ih]
    by_cases hk : k = k'
    · simp [hk, Ne.symm hne]
    · simp [hk]

def Ordered (x : Extras) : Prop := x.Pairwise fun a b => a.1 < b.1

theorem mem_set {p : Text × Text} (h : p ∈ x.set key value) : p.1 = key ∨ p ∈ x := by
  fun_induction set key value x with
  | case1 => exact .inl (congrArg Prod.fst (List.mem_singleton.mp h))
  | case2 v rest =>
    rcases List.mem_cons.mp h with rfl | h
    · exact .inl rfl
    · exact .inr (List.mem_cons_of_mem _ h)
  | case3 k' v rest hne hbefore =>
    exact (List.mem_cons.mp h).imp_left (congrArg Prod.fst)
  | case4 k' v rest hne hbefore ih =>
    rcases List.mem_cons.mp h with rfl | h
    · exact .inr List.mem_cons_self
    · exact (ih h).imp_right (List.mem_cons_of_mem _)

theorem Ordered.set (h : x.Ordered) : (x.set key value).Ordered := by
  fun_induction Extras.set key value x with
  | case1 => exact List.pairwise_singleton _ _
  | case2 v rest => exact List.pairwise_cons.mpr (List.pairwise_cons.mp h)
  | case3 k' v rest hne hbefore =>
    have hlt : key < k' := Text.before_iff.mp hbefore
    refine List.pairwise_cons.mpr ⟨fun p hp => ?_, h⟩
    rcases List.mem_cons.mp hp with rfl | hp
    · exact hlt
    · exact List.lt_trans hlt ((List.pairwise_cons.mp h).1 p hp)
  | case4 k' v rest hne hbefore ih =>
    obtain ⟨hfirst, hrest⟩ := List.pairwise_cons.mp h
    refine List.pairwise_cons.mpr ⟨fun p hp => ?_, ih hrest⟩
    rcases mem_set hp with hkey | hp
    · have hle : k' ≤ key := List.not_lt.mp fun hlt => hbefore (Text.before_iff.mpr hlt)
      rw [hkey]
      exact List.not_le.mp fun hge => hne (List.le_antisymm hge hle)
    · exact hfirst p hp

end Extras

-- ---------------------------------------------------------------------------
-- Uses of a recorder
-- ---------------------------------------------------------------------------

/-- A use of a recorder. Work goes by its place among all work that was begun. -/
inductive Use where
  | start (scope : Scope) (name : Text) (parent : UInt64)
  | note (work : Nat) (key value : Text)
  | finish (work : Nat) (detail : Text)
  | point (scope : Scope) (name detail : Text)
  | fail (scope : Scope) (name failure : Text)
  | pass (now : Instant)

namespace Use

def isStart : Use → Bool
  | .start .. => true
  | _ => false

def work? : Use → Option Nat
  | .note i _ _ | .finish i _ => some i
  | _ => none

def ended? : Use → Option Nat
  | .finish i _ => some i
  | _ => none

def value? (i : Nat) (key : Text) : Use → Option Text
  | .note j k value => if j = i ∧ k = key then some value else none
  | _ => none

/-- Work is used after it was begun and not any more when it has ended. -/
def Fits (earlier : List Use) (u : Use) : Prop :=
  ∀ i, u.work? = some i → i < earlier.countP isStart ∧ ∀ v ∈ earlier, v.ended? ≠ some i

instance (earlier : List Use) (u : Use) : Decidable (u.Fits earlier) :=
  decidable_of_iff
    (∀ i ∈ u.work?.toList, i < earlier.countP isStart ∧ ∀ v ∈ earlier, v.ended? ≠ some i)
    (by simp [Fits])

theorem work?_of_value? {u : Use} {i : Nat} {key : Text} (h : u.value? i key ≠ none) :
    u.work? = some i := by
  cases u with
  | note j k value =>
    by_cases hj : j = i ∧ k = key
    · rw [hj.1]
      rfl
    · simp [value?, hj] at h
  | _ => exact absurd rfl h

end Use

/-- Every use fits what was before it. -/
def WellUsed (uses : List Use) : Prop :=
  ∀ earlier u later, uses = earlier ++ u :: later → u.Fits earlier

theorem wellUsed_iff {uses : List Use} :
    WellUsed uses ↔ ∀ n, (h : n < uses.length) → uses[n].Fits (uses.take n) := by
  constructor
  · intro h n hn
    refine h (uses.take n) uses[n] (uses.drop (n + 1)) ?_
    rw [← List.drop_eq_getElem_cons hn, List.take_append_drop]
  · rintro h earlier u later rfl
    have hlast := h earlier.length (by simp)
    simpa using hlast

instance (uses : List Use) : Decidable (WellUsed uses) := decidable_of_iff _ wellUsed_iff.symm

theorem WellUsed.of_append {uses more : List Use} (h : WellUsed (uses ++ more)) : WellUsed uses := by
  intro earlier u later heq
  exact h earlier u (later ++ more) (by rw [heq, List.append_assoc, List.cons_append])

theorem wellUsed_concat {uses : List Use} {u : Use} :
    WellUsed (uses ++ [u]) ↔ WellUsed uses ∧ u.Fits uses := by
  refine ⟨fun h => ⟨h.of_append, h uses u [] rfl⟩, fun ⟨h, hfits⟩ earlier v later heq => ?_⟩
  · rcases eq_or_of_concat_eq heq with ⟨rfl, rfl, -⟩ | ⟨front, huses, -⟩
    · exact hfits
    · exact h earlier v front huses

-- ---------------------------------------------------------------------------
-- Recordings
-- ---------------------------------------------------------------------------

def Event.ofStart (id parent : UInt64) (scope : Scope) (name : Text) : Event :=
  { seq := 0, kind := Kind.spanBegin, scope, spanId := id, parentId := parent, name }

def Event.ofFinish (id parent : UInt64) (scope : Scope) (name : Text) (extras : Extras)
    (detail : Text) : Event :=
  { seq := 0, kind := Kind.spanEnd, scope, spanId := id, parentId := parent, name, detail, extras }

def Recorder.stamp (r : Recorder) (e : Event) : Event :=
  { e with time := r.now, seq := r.lastSeq + 1 }

structure Recording where
  recorder : Recorder
  works : List Activity := []
  events : List Event := []

namespace Recording

def ofTracer (t : Tracer) (now : Instant) : Recording :=
  { recorder := { tracer := t, now } }

def workAt (r : Recording) (i : Nat) : Activity :=
  r.works.getD i .inert

def told? (r : Recording) : Use → Option Event
  | .start scope name parent =>
    if r.recorder.tracer.level.admits scope then
      some (.ofStart (r.recorder.lastSpan + 1) parent scope name)
    else none
  | .finish i detail =>
    match r.workAt i with
    | .live id parent scope name extras => some (.ofFinish id parent scope name extras detail)
    | .inert => none
  | .point scope name detail =>
    if r.recorder.tracer.level.admits scope then
      some { seq := 0, kind := Kind.point, scope, name, detail }
    else none
  | .fail scope name failure =>
    if r.recorder.tracer.enabled then
      some { seq := 0, kind := Kind.failure, scope, name, detail := failure }
    else none
  | .note .. | .pass _ => none

def step (r : Recording) (u : Use) : Recording :=
  let events := r.events ++ ((r.told? u).map r.recorder.stamp).toList
  match u with
  | .start scope name parent =>
    let (recorder, work) := r.recorder.start scope name parent
    { recorder, works := r.works ++ [work], events }
  | .note i key value =>
    let (recorder, work) := r.recorder.attach (r.workAt i) key value
    { recorder, works := r.works.set i work, events }
  | .finish i detail => { r with recorder := r.recorder.finish (r.workAt i) detail, events }
  | .point scope name detail => { r with recorder := r.recorder.point scope name detail, events }
  | .fail scope name failure => { r with recorder := r.recorder.fail scope name failure, events }
  | .pass now => { r with recorder := { r.recorder with now }, events }

def run (r : Recording) (uses : List Use) : Recording :=
  uses.foldl step r

@[simp] theorem run_nil (r : Recording) : r.run [] = r := rfl

theorem run_concat (r : Recording) (uses : List Use) (u : Use) :
    r.run (uses ++ [u]) = (r.run uses).step u :=
  List.foldl_concat ..

theorem run_append (r : Recording) (uses more : List Use) :
    r.run (uses ++ more) = (r.run uses).run more :=
  List.foldl_append

def tell (r : Recording) (e : Event) : Recording :=
  { r with recorder := r.recorder.emit e, events := r.events ++ [r.recorder.stamp e] }

inductive Turn (r : Recording) : Use → Recording → Prop
  | below {scope : Scope} {name : Text} {parent : UInt64} :
    r.recorder.tracer.level.admits scope = false →
    Turn r (.start scope name parent) { r with works := r.works ++ [.inert] }
  | start {scope : Scope} {name : Text} {parent : UInt64} :
    r.recorder.tracer.level.admits scope →
    Turn r (.start scope name parent)
      (tell { r with
          recorder.lastSpan := r.recorder.lastSpan + 1
          works := r.works ++ [.live (r.recorder.lastSpan + 1) parent scope name []] }
        (.ofStart (r.recorder.lastSpan + 1) parent scope name))
  | note {i : Nat} {key value : Text} {id parent : UInt64} {scope : Scope} {name : Text}
    {extras : Extras} : r.works[i]? = some (.live id parent scope name extras) →
    Turn r (.note i key value) { r with
      recorder.tracer := r.recorder.tracer.amend id (extras.set key value)
      works := r.works.set i (.live id parent scope name (extras.set key value)) }
  | finish {i : Nat} {detail : Text} {id parent : UInt64} {scope : Scope} {name : Text}
    {extras : Extras} : r.works[i]? = some (.live id parent scope name extras) →
    Turn r (.finish i detail) (r.tell (.ofFinish id parent scope name extras detail))
  | tell {u : Use} {e : Event} : u.work? = none → u.isStart = false → e.kind ≠ Kind.spanBegin →
    e.kind ≠ Kind.spanEnd → r.recorder.tracer.level.accepts e.kind e.scope → Turn r u (r.tell e)
  | pass {now : Instant} : Turn r (.pass now) { r with recorder.now := now }
  | idle {u : Use} : u.isStart = false → (∀ i, u.work? = some i → r.workAt i = .inert) → Turn r u r

variable {r r' : Recording} {u : Use} {uses : List Use}

theorem works_eq_of_workAt {i : Nat} {id parent : UInt64} {scope : Scope} {name : Text}
    {extras : Extras} (h : r.workAt i = .live id parent scope name extras) :
    r.works[i]? = some (.live id parent scope name extras) := by
  rw [workAt, List.getD_eq_getElem?_getD] at h
  cases hi : r.works[i]? with
  | none => simp [hi] at h
  | some work =>
    rw [hi] at h
    exact congrArg some h

theorem set_inert {i : Nat} (h : r.workAt i = .inert) : r.works.set i .inert = r.works := by
  rw [workAt, List.getD_eq_getElem?_getD] at h
  cases hi : r.works[i]? with
  | none => exact List.set_eq_of_length_le (List.getElem?_eq_none_iff.mp hi)
  | some work =>
    rw [hi] at h
    exact set_eq_self (hi.trans (congrArg some h))

theorem step_turn (r : Recording) (u : Use) : r.Turn u (r.step u) := by
  cases u with
  | start scope name parent =>
    cases h : r.recorder.tracer.level.admits scope with
    | false =>
      have hstep : r.step (.start scope name parent) = { r with works := r.works ++ [.inert] } := by
        simp [step, told?, Recorder.start, h]
      exact hstep ▸ .below h
    | true =>
      have hstep : r.step (.start scope name parent) =
          tell { r with
              recorder.lastSpan := r.recorder.lastSpan + 1
              works := r.works ++ [.live (r.recorder.lastSpan + 1) parent scope name []] }
            (.ofStart (r.recorder.lastSpan + 1) parent scope name) := by
        simp [step, told?, Recorder.start, h, tell, Event.ofStart, Recorder.stamp]
      exact hstep ▸ .start h
  | note i key value =>
    cases h : r.workAt i with
    | inert =>
      have hstep : r.step (.note i key value) = r := by
        simp [step, told?, Recorder.attach, h, set_inert h]
      rw [hstep]
      refine .idle rfl ?_
      rintro _ ⟨⟩
      exact h
    | live id parent scope name extras =>
      have hstep : r.step (.note i key value) = { r with
          recorder.tracer := r.recorder.tracer.amend id (extras.set key value)
          works := r.works.set i (.live id parent scope name (extras.set key value)) } := by
        simp [step, told?, Recorder.attach, h]
      exact hstep ▸ .note (works_eq_of_workAt h)
  | finish i detail =>
    cases h : r.workAt i with
    | inert =>
      have hstep : r.step (.finish i detail) = r := by
        simp [step, told?, Recorder.finish, h]
      rw [hstep]
      refine .idle rfl ?_
      rintro _ ⟨⟩
      exact h
    | live id parent scope name extras =>
      have hstep : r.step (.finish i detail) =
          r.tell (.ofFinish id parent scope name extras detail) := by
        simp [step, told?, Recorder.finish, h, tell, Event.ofFinish]
      exact hstep ▸ .finish (works_eq_of_workAt h)
  | point scope name detail =>
    cases h : r.recorder.tracer.level.admits scope with
    | false =>
      have hstep : r.step (.point scope name detail) = r := by
        simp [step, told?, Recorder.point, h]
      exact hstep.symm ▸ .idle rfl nofun
    | true =>
      have hstep : r.step (.point scope name detail) =
          r.tell { seq := 0, kind := Kind.point, scope, name, detail } := by
        simp [step, told?, Recorder.point, h, tell]
      have hkind : Kind.point ≠ Kind.spanBegin ∧ Kind.point ≠ Kind.spanEnd := by decide
      have haccepts : r.recorder.tracer.level.accepts Kind.point scope := by
        rwa [Level.accepts_of_ne_failure (by decide)]
      exact hstep ▸ .tell rfl rfl hkind.1 hkind.2 haccepts
  | fail scope name failure =>
    cases h : r.recorder.tracer.enabled with
    | false =>
      have hstep : r.step (.fail scope name failure) = r := by
        simp [step, told?, Recorder.fail, h]
      exact hstep.symm ▸ .idle rfl nofun
    | true =>
      have hstep : r.step (.fail scope name failure) =
          r.tell { seq := 0, kind := Kind.failure, scope, name, detail := failure } := by
        simp [step, told?, Recorder.fail, h, tell]
      have hkind : Kind.failure ≠ Kind.spanBegin ∧ Kind.failure ≠ Kind.spanEnd := by decide
      have haccepts : r.recorder.tracer.level.accepts Kind.failure scope := by
        rwa [Level.accepts_failure]
      exact hstep ▸ .tell rfl rfl hkind.1 hkind.2 haccepts
  | pass now =>
    have hstep : r.step (.pass now) = { r with recorder.now := now } := by
      simp [step, told?]
    exact hstep ▸ .pass

theorem run_keeps {P : Recording → Prop} (hr : P r)
    (hturn : ∀ r u r', P r → r.Turn u r' → P r') (uses : List Use) : P (r.run uses) := by
  induction uses using List.reverseRecOn with
  | nil => exact hr
  | append_singleton uses u ih =>
    rw [run_concat]
    exact hturn _ u _ ih (step_turn _ u)

end Recording

end MacroRelay.Trace
