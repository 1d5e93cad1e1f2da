import Mathlib.Data.List.Nodup
import MacroRelay.Proofs.Trace.Recording

/-!
# Numbers without gaps and ends that match

Every event that takes a number reaches every sink. An end event belongs to the only begin event with
its number, and carries what was noted on the work by then. Work below the level leaves nothing.

Numbers have 64 bits and go round. Those of spans are told apart as long as there are no more spans than
that.
-/

namespace MacroRelay.Trace

-- ---------------------------------------------------------------------------
-- Numbers in a row
-- ---------------------------------------------------------------------------

def Counted (numbers : List UInt64) : Prop :=
  numbers = (List.range numbers.length).map fun k => UInt64.ofNat (k + 1)

namespace Counted

variable {numbers : List UInt64}

theorem ofNat_succ (n : Nat) : UInt64.ofNat n + 1 = UInt64.ofNat (n + 1) := by
  rw [UInt64.ofNat_add]
  rfl

theorem nil : Counted [] := rfl

theorem concat (h : Counted numbers) : Counted (numbers ++ [UInt64.ofNat numbers.length + 1]) := by
  rw [Counted, List.length_append, List.length_singleton, List.range_succ, List.map_append, ← h,
    List.map_singleton, ofNat_succ]

theorem nodup (h : Counted numbers) (hfew : numbers.length < UInt64.size) : numbers.Nodup ∧ 0 ∉ numbers := by
  have hvalue {k : Nat} (hk : k < numbers.length) : (UInt64.ofNat (k + 1)).toNat = k + 1 :=
    UInt64.toNat_ofNat_of_lt (Nat.lt_of_le_of_lt hk hfew)
  rw [h]
  constructor
  · refine List.Nodup.map_on (fun a ha b hb heq => ?_) List.nodup_range
    have htoNat := congrArg UInt64.toNat heq
    rw [hvalue (List.mem_range.mp ha), hvalue (List.mem_range.mp hb)] at htoNat
    exact Nat.succ.inj htoNat
  · intro hzero
    obtain ⟨k, hk, heq⟩ := List.mem_map.mp hzero
    have htoNat := congrArg UInt64.toNat heq
    rw [hvalue (List.mem_range.mp hk)] at htoNat
    exact Nat.succ_ne_zero k htoNat

end Counted

-- ---------------------------------------------------------------------------
-- Work
-- ---------------------------------------------------------------------------

namespace Activity

def core? : Activity → Option (UInt64 × UInt64 × Scope × Text)
  | .inert => none
  | .live id parent scope name _ => some (id, parent, scope, name)

def id? (a : Activity) : Option UInt64 :=
  a.core?.map (·.1)

end Activity

def liveIds (works : List Activity) : List UInt64 :=
  works.filterMap Activity.id?

theorem liveIds_concat (works : List Activity) (a : Activity) :
    liveIds (works ++ [a]) = liveIds works ++ a.id?.toList := by
  rw [liveIds, List.filterMap_append]
  cases h : a.id? <;> simp [liveIds, h]

theorem liveIds_eq (works : List Activity) :
    liveIds works = (works.map Activity.core?).filterMap (·.map (·.1)) := by
  rw [liveIds, List.filterMap_map]
  rfl

theorem core?_set {works : List Activity} {i : Nat} {id parent : UInt64} {scope : Scope} {name : Text}
    {extras : Extras} (h : works[i]? = some (.live id parent scope name extras)) (more : Extras) :
    (works.set i (.live id parent scope name more)).map Activity.core? =
      works.map Activity.core? := by
  rw [List.map_set]
  exact set_eq_self (by rw [List.getElem?_map, h]; rfl)

theorem eq_of_id {works : List Activity} (h : (liveIds works).Nodup) {i j : Nat} {a b : Activity}
    {id : UInt64} (hi : works[i]? = some a) (hj : works[j]? = some b) (ha : a.id? = some id)
    (hb : b.id? = some id) : i = j := by
  rw [liveIds, List.Nodup, List.pairwise_filterMap, List.pairwise_iff_getElem] at h
  obtain ⟨hilt, rfl⟩ := List.getElem?_eq_some_iff.mp hi
  obtain ⟨hjlt, rfl⟩ := List.getElem?_eq_some_iff.mp hj
  rcases Nat.lt_trichotomy i j with hlt | heq | hlt
  · exact absurd rfl (h i j hilt hjlt hlt id ha id hb)
  · exact heq
  · exact absurd rfl (h j i hjlt hilt hlt id hb id ha)

namespace Recording

variable {t : Tracer} {s : Tracer.Settings} {start r r' : Recording} {u : Use}
  {uses earlier later : List Use} {e : Event}

theorem Turn.core?_grows (h : r.Turn u r') :
    r.works.map Activity.core? <+: r'.works.map Activity.core? := by
  have hgrows (a : Activity) :
      r.works.map Activity.core? <+: (r.works ++ [a]).map Activity.core? := by
    rw [List.map_append]
    exact List.prefix_append _ _
  cases h with
  | below _ => exact hgrows _
  | start _ => exact hgrows _
  | note hwork => simp only [core?_set hwork, List.prefix_rfl]
  | _ => exact List.prefix_rfl

theorem run_core?_grows (r : Recording) (uses : List Use) :
    r.works.map Activity.core? <+: (r.run uses).works.map Activity.core? := by
  induction uses generalizing r with
  | nil => exact List.prefix_rfl
  | cons u uses ih => exact (step_turn r u).core?_grows.trans (ih _)

theorem run_core? {i : Nat} {a : Activity} (h : r.works[i]? = some a) (uses : List Use) :
    ∃ b, (r.run uses).works[i]? = some b ∧ b.core? = a.core? := by
  have hcore : (r.works.map Activity.core?)[i]? = some a.core? := by simp [h]
  obtain ⟨more, hmore⟩ := run_core?_grows r uses
  have hlater : ((r.run uses).works.map Activity.core?)[i]? = some a.core? := by
    rw [← hmore, List.getElem?_append_left (List.getElem?_eq_some_iff.mp hcore).1, hcore]
  rw [List.getElem?_map] at hlater
  exact Option.map_eq_some_iff.mp hlater

theorem Turn.liveIds_le (h : r.Turn u r') :
    (liveIds r.works).length ≤ (liveIds r'.works).length := by
  rw [liveIds_eq, liveIds_eq]
  exact (h.core?_grows.filterMap _).length_le

theorem step_inert {i : Nat} (hwork : u.work? = some i) (h : r.works[i]? = some .inert) :
    r.step u = r := by
  generalize hr' : r.step u = r'
  cases hr' ▸ step_turn r u with
  | below | start | pass => cases hwork
  | note hlive =>
    cases hwork
    cases h.symm.trans hlive
  | finish hlive =>
    cases hwork
    cases h.symm.trans hlive
  | tell hnone => cases hnone.symm.trans hwork
  | idle => rfl

-- ---------------------------------------------------------------------------
-- Numbers of spans
-- ---------------------------------------------------------------------------

/-- Spans are numbered in the order in which they begin, and nothing else begins one. -/
structure Numbered (r : Recording) : Prop where
  counted : Counted (liveIds r.works)
  lastSpan : r.recorder.lastSpan = UInt64.ofNat (liveIds r.works).length
  begins : (r.events.filter (·.kind = Kind.spanBegin)).map (·.spanId) = liveIds r.works

theorem Numbered.tell (h : r.Numbered) (hkind : e.kind ≠ Kind.spanBegin) : (r.tell e).Numbered := by
  refine ⟨h.counted, h.lastSpan, Eq.trans ?_ h.begins⟩
  simp [Recording.tell, Recorder.stamp, List.filter_append, hkind]

theorem Numbered.turn (h : r.Numbered) (hturn : r.Turn u r') : r'.Numbered := by
  cases hturn with
  | below _ =>
    have hids : liveIds (r.works ++ [.inert]) = liveIds r.works :=
      (liveIds_concat ..).trans (List.append_nil _)
    exact ⟨by rw [hids]; exact h.counted, by rw [hids]; exact h.lastSpan, h.begins.trans hids.symm⟩
  | @start scope name parent _ =>
    have hids : liveIds (r.works ++ [.live (r.recorder.lastSpan + 1) parent scope name []]) =
        liveIds r.works ++ [r.recorder.lastSpan + 1] := liveIds_concat ..
    simp only [Recording.tell]
    constructor
    · rw [hids, h.lastSpan]
      exact h.counted.concat
    · rw [hids, List.length_append, List.length_singleton, ← Counted.ofNat_succ, ← h.lastSpan]
      rfl
    · rw [hids, ← h.begins]
      simp [List.filter_append, Recorder.stamp, Event.ofStart]
  | @note i key value id parent scope name extras hwork =>
    have hids (more : Extras) :
        liveIds (r.works.set i (.live id parent scope name more)) = liveIds r.works := by
      rw [liveIds_eq, liveIds_eq, core?_set hwork]
    exact ⟨by rw [hids]; exact h.counted, by rw [hids]; exact h.lastSpan,
      h.begins.trans (hids _).symm⟩
  | finish _ => exact h.tell (by simp [Event.ofFinish, Kind.spanBegin, Kind.spanEnd])
  | tell _ _ hkind => exact h.tell hkind
  | pass => exact ⟨h.counted, h.lastSpan, h.begins⟩
  | idle => exact h

theorem run_numbered (t : Tracer) (now : Instant) (uses : List Use) :
    ((ofTracer t now).run uses).Numbered :=
  run_keeps ⟨.nil, rfl, rfl⟩ (fun _ _ _ => Numbered.turn) uses

theorem Numbered.begin_unique (h : r.Numbered) (hfew : (liveIds r.works).length < UInt64.size)
    {id : UInt64} (hid : id ∈ liveIds r.works) :
    r.events.countP (fun b => b.kind = Kind.spanBegin ∧ b.spanId = id) = 1 := by
  have honce : (liveIds r.works).count id = 1 :=
    List.count_eq_one_of_mem (h.counted.nodup hfew).1 hid
  rw [← h.begins, List.count, List.countP_map, List.countP_filter] at honce
  rw [← honce]
  refine List.countP_congr fun b _ => ?_
  simp [and_comm]

-- ---------------------------------------------------------------------------
-- What reaches the sinks
-- ---------------------------------------------------------------------------

/-- Every event has the next number, is written down, and is accepted by all sinks. -/
structure Delivered (t : Tracer) (r : Recording) : Prop where
  level : r.recorder.tracer.level = t.level
  feed : r.recorder.tracer.feed? = t.feed?.map (r.events.foldl Feed.emit ·)
  lastSeq : r.recorder.lastSeq = UInt64.ofNat r.events.length
  counted : Counted (r.events.map (·.seq))
  accepted : ∀ e ∈ r.events, ∀ l ∈ t.sinkLevels, l.accepts e.kind e.scope
  /-- Work below the level is inert. -/
  admitted : ∀ id parent scope name, some (id, parent, scope, name) ∈ r.works.map Activity.core? →
    t.level.admits scope

theorem Delivered.tell (h : Delivered t r) (hsinks : ∀ l ∈ t.sinkLevels, l = t.level)
    (hpass : r.recorder.tracer.level.accepts e.kind e.scope) : Delivered t (r.tell e) := by
  have hlength : (r.tell e).events.length = r.events.length + 1 := List.length_append
  constructor
  · exact (Tracer.level_emit _ _).trans h.level
  · have hfeed := Tracer.feed?_emits r.recorder.tracer [r.recorder.stamp e]
    rw [h.feed, Option.map_map] at hfeed
    simpa [Recording.tell, Recorder.emit, Recorder.stamp, Function.comp_def] using hfeed
  · rw [hlength, ← Counted.ofNat_succ, ← h.lastSeq]
    rfl
  · have hconcat := h.counted.concat
    rw [List.length_map, ← h.lastSeq] at hconcat
    simpa [Recording.tell, Recorder.stamp] using hconcat
  · intro e' he' l hl
    rcases List.mem_append.mp he' with he' | he'
    · exact h.accepted e' he' l hl
    · rw [List.mem_singleton.mp he', hsinks l hl, ← h.level]
      exact hpass
  · exact h.admitted

theorem Delivered.turn (h : Delivered t r) (hsinks : ∀ l ∈ t.sinkLevels, l = t.level)
    (hturn : r.Turn u r') : Delivered t r' := by
  have hadmitted {a : Activity} (ha : ∀ id parent scope name,
      a.core? = some (id, parent, scope, name) → t.level.admits scope) :
      ∀ id parent scope name, some (id, parent, scope, name) ∈
        (r.works ++ [a]).map Activity.core? → t.level.admits scope := by
    intro id parent scope name hmem
    rw [List.map_append, List.mem_append] at hmem
    rcases hmem with hmem | hmem
    · exact h.admitted id parent scope name hmem
    · exact ha id parent scope name (List.mem_singleton.mp hmem).symm
  cases hturn with
  | below _ => exact ⟨h.level, h.feed, h.lastSeq, h.counted, h.accepted, hadmitted nofun⟩
  | start hadmits =>
    refine Delivered.tell ⟨h.level, h.feed, h.lastSeq, h.counted, h.accepted, hadmitted ?_⟩ hsinks ?_
    · rintro _ _ _ _ ⟨⟩
      exact h.level ▸ hadmits
    · exact (Level.accepts_of_ne_failure (by decide : Kind.spanBegin ≠ Kind.failure) _).trans hadmits
  | note hwork =>
    refine ⟨(Tracer.level_amend ..).trans h.level, (Tracer.feed?_amend ..).trans h.feed, h.lastSeq,
      h.counted, h.accepted, ?_⟩
    simp only [core?_set hwork]
    exact h.admitted
  | @finish i detail id parent scope name extras hwork =>
    have hadmits : r.recorder.tracer.level.admits scope := by
      rw [h.level]
      exact h.admitted id parent scope name (List.mem_map.mpr ⟨_, List.mem_of_getElem? hwork, rfl⟩)
    refine h.tell hsinks ?_
    exact (Level.accepts_of_ne_failure (by decide : Kind.spanEnd ≠ Kind.failure) _).trans hadmits
  | tell _ _ _ _ hpass => exact h.tell hsinks hpass
  | pass => exact ⟨h.level, h.feed, h.lastSeq, h.counted, h.accepted, h.admitted⟩
  | idle => exact h

theorem run_delivered (hmade : Tracer.Made s t) (now : Instant) (uses : List Use) :
    Delivered t ((ofTracer t now).run uses) := by
  refine run_keeps ⟨rfl, ?_, rfl, .nil, nofun, nofun⟩ (fun _ _ _ h => h.turn hmade.sinks) uses
  exact (Option.map_id' ..).symm

-- ---------------------------------------------------------------------------
-- Ends
-- ---------------------------------------------------------------------------

/-- The end event was told by an end of live work, after the events `before`. -/
def Ended (start : Recording) (uses : List Use) (before : List Event) (e : Event) : Prop :=
  ∃ earlier i detail later, uses = earlier ++ .finish i detail :: later ∧
    (start.run earlier).events = before ∧ e.detail = detail ∧
    (start.run earlier).works[i]? = some (.live e.spanId e.parentId e.scope e.name e.extras)

theorem run_ended (hstart : start.events = []) {before after : List Event}
    (h : (start.run uses).events = before ++ e :: after) (he : e.kind = Kind.spanEnd) :
    Ended start uses before e := by
  induction uses using List.reverseRecOn generalizing after with
  | nil =>
    rw [run_nil, hstart] at h
    simp at h
  | append_singleton uses u ih =>
    have hearlier {after : List Event} (h : (start.run uses).events = before ++ e :: after) :
        Ended start (uses ++ [u]) before e := by
      obtain ⟨earlier, i, detail, later, rfl, hbefore, hdetail, hwork⟩ := ih h
      exact ⟨earlier, i, detail, later ++ [u], by simp, hbefore, hdetail, hwork⟩
    -- the event is the new one, or it was there before
    have hnew {r : Recording} {e' : Event} (hsame : r.events = (start.run uses).events)
        (h : (r.tell e').events = before ++ e :: after) :
        ((start.run uses).events = before ∧ r.recorder.stamp e' = e) ∨
          Ended start (uses ++ [u]) before e := by
      rcases eq_or_of_concat_eq h with ⟨hbefore, hlast, -⟩ | ⟨front, hevents, -⟩
      · exact .inl ⟨hsame ▸ hbefore, hlast⟩
      · exact .inr (hearlier (hsame ▸ hevents))
    rw [run_concat] at h
    generalize hr' : (start.run uses).step u = r' at h
    cases hr' ▸ step_turn (start.run uses) u with
    | below _ => exact hearlier h
    | start _ =>
      rcases hnew rfl h with ⟨-, rfl⟩ | hended
      · cases he
      · exact hended
    | note _ => exact hearlier h
    | finish hwork =>
      rcases hnew rfl h with ⟨hbefore, rfl⟩ | hended
      · exact ⟨uses, _, _, [], rfl, hbefore, rfl, hwork⟩
      · exact hended
    | tell _ _ _ hne _ =>
      rcases hnew rfl h with ⟨-, rfl⟩ | hended
      · exact absurd he hne
      · exact hended
    | pass => exact hearlier h
    | idle => exact hearlier h

-- ---------------------------------------------------------------------------
-- Accounts
-- ---------------------------------------------------------------------------

/-- What uses and events say about live work. -/
structure Documented (uses : List Use) (events : List Event) (i : Nat) (id parent : UInt64)
    (scope : Scope) (name : Text) (extras : Extras) : Prop where
  begun : ∃ b ∈ events, b.kind = Kind.spanBegin ∧ b.spanId = id ∧ b.parentId = parent ∧
    b.scope = scope ∧ b.name = name
  ordered : extras.Ordered
  noted : ∀ key, extras.lookup key = (uses.filterMap (·.value? i key)).getLast?

theorem Documented.mono {events events' : List Event} {i : Nat} {id parent : UInt64} {scope : Scope}
    {name : Text} {extras : Extras} (h : Documented uses events i id parent scope name extras)
    (hevents : events ⊆ events') (hnone : ∀ key, u.value? i key = none) :
    Documented (uses ++ [u]) events' i id parent scope name extras where
  begun := h.begun.imp fun b hb => ⟨hevents hb.1, hb.2⟩
  ordered := h.ordered
  noted key := by
    rw [List.filterMap_append, List.filterMap_cons_none (hnone key), List.filterMap_nil,
      List.append_nil]
    exact h.noted key

/-- Uses and work belong together. -/
structure Accounted (uses : List Use) (r : Recording) : Prop where
  begun : r.works.length = uses.countP (·.isStart)
  used : ∀ v ∈ uses, ∀ i, v.work? = some i → i < r.works.length
  work : ∀ i id parent scope name extras, r.works[i]? = some (.live id parent scope name extras) →
    Documented uses r.events i id parent scope name extras

theorem Accounted.turn (h : Accounted uses r) (hfits : u.Fits uses) (hturn : r.Turn u r') :
    Accounted (uses ++ [u]) r' := by
  have hstarts : (uses ++ [u]).countP (·.isStart) = r.works.length + u.isStart.toNat := by
    rw [List.countP_append, List.countP_singleton, h.begun]
    cases u.isStart <;> rfl
  have hused {works : List Activity} (hle : r.works.length ≤ works.length) :
      ∀ v ∈ uses ++ [u], ∀ i, v.work? = some i → i < works.length := by
    intro v hv i hi
    refine Nat.lt_of_lt_of_le ?_ hle
    rcases List.mem_append.mp hv with hv | hv
    · exact h.used v hv i hi
    · rw [List.mem_singleton.mp hv] at hi
      rw [h.begun]
      exact (hfits i hi).1
  -- what is not noted on remains documented
  have hstill {events' : List Event} (hevents : r.events ⊆ events') {i : Nat} {id parent : UInt64}
      {scope : Scope} {name : Text} {extras : Extras}
      (hi : r.works[i]? = some (.live id parent scope name extras))
      (hnone : ∀ key, u.value? i key = none) :
      Documented (uses ++ [u]) events' i id parent scope name extras :=
    (h.work i id parent scope name extras hi).mono hevents hnone
  cases hturn with
  | below _ =>
    refine ⟨?_, hused (by simp), fun i id parent scope name extras hi => ?_⟩
    · rw [hstarts, List.length_append]
      rfl
    · rcases getElem?_concat_eq_some hi with hi | ⟨-, hnew⟩
      · exact hstill (List.Subset.refl _) hi fun _ => rfl
      · cases hnew
  | start _ =>
    refine ⟨?_, hused (by simp [tell]), fun i id parent scope name extras hi => ?_⟩
    · rw [hstarts]
      exact List.length_append
    · rcases getElem?_concat_eq_some hi with hi | ⟨rfl, hnew⟩
      · exact hstill (List.subset_append_left _ _) hi fun _ => rfl
      · cases hnew
        refine ⟨⟨_, List.mem_append_right _ List.mem_cons_self, rfl, rfl, rfl, rfl, rfl⟩, .nil,
          fun key => ?_⟩
        -- nothing was used before it was begun
        refine (List.getLast?_eq_none_iff.mpr (List.filterMap_eq_nil_iff.mpr fun v hv => ?_)).symm
        rcases List.mem_append.mp hv with hv | hv
        · by_contra hvalue
          exact Nat.lt_irrefl _ (h.used v hv _ (Use.work?_of_value? hvalue))
        · rw [List.mem_singleton.mp hv]
          rfl
  | @note i key value id parent scope name extras hwork =>
    refine ⟨?_, hused (by simp), fun j id' parent' scope' name' extras' hj => ?_⟩
    · rw [hstarts, List.length_set]
      rfl
    · rcases getElem?_set_eq_some hj with ⟨rfl, hnew⟩ | ⟨hne, hj⟩
      · cases hnew
        have hdoc := h.work j _ _ _ _ _ hwork
        refine ⟨hdoc.begun, hdoc.ordered.set, fun k => ?_⟩
        rw [Extras.lookup_set, hdoc.noted k, List.filterMap_append]
        by_cases hk : k = key
        · simp [Use.value?, hk]
        · simp [Use.value?, hk, Ne.symm hk]
      · exact hstill (List.Subset.refl _) hj fun _ => if_neg fun heq => hne heq.1.symm
  | finish _ =>
    exact ⟨hstarts.symm, hused (Nat.le_refl _),
      fun _ _ _ _ _ _ hi => hstill (List.subset_append_left _ _) hi fun _ => rfl⟩
  | tell hwork hstart =>
    refine ⟨?_, hused (Nat.le_refl _),
      fun i _ _ _ _ _ hi => hstill (List.subset_append_left _ _) hi fun key => ?_⟩
    · rw [hstarts, hstart]
      rfl
    · by_contra hvalue
      cases hwork.symm.trans (Use.work?_of_value? hvalue)
  | pass =>
    exact ⟨hstarts.symm, hused (Nat.le_refl _),
      fun _ _ _ _ _ _ hi => hstill (List.Subset.refl _) hi fun _ => rfl⟩
  | idle hstart hinert =>
    refine ⟨?_, hused (Nat.le_refl _),
      fun i _ _ _ _ _ hi => hstill (List.Subset.refl _) hi fun key => ?_⟩
    · rw [hstarts, hstart]
      rfl
    · by_contra hvalue
      have hdead := hinert i (Use.work?_of_value? hvalue)
      rw [workAt, List.getD_eq_getElem?_getD, hi] at hdead
      cases hdead

/-- So they do in every use of a recorder. -/
theorem run_accounted (t : Tracer) (now : Instant) (hused : WellUsed uses) :
    Accounted uses ((ofTracer t now).run uses) := by
  induction uses using List.reverseRecOn with
  | nil => exact ⟨rfl, nofun, nofun⟩
  | append_singleton uses u ih =>
    obtain ⟨hearlier, hfits⟩ := wellUsed_concat.mp hused
    rw [run_concat]
    exact (ih hearlier).turn hfits (step_turn _ u)

-- ---------------------------------------------------------------------------
-- What the ring keeps
-- ---------------------------------------------------------------------------

theorem not_ended (hused : WellUsed (uses ++ [u])) {now : Instant}
    (hnodup : (liveIds ((ofTracer t now).run uses).works).Nodup) {i : Nat} {a : Activity} {id : UInt64}
    (hwork : u.work? = some i) (hi : ((ofTracer t now).run uses).works[i]? = some a)
    (hid : a.id? = some id) :
    ∀ e ∈ ((ofTracer t now).run uses).events, e.spanId = id → e.kind ≠ Kind.spanEnd := by
  intro e he heid hkind
  obtain ⟨before, after, hsplit⟩ := List.append_of_mem he
  obtain ⟨earlier, j, detail, later, rfl, -, -, hj⟩ := run_ended rfl hsplit hkind
  obtain ⟨b, hb, hcore⟩ := run_core? hj (.finish j detail :: later)
  rw [← run_append] at hb
  have hsame : j = i := by
    refine eq_of_id hnodup hb hi ?_ hid
    rw [Activity.id?, hcore, ← heid]
    rfl
  obtain ⟨-, hfits⟩ := wellUsed_concat.mp hused
  exact (hfits i hwork).2 (.finish j detail) (by simp) (congrArg some hsame)

theorem run_kept (hmade : Tracer.Made s t) (now : Instant) (hused : WellUsed uses)
    (hfew : (liveIds ((ofTracer t now).run uses).works).length < UInt64.size) :
    ((ofTracer t now).run uses).recorder.tracer.ring? =
      t.ring?.map (((ofTracer t now).run uses).events.foldl Ring.emit ·) := by
  induction uses using List.reverseRecOn with
  | nil => exact (Option.map_id' ..).symm
  | append_singleton uses u ih =>
    have hturn := step_turn ((ofTracer t now).run uses) u
    rw [run_concat] at hfew ⊢
    have hearlier := hused.of_append
    have hfew' := Nat.lt_of_le_of_lt hturn.liveIds_le hfew
    have hkept := ih hearlier hfew'
    have hnodup := ((run_numbered t now uses).counted.nodup hfew').1
    generalize hr : (ofTracer t now).run uses = r at hturn hkept hnodup
    have htell {r' : Recording} (e : Event) (htracer : r'.recorder.tracer = r.recorder.tracer)
        (hevents : r'.events = r.events) : (r'.tell e).recorder.tracer.ring? =
          t.ring?.map ((r'.tell e).events.foldl Ring.emit ·) := by
      have hemit := Tracer.ring?_emits r'.recorder.tracer [r'.recorder.stamp e]
      rw [htracer, hkept, Option.map_map] at hemit
      simpa [tell, Recorder.emit, Recorder.stamp, Function.comp_def, htracer, hevents] using hemit
    generalize hr' : r.step u = r' at hturn
    cases hturn with
    | below => exact hkept
    | start => exact htell _ rfl rfl
    | finish => exact htell _ rfl rfl
    | tell => exact htell _ rfl rfl
    | pass => exact hkept
    | idle => exact hkept
    | @note i key value id parent scope name extras hwork =>
      have hended := not_ended hused (hr ▸ hnodup) (i := i) rfl (hr ▸ hwork) rfl
      refine (Tracer.ring?_amend ..).trans ?_
      rw [hkept]
      cases hring : t.ring? with
      | none => rfl
      | some ring =>
        have hempty : ring.slots = #[] := by
          cases hmade <;> cases hring <;> rfl
        refine congrArg some (Ring.amend_of_not_kept (fun old hold => ?_) _)
        refine hended old ?_
        rcases Ring.mem_emits hold with hold | hold
        · simp [hempty] at hold
        · exact hr ▸ hold

-- ---------------------------------------------------------------------------
-- Work below the level
-- ---------------------------------------------------------------------------

def BegunBelow (l : Level) (uses : List Use) (i : Nat) : Prop :=
  ∃ (earlier later : List Use) (scope : Scope) (name : Text) (parent : UInt64),
    uses = earlier ++ .start scope name parent :: later ∧ earlier.countP (·.isStart) = i ∧
      l.admits scope = false

def UsedBelow (l : Level) (earlier : List Use) : Use → Prop
  | .start scope _ _ => l.admits scope = false
  | u => ∃ i, u.work? = some i ∧ BegunBelow l earlier i

theorem works_of_begunBelow (hmade : Tracer.Made s t) (now : Instant) (hused : WellUsed uses) {i : Nat}
    (h : BegunBelow t.level uses i) : ((ofTracer t now).run uses).works[i]? = some .inert := by
  obtain ⟨earlier, later, scope, name, parent, rfl, rfl, hbelow⟩ := h
  have hbegun := (run_accounted t now hused.of_append).begun
  have hlevel := (run_delivered hmade now earlier).level
  rw [run_append]
  generalize (ofTracer t now).run earlier = r at hbegun hlevel
  have hnew : (r.step (.start scope name parent)).works[r.works.length]? = some .inert := by
    generalize hr' : r.step (.start scope name parent) = r'
    cases hr' ▸ step_turn r (.start scope name parent) with
    | below => exact List.getElem?_concat_length
    | start habove => simp [hlevel, hbelow] at habove
    | tell _ hstart => cases hstart
    | idle hstart => cases hstart
  obtain ⟨b, hb, hcore⟩ := run_core? hnew later
  rw [← hbegun]
  cases b with
  | inert => exact hb
  | live => cases hcore

theorem step_below (hmade : Tracer.Made s t) (now : Instant) (hused : WellUsed earlier)
    (h : UsedBelow t.level earlier u) :
    (((ofTracer t now).run earlier).step u).recorder = ((ofTracer t now).run earlier).recorder ∧
      (((ofTracer t now).run earlier).step u).events = ((ofTracer t now).run earlier).events := by
  have habout {i : Nat} (hwork : u.work? = some i) (hbelow : BegunBelow t.level earlier i) :
      ((ofTracer t now).run earlier).step u = (ofTracer t now).run earlier :=
    step_inert hwork (works_of_begunBelow hmade now hused hbelow)
  have hlevel := (run_delivered hmade now earlier).level
  cases u with
  | start scope name parent =>
    have hbelow : ((ofTracer t now).run earlier).recorder.tracer.level.admits scope = false :=
      hlevel ▸ h
    simp [step, told?, Recorder.start, hbelow]
  | _ =>
    obtain ⟨i, hwork, hbelow⟩ := h
    rw [habout hwork hbelow]
    exact ⟨rfl, rfl⟩

-- ---------------------------------------------------------------------------
-- Traces
-- ---------------------------------------------------------------------------

/-- Every number reaches every sink, every end event has its begin event and the notes of its work, and
work below the level leaves nothing. -/
theorem run_traces (hsettings : Tracer.ofSettings s = .ok t) (now : Instant) (hused : WellUsed uses) :
    let start := ofTracer t now
    let r := start.run uses
    -- what takes a number is delivered
    Counted (r.events.map (·.seq)) ∧ r.recorder.lastSeq = UInt64.ofNat r.events.length ∧
    (∀ e ∈ r.events, ∀ l ∈ t.sinkLevels, l.accepts e.kind e.scope) ∧
    (∀ f, t.feed? = some f → r.recorder.tracer.received.toList =
      t.received.toList ++ r.events.map (·.line f.format)) ∧
    -- ends match
    (∀ before e after, r.events = before ++ e :: after → e.kind = Kind.spanEnd →
      ∃ earlier i detail later, uses = earlier ++ .finish i detail :: later ∧
        (start.run earlier).events = before ∧ e.detail = detail ∧
        Documented earlier before i e.spanId e.parentId e.scope e.name e.extras) ∧
    -- what is below the level
    (∀ i, BegunBelow s.level uses i → r.works[i]? = some .inert) ∧
    (∀ earlier u later, uses = earlier ++ u :: later → UsedBelow s.level earlier u →
      (start.run (earlier ++ [u])).recorder = (start.run earlier).recorder ∧
      (start.run (earlier ++ [u])).events = (start.run earlier).events) ∧
    -- as long as there are numbers for all spans
    Counted (liveIds r.works) ∧
    ((liveIds r.works).length < UInt64.size →
      ((liveIds r.works).Nodup ∧ 0 ∉ liveIds r.works) ∧
      (∀ e ∈ r.events, e.kind = Kind.spanEnd →
        r.events.countP (fun b => b.kind = Kind.spanBegin ∧ b.spanId = e.spanId) = 1) ∧
      ∀ ring, r.recorder.tracer.ring? = some ring → ring.ShowsLatest r.events) := by
  have hmade := Tracer.ofSettings_made hsettings
  have hdelivered := run_delivered hmade now uses
  have hnumbered := run_numbered t now uses
  have hended {before : List Event} {e : Event} {after : List Event}
      (hsplit : ((ofTracer t now).run uses).events = before ++ e :: after)
      (hkind : e.kind = Kind.spanEnd) : ∃ earlier i detail later,
        uses = earlier ++ .finish i detail :: later ∧
        ((ofTracer t now).run earlier).events = before ∧ e.detail = detail ∧
        Documented earlier before i e.spanId e.parentId e.scope e.name e.extras := by
    obtain ⟨earlier, i, detail, later, rfl, hbefore, hdetail, hwork⟩ := run_ended rfl hsplit hkind
    have hearlier := run_accounted t now hused.of_append
    exact ⟨earlier, i, detail, later, rfl, hbefore, hdetail, hbefore ▸ hearlier.work i _ _ _ _ _ hwork⟩
  refine ⟨hdelivered.counted, hdelivered.lastSeq, hdelivered.accepted, fun f hfeed => ?_,
    fun before e after => hended, fun i hbelow => ?_, fun earlier u later hsplit hbelow => ?_,
    hnumbered.counted, fun hfew => ⟨hnumbered.counted.nodup hfew, fun e he hkind => ?_,
      fun ring hring => ?_⟩⟩
  · have hpass := Level.passing_eq_self fun e he =>
      hdelivered.accepted e he f.level (Tracer.feed_level_mem hfeed)
    rw [Tracer.received_eq, Tracer.received_eq, hdelivered.feed, hfeed]
    simp [Feed.emits_eq, hpass]
  · exact works_of_begunBelow hmade now hused (hmade.level ▸ hbelow)
  · rw [run_concat]
    exact step_below hmade now (hsplit ▸ hused).of_append (hmade.level ▸ hbelow)
  · obtain ⟨before, after, hsplit⟩ := List.append_of_mem he
    obtain ⟨earlier, i, detail, later, -, -, -, hdoc⟩ := hended hsplit hkind
    obtain ⟨b, hb, hbegin, hid, -⟩ := hdoc.begun
    refine hnumbered.begin_unique hfew ?_
    rw [← hnumbered.begins, ← hid]
    refine List.mem_map_of_mem (List.mem_filter.mpr ⟨?_, by simpa using hbegin⟩)
    exact hsplit ▸ List.mem_append_left _ hb
  · rw [run_kept hmade now hused hfew] at hring
    obtain ⟨first, hfirst, rfl⟩ := Option.map_eq_some_iff.mp hring
    have hpass := Level.passing_eq_self fun e he =>
      hdelivered.accepted e he first.level (Tracer.ring_level_mem hfirst)
    have hholds := (hmade.holds hfirst).emits ((ofTracer t now).run uses).events
    rw [hpass, List.nil_append] at hholds
    exact hholds.showsLatest

/-- Requests are below the level of processes. -/
def nestedSettings : Tracer.Settings :=
  { level := Level.process, mode := Mode.both, format := Format.text, ringSize := 2 }

/-- Work within other work, and a request, which is below the level. -/
def nestedUses : List Use :=
  [.start Scope.session "expand" 0, .start Scope.process "spawn" 1, .start Scope.request "send" 2,
    .note 1 "attempt" "0", .note 2 "bytes" "9", .note 1 "attempt" "1", .finish 2 "sent",
    .fail Scope.process "lost" "gone", .finish 1 "done", .finish 0 ""]

theorem run_traces_nested :
    ∃ t, Tracer.ofSettings nestedSettings = .ok t ∧ WellUsed nestedUses ∧
      let r := (ofTracer t default).run nestedUses
      r.events.length = 5 ∧ Counted (r.events.map (·.seq)) ∧ liveIds r.works = [1, 2] ∧
      (∀ e ∈ r.events, e.kind = Kind.spanEnd →
        r.events.countP (fun b => b.kind = Kind.spanBegin ∧ b.spanId = e.spanId) = 1) ∧
      ∀ ring, r.recorder.tracer.ring? = some ring → ring.ShowsLatest r.events := by
  have hsettings : Tracer.ofSettings nestedSettings =
      .ok (.both Level.process nestedSettings.feed (.empty 2 Level.process)) := rfl
  have hused : WellUsed nestedUses := by decide
  obtain ⟨hcounted, -, -, -, -, -, -, -, hfew⟩ := run_traces hsettings default hused
  have hids : liveIds ((ofTracer (.both Level.process nestedSettings.feed (.empty 2 Level.process))
      default).run nestedUses).works = [1, 2] := by decide
  obtain ⟨-, hmatch, hring⟩ := hfew (by rw [hids]; decide)
  exact ⟨_, hsettings, hused, by decide, hcounted, hids, hmatch, hring⟩

end Recording

end MacroRelay.Trace
