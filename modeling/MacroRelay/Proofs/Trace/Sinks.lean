import Mathlib.Data.List.Rotate
import MacroRelay.Trace.Tracer

/-!
# What is kept of the events

A feed writes down every event that passes its level, and a ring keeps the latest of them. An event
that does not pass leaves both as they are. What a ring shows is the end of what a feed of the same
level has written.
-/

namespace MacroRelay.Trace

variable {events : List Event} {e : Event} {l : Level}

def Level.passing (l : Level) (events : List Event) : List Event :=
  events.filter fun e => l.accepts e.kind e.scope

theorem Level.passing_eq_self (h : ∀ e ∈ events, l.accepts e.kind e.scope) :
    l.passing events = events :=
  List.filter_eq_self.mpr h

theorem Level.accepts_off (kind : Kind) (scope : Scope) : Level.off.accepts kind scope = false := by
  unfold accepts
  split <;> rfl

theorem Level.passing_off (events : List Event) : Level.off.passing events = [] :=
  List.filter_eq_nil_iff.mpr fun e _ => by simp [accepts_off]

namespace Ring

variable {r : Ring}

@[simp] theorem emit_level (r : Ring) (e : Event) : (r.emit e).level = r.level := by
  unfold emit
  split <;> rfl

@[simp] theorem emit_size (r : Ring) (e : Event) : (r.emit e).size = r.size := by
  unfold emit
  split <;> rfl

theorem emit_of_rejected (h : r.level.accepts e.kind e.scope = false) : r.emit e = r := by
  simp [emit, h]

theorem emit_of_accepted (h : r.level.accepts e.kind e.scope) :
    r.emit e = { r with
      slots := if r.written < r.size then r.slots.push e
        else r.slots.setIfInBounds (r.written % r.size) e
      written := r.written + 1 } := by
  simp [emit, h]

/-- An event is in the slot of its number, counted round, until the ring comes round again. -/
structure Holds (r : Ring) (events : List Event) : Prop where
  room : 0 < r.size
  written : r.written = events.length
  slots : r.slots.size = min r.size events.length
  kept : ∀ i < events.length, events.length ≤ i + r.size → r.slots[i % r.size]? = events[i]?

theorem holds_empty {size : Int} (l : Level) : (empty size l).Holds [] := by
  refine ⟨?_, rfl, by simp [empty], nofun⟩
  show 0 < if size ≤ 0 then defaultSize else size.toNat
  split
  · decide
  · omega

theorem slot_ne {i n size : Nat} (hlt : i < n) (hclose : n < i + size) : i % size ≠ n % size := by
  intro heq
  have hdvd : size ∣ n - i := Nat.dvd_of_mod_eq_zero (Nat.sub_mod_eq_zero_of_mod_eq heq.symm)
  have hle := Nat.le_of_dvd (Nat.sub_pos_of_lt hlt) hdvd
  omega

theorem Holds.emit (h : r.Holds events) (hpass : r.level.accepts e.kind e.scope) :
    (r.emit e).Holds (events ++ [e]) := by
  have hlength : (events ++ [e]).length = events.length + 1 := List.length_append
  rw [emit_of_accepted hpass]
  refine ⟨h.room, ?_, ?_, fun i hi hrecent => ?_⟩
  · rw [hlength, ← h.written]
  · have hslots := h.slots
    simp only [hlength, h.written]
    split
    · rw [Array.size_push]
      omega
    · rw [Array.size_setIfInBounds]
      omega
  · simp only [hlength, h.written] at hi hrecent ⊢
    by_cases hlast : i = events.length
    · rw [hlast, List.getElem?_concat_length]
      split
      · rename_i hroom
        rw [Nat.mod_eq_of_lt hroom, show events.length = r.slots.size by rw [h.slots]; omega,
          Array.getElem?_push_size]
      · have hfull : events.length % r.size < r.slots.size := by
          rw [h.slots, Nat.min_eq_left (Nat.not_lt.mp ‹_›)]
          exact Nat.mod_lt _ h.room
        exact Array.getElem?_setIfInBounds_self_of_lt hfull
    · have hold : i < events.length := by omega
      rw [List.getElem?_append_left hold, ← h.kept i hold (by omega)]
      split
      · rename_i hroom
        rw [Array.getElem?_push, if_neg]
        rw [h.slots, Nat.mod_eq_of_lt (by omega)]
        omega
      · exact Array.getElem?_setIfInBounds_ne (slot_ne hold (by omega)).symm

theorem Holds.snapshot (h : r.Holds events) :
    r.snapshot = events.drop (events.length - r.size) := by
  unfold Ring.snapshot
  split
  · rename_i hroom
    rw [h.written] at hroom
    rw [Nat.sub_eq_zero_of_le hroom, List.drop_zero]
    refine List.ext_getElem? fun i => ?_
    rw [Array.getElem?_toList]
    rcases Nat.lt_or_ge i events.length with hi | hi
    · rw [← h.kept i hi (by omega), Nat.mod_eq_of_lt (by omega)]
    · rw [Array.getElem?_eq_none (by rw [h.slots]; omega), List.getElem?_eq_none hi]
  · rename_i hround
    rw [h.written] at hround
    have hfull : r.slots.toList.length = r.size := by
      rw [Array.length_toList, h.slots]
      omega
    have hturned := List.rotate_eq_drop_append_take_mod (l := r.slots.toList) (n := r.written)
    rw [hfull] at hturned
    rw [← hturned]
    refine List.ext_getElem? fun i => ?_
    rw [List.getElem?_drop]
    rcases Nat.lt_or_ge i r.size with hi | hi
    · rw [List.getElem?_rotate (by omega), Array.getElem?_toList, hfull, h.written,
        ← h.kept (events.length - r.size + i) (by omega) (by omega)]
      congr 1
      have hsum : events.length - r.size + i + r.size = i + events.length := by omega
      rw [← hsum, Nat.add_mod_right]
    · rw [List.getElem?_eq_none (by rw [List.length_rotate]; omega), List.getElem?_eq_none (by omega)]

theorem Holds.emits (h : r.Holds events) (more : List Event) :
    (more.foldl Ring.emit r).Holds (events ++ r.level.passing more) := by
  induction more generalizing r events with
  | nil => simpa [Level.passing] using h
  | cons e more ih =>
    rw [List.foldl_cons]
    cases hpass : r.level.accepts e.kind e.scope with
    | false =>
      rw [emit_of_rejected hpass]
      simpa [Level.passing, hpass] using ih h
    | true =>
      simpa [Level.passing, hpass] using ih (h.emit hpass)

@[simp] theorem emits_size (r : Ring) (events : List Event) : (events.foldl emit r).size = r.size := by
  induction events generalizing r with
  | nil => rfl
  | cons e events ih => rw [List.foldl_cons, ih, emit_size]

/-- The ring shows the latest of the events, as many as there are or as there is room for. -/
structure ShowsLatest (r : Ring) (events : List Event) : Prop where
  latest : r.snapshot <:+ events
  length : r.snapshot.length = min r.size events.length

theorem Holds.showsLatest (h : r.Holds events) : r.ShowsLatest events := by
  constructor
  · rw [h.snapshot]
    exact List.drop_suffix _ _
  · rw [h.snapshot, List.length_drop]
    omega

theorem mem_emit {old : Event} (h : old ∈ (r.emit e).slots) : old ∈ r.slots ∨ old = e := by
  cases hpass : r.level.accepts e.kind e.scope with
  | false => exact .inl (emit_of_rejected hpass ▸ h)
  | true =>
    rw [emit_of_accepted hpass] at h
    split at h
    · exact Array.mem_push.mp h
    · exact Array.mem_or_eq_of_mem_setIfInBounds h

theorem mem_emits {old : Event} (h : old ∈ (events.foldl emit r).slots) :
    old ∈ r.slots ∨ old ∈ events := by
  induction events generalizing r with
  | nil => exact .inl h
  | cons e events ih =>
    rcases ih h with h | h
    · rcases mem_emit h with h | rfl
      · exact .inl h
      · exact .inr List.mem_cons_self
    · exact .inr (List.mem_cons_of_mem _ h)

theorem amend_of_not_kept {id : UInt64} (h : ∀ e ∈ r.slots, e.spanId = id → e.kind ≠ Kind.spanEnd)
    (extras : Extras) : r.amend id extras = r := by
  have hslots : (r.amend id extras).slots = r.slots := by
    refine (Array.map_congr_left fun e he => if_neg ?_).trans (Array.map_id r.slots)
    exact fun ⟨hid, hkind, _⟩ => h e he hid hkind
  exact congrArg (fun slots => { r with slots }) hslots

end Ring

theorem Feed.emits_eq (f : Feed) (events : List Event) :
    events.foldl emit f = { f with
      device.lines := f.device.lines ++ ((f.level.passing events).map (·.line f.format)).toArray } := by
  induction events generalizing f with
  | nil => simp [Level.passing]
  | cons e events ih =>
    rw [List.foldl_cons, ih]
    cases hpass : f.level.accepts e.kind e.scope <;> simp [emit, hpass, Level.passing]

namespace Tracer

variable {t : Tracer} {s : Settings}

def feed? : Tracer → Option Feed
  | .feed f => some f
  | .both _ f _ => some f
  | _ => none

theorem received_eq (t : Tracer) : t.received = (t.feed?.map (·.device.lines)).getD #[] := by
  cases t <;> rfl

theorem feed?_emits (t : Tracer) (events : List Event) :
    (events.foldl emit t).feed? = t.feed?.map (events.foldl Feed.emit ·) := by
  induction events generalizing t with
  | nil => cases t <;> rfl
  | cons e events ih =>
    rw [List.foldl_cons, ih]
    cases t <;> rfl

theorem ring?_emits (t : Tracer) (events : List Event) :
    (events.foldl emit t).ring? = t.ring?.map (events.foldl Ring.emit ·) := by
  induction events generalizing t with
  | nil => cases t <;> rfl
  | cons e events ih =>
    rw [List.foldl_cons, ih]
    cases t <;> rfl

def Settings.feed (s : Settings) : Feed :=
  ⟨s.level, s.format.resolve s.path, s.device⟩

inductive Made (s : Settings) : Tracer → Prop
  | silent : s.level = Level.off → Made s .silent
  | feed : s.level ≠ Level.off → s.mode = Mode.stream → Made s (.feed s.feed)
  | ring : s.level ≠ Level.off → s.mode = Mode.ring → Made s (.ring (.empty s.ringSize s.level))
  | both : s.level ≠ Level.off → s.mode = Mode.both →
    Made s (.both s.level s.feed (.empty s.ringSize s.level))

theorem ofSettings_made (h : ofSettings s = .ok t) : Made s t := by
  simp only [ofSettings, Ring.ofSize] at h
  split at h
  · cases h
    exact .silent ‹_›
  · split at h
    · cases h
      exact .feed ‹_› ‹_›
    · split at h
      · split at h <;> cases h
        exact .ring ‹_› ‹_›
      · split at h
        · split at h <;> cases h
          exact .both ‹_› ‹_›
        · cases h

/-- Of the events that pass, a ring shows the latest ones, as many as there is room for. A tracer that
does both has written down all of them, and what its ring shows is the end of that. -/
theorem keeps_latest (events : List Event) :
    (∀ (size : Nat) (l : Level), 1 ≤ size →
      let r := events.foldl Ring.emit (.empty size l)
      r.size = size ∧ r.ShowsLatest (l.passing events)) ∧
    ∀ (s : Settings) (t : Tracer), ofSettings s = .ok t → s.mode = Mode.both →
      let made := events.foldl emit t
      let passing := s.level.passing events
      made.received.toList = t.received.toList ++ passing.map (·.line s.feed.format) ∧
      (s.level ≠ Level.off → ∃ r, made.ring? = some r ∧ r.ShowsLatest passing ∧
        r.dump s.feed.format <:+ made.received.toList) := by
  refine ⟨fun size l hsize => ?_, fun s t hmade hmode => ?_⟩
  · have hholds : (events.foldl Ring.emit (.empty size l)).Holds ([] ++ l.passing events) :=
      (Ring.holds_empty l).emits events
    refine ⟨?_, hholds.showsLatest⟩
    rw [Ring.emits_size, Ring.empty, if_neg (by omega), Int.toNat_natCast]
  · have hreceived : ((events.foldl emit t).received).toList =
        t.received.toList ++ (s.level.passing events).map (·.line s.feed.format) := by
      rw [received_eq, feed?_emits]
      cases ofSettings_made hmade with
      | silent hoff => simp [received_eq, feed?, hoff, Level.passing_off]
      | feed => simp [received_eq, feed?, Feed.emits_eq, Settings.feed]
      | both => simp [received_eq, feed?, Feed.emits_eq, Settings.feed]
      | ring hlevel hring => cases hmode.symm.trans hring
    refine ⟨hreceived, fun hlevel => ?_⟩
    cases ofSettings_made hmade with
    | silent hoff => exact absurd hoff hlevel
    | feed _ hstream => cases hmode.symm.trans hstream
    | ring _ hring => cases hmode.symm.trans hring
    | both =>
      have hholds : (events.foldl Ring.emit (.empty s.ringSize s.level)).Holds
          ([] ++ s.level.passing events) := (Ring.holds_empty s.level).emits events
      have hlatest := hholds.showsLatest
      refine ⟨_, by rw [ring?_emits]; rfl, hlatest, ?_⟩
      rw [hreceived]
      exact (hlatest.latest.map _).trans (List.suffix_append _ _)

/-- The third point takes the slot of the first. -/
theorem keeps_latest_third :
    let points : List Event := ["a", "b", "c"].map fun name =>
      { seq := 0, kind := Kind.point, scope := Scope.request, name := Text.ofString name }
    let s : Settings :=
      { level := Level.debug, mode := Mode.both, format := Format.text, ringSize := 2 }
    (points.foldl Ring.emit (.empty (2 : Nat) Level.debug)).ShowsLatest (Level.debug.passing points) ∧
      ∃ t, ofSettings s = .ok t ∧ s.mode = Mode.both ∧ s.level ≠ Level.off ∧
        (points.foldl emit t).received.toList.length = 3 ∧
        ∃ r, (points.foldl emit t).ring? = some r ∧
          r.dump s.feed.format <:+ (points.foldl emit t).received.toList := by
  intro points s
  obtain ⟨hring, hboth⟩ := keeps_latest points
  have hsettings : ofSettings s = .ok (.both Level.debug s.feed (.empty 2 Level.debug)) := rfl
  obtain ⟨-, hdump⟩ := hboth s _ hsettings rfl
  obtain ⟨r, hr, -, hsuffix⟩ := hdump (by decide)
  exact ⟨(hring 2 Level.debug (by decide)).2, _, hsettings, rfl, by decide, by decide, r, hr, hsuffix⟩

end Tracer

end MacroRelay.Trace
