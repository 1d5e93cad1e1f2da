import Mathlib.Algebra.Order.Ring.Int
import Mathlib.Tactic.Ring
import MacroRelay.Proofs.Lists
import MacroRelay.Proofs.Supervisor.Restarts
import MacroRelay.Settings.Connection

/-!
# How long a supervisor waits

The wait doubles with every attempt, and the longest wait takes its place as soon as it is reached.
This is the smaller of the two as long as the doubled wait is a duration, which it is whenever the
limit lies below half the range. The limit is looked at only after doubling, so that a wait of half the
range or more wraps around and turns negative; and the first wait is not held against the limit at all.
-/

namespace MacroRelay

namespace Duration

variable {d : Duration}

theorem toInt_double (h : 0 ≤ d.toInt) (hfits : d.toInt * 2 < 2 ^ 63) :
    (d * 2).toInt = d.toInt * 2 := by
  have htwo : (2 : Int64).toInt = 2 := by decide
  rw [Int64.toInt_mul, htwo]
  exact Int.bmod_eq_of_le (by omega) (by omega)

theorem toInt_double_neg (h : 2 ^ 62 ≤ d.toInt) : (d * 2).toInt < 0 := by
  have htwo : (2 : Int64).toInt = 2 := by decide
  have hlt := d.toInt_lt
  rw [Int64.toInt_mul, htwo, Int.bmod_def]
  omega

end Duration

namespace RestartPolicy

variable {p : RestartPolicy} {limit d : Duration} {n : Nat}

-- ---------------------------------------------------------------------------
-- Doubling
-- ---------------------------------------------------------------------------

/-- The limit is reached by doubling, and the doubled duration is still in range. -/
def Reaches (limit d : Duration) : Prop :=
  ∃ n, 0 < n ∧ limit.toInt ≤ d.toInt * 2 ^ n ∧ d.toInt * 2 ^ n < 2 ^ 63

theorem Reaches.double_lt (h : Reaches limit d) (hd : 0 < d.toInt) : d.toInt * 2 < 2 ^ 63 := by
  obtain ⟨n, hn, -, hfits⟩ := h
  have hpow : (2 : Int) ^ 1 ≤ 2 ^ n := pow_le_pow_right₀ (by decide) hn
  have hle : d.toInt * 2 ^ 1 ≤ d.toInt * 2 ^ n := Int.mul_le_mul_of_nonneg_left hpow hd.le
  omega

theorem Reaches.double (h : Reaches limit d) (hd : 0 < d.toInt)
    (hshort : d.toInt * 2 < limit.toInt) : Reaches limit (d * 2) := by
  have htwice := Duration.toInt_double hd.le (h.double_lt hd)
  obtain ⟨n, hn, hreached, hfits⟩ := h
  cases n with
  | zero => cases hn
  | succ n =>
    rw [pow_succ', ← Int.mul_assoc] at hreached hfits
    refine ⟨n, Nat.pos_of_ne_zero fun hzero => ?_, ?_⟩
    · rw [hzero, pow_zero] at hreached
      omega
    · rw [htwice]
      exact ⟨hreached, hfits⟩

theorem Reaches.of_double (h : Reaches limit (d * 2)) (hd : 0 ≤ d.toInt)
    (hfits : d.toInt * 2 < 2 ^ 63) : Reaches limit d := by
  obtain ⟨n, -, hreached, hrange⟩ := h
  rw [Duration.toInt_double hd hfits, Int.mul_assoc, ← pow_succ'] at hreached hrange
  exact ⟨n + 1, Nat.succ_pos n, hreached, hrange⟩

theorem toInt_doubled (h : Reaches limit d) (hd : 0 < d.toInt) (hle : d.toInt ≤ limit.toInt) (n : Nat) :
    (doubled limit n d).toInt = min (d.toInt * 2 ^ n) limit.toInt := by
  induction n generalizing d with
  | zero => simp [doubled, hle]
  | succ n ih =>
    have htwice := Duration.toInt_double hd.le (h.double_lt hd)
    have hpow : d.toInt * 2 ^ (n + 1) = d.toInt * 2 * 2 ^ n := by ring
    rw [doubled]
    split
    · rename_i hreached
      rw [Int64.le_iff_toInt_le, htwice] at hreached
      have hone : (1 : Int) ≤ 2 ^ n := one_le_pow₀ (by decide)
      have hmore : d.toInt * 2 * 1 ≤ d.toInt * 2 * 2 ^ n :=
        Int.mul_le_mul_of_nonneg_left hone (by omega)
      omega
    · rename_i hshort
      rw [Int64.le_iff_toInt_le, htwice, Int.not_le] at hshort
      rw [ih (h.double hd hshort) (by omega) (by omega), htwice, hpow]

theorem reaches_of_lt_half {d : Duration} (hd : 0 < d.toInt) (hle : d.toInt ≤ limit.toInt)
    (hhalf : limit.toInt < 2 ^ 62) : Reaches limit d := by
  have hfits : d.toInt * 2 < 2 ^ 63 := by omega
  by_cases hreached : limit.toInt ≤ d.toInt * 2
  · exact ⟨1, Nat.one_pos, by omega, by omega⟩
  · have htwice := Duration.toInt_double hd.le hfits
    exact (reaches_of_lt_half (by omega) (by omega) hhalf).of_double hd.le hfits
termination_by (limit.toInt - d.toInt).toNat
decreasing_by omega

/-- What a duration is while it is doubled, up to the first time that it reaches the limit. -/
def doublings (limit : Duration) : Nat → Duration → List Duration
  | 0, _ => []
  | n + 1, d => d * 2 :: if limit ≤ d * 2 then [] else doublings limit n (d * 2)

theorem doubled_eq (limit : Duration) (n : Nat) (d : Duration) : doubled limit n d =
    ((doublings limit n d).getLast?.map fun d => if limit ≤ d then limit else d).getD d := by
  induction n generalizing d with
  | zero => rfl
  | succ n ih =>
    rw [doubled, doublings]
    split
    · rename_i hreached
      simp [hreached]
    · rename_i hshort
      rw [ih, List.getLast?_cons]
      cases (doublings limit n (d * 2)).getLast? <;> simp [hshort]

theorem toInt_doublings {k : Nat} {v : Duration} (h : Reaches limit d) (hd : 0 < d.toInt)
    (hv : (doublings limit n d)[k]? = some v) : v.toInt = d.toInt * 2 ^ (k + 1) := by
  induction n generalizing d k with
  | zero => cases hv
  | succ n ih =>
    have htwice := Duration.toInt_double hd.le (h.double_lt hd)
    rw [doublings] at hv
    cases k with
    | zero =>
      cases hv
      rw [htwice, Nat.zero_add, pow_one]
    | succ k =>
      rw [List.getElem?_cons_succ] at hv
      split at hv
      · cases hv
      · rename_i hshort
        rw [Int64.le_iff_toInt_le, htwice, Int.not_le] at hshort
        rw [ih (h.double hd hshort) (by omega) hv, htwice]
        ring

theorem exists_doubled_neg {d : Duration} (h : ¬ Reaches limit d) (hd : 0 < d.toInt)
    (hlimit : 0 < limit.toInt) : ∃ n, (doubled limit n d).toInt < 0 := by
  by_cases hhalf : 2 ^ 62 ≤ d.toInt
  · have hneg := Duration.toInt_double_neg hhalf
    refine ⟨1, ?_⟩
    rw [doubled, if_neg (by rw [Int64.le_iff_toInt_le]; omega), doubled]
    exact hneg
  · have hfits : d.toInt * 2 < 2 ^ 63 := by omega
    have htwice := Duration.toInt_double hd.le hfits
    have hshort : ¬ limit.toInt ≤ d.toInt * 2 :=
      fun hreached => h ⟨1, Nat.one_pos, by omega, by omega⟩
    have hfar : ¬ Reaches limit (d * 2) := fun hreaches => h (hreaches.of_double hd.le hfits)
    obtain ⟨n, hn⟩ := exists_doubled_neg hfar (by omega) hlimit
    refine ⟨n + 1, ?_⟩
    rw [doubled, if_neg (by rwa [Int64.le_iff_toInt_le, htwice])]
    exact hn
termination_by (2 ^ 63 - d.toInt).toNat
decreasing_by omega

-- ---------------------------------------------------------------------------
-- The waits of a policy
-- ---------------------------------------------------------------------------

/-- All waits are waits, none is longer than the longest, and none is shorter than the one before. -/
structure Orderly (p : RestartPolicy) : Prop where
  positive (n : Nat) : 0 < p.delay n
  bounded (n : Nat) : p.delay n ≤ p.maxBackoff
  increasing (n : Nat) : p.delay n ≤ p.delay (n + 1)

theorem toInt_delay (h : Reaches p.maxBackoff p.backoff) (hpos : 0 < p.backoff)
    (hle : p.backoff ≤ p.maxBackoff) (n : Nat) :
    (p.delay n).toInt = min (p.backoff.toInt * 2 ^ n) p.maxBackoff.toInt :=
  toInt_doubled h (Int64.lt_iff_toInt_lt.mp hpos) (Int64.le_iff_toInt_le.mp hle) n

theorem orderly_of_reaches (h : Reaches p.maxBackoff p.backoff) (hpos : 0 < p.backoff)
    (hle : p.backoff ≤ p.maxBackoff) : p.Orderly := by
  have hdelay := toInt_delay h hpos hle
  have hfirst : 0 < p.backoff.toInt := Int64.lt_iff_toInt_lt.mp hpos
  have hlimit : 0 < p.maxBackoff.toInt := by
    have := Int64.le_iff_toInt_le.mp hle
    omega
  constructor
  · intro n
    have hexact : 0 < p.backoff.toInt * 2 ^ n := Int.mul_pos hfirst (pow_pos (by decide) n)
    rw [Int64.lt_iff_toInt_lt, hdelay]
    exact lt_min hexact hlimit
  · intro n
    rw [Int64.le_iff_toInt_le, hdelay]
    exact min_le_right _ _
  · intro n
    have hpow : (2 : Int) ^ n ≤ 2 ^ (n + 1) := pow_le_pow_right₀ (by decide) n.le_succ
    rw [Int64.le_iff_toInt_le, hdelay, hdelay]
    exact min_le_min_right _ (Int.mul_le_mul_of_nonneg_left hpow hfirst.le)

/-- Waits are orderly if the first one is within the limit and doubling gets there in range. -/
theorem orderly_iff (hpos : 0 < p.backoff) (hlimit : 0 < p.maxBackoff) :
    p.Orderly ↔ p.backoff ≤ p.maxBackoff ∧ Reaches p.maxBackoff p.backoff := by
  refine ⟨fun h => ⟨h.bounded 0, by_contra fun hreaches => ?_⟩,
    fun ⟨hle, h⟩ => orderly_of_reaches h hpos hle⟩
  obtain ⟨n, hneg⟩ := exists_doubled_neg hreaches (Int64.lt_iff_toInt_lt.mp hpos)
    (Int64.lt_iff_toInt_lt.mp hlimit)
  have hwait := Int64.lt_iff_toInt_lt.mp (h.positive n)
  exact Int.lt_asymm hneg hwait

theorem withDefaults_eq_self (hpos : 0 < p.backoff) (hle : p.backoff ≤ p.maxBackoff) :
    p.withDefaults = p := by
  have hbackoff : ¬ p.backoff ≤ 0 := Int64.not_le.mpr hpos
  have hlimit : ¬ p.maxBackoff < p.backoff := Int64.not_lt.mpr hle
  simp only [withDefaults, hbackoff, hlimit, if_false]

theorem withDefaults_positive (p : RestartPolicy) :
    0 < p.withDefaults.backoff ∧ 0 < p.withDefaults.maxBackoff := by
  have hpos : 0 < p.withDefaults.backoff := by
    simp only [withDefaults]
    split
    · decide
    · rename_i h
      exact Int64.not_le.mp h
  refine ⟨hpos, ?_⟩
  show 0 < if p.maxBackoff < p.withDefaults.backoff then defaultMaxBackoff else p.maxBackoff
  split
  · decide
  · rename_i h
    exact Int64.lt_of_lt_of_le hpos (Int64.not_lt.mp h)

/-- With a limit below half the range, and a first wait within it, a policy is taken as it is, and the
wait after any number of attempts is the first one doubled as often in exact numbers, or the limit if
that is less. No duration that doubling goes through leaves the range. -/
theorem delay_exact (hpos : 0 < p.backoff) (hle : p.backoff ≤ p.maxBackoff)
    (hhalf : p.maxBackoff.toInt < 2 ^ 62) (n : Nat) :
    p.withDefaults = p ∧
    (p.delay n).toInt = min (p.backoff.toInt * 2 ^ n) p.maxBackoff.toInt ∧
    p.delay n = ((doublings p.maxBackoff n p.backoff).getLast?.map fun d =>
      if p.maxBackoff ≤ d then p.maxBackoff else d).getD p.backoff ∧
    ∀ k d, (doublings p.maxBackoff n p.backoff)[k]? = some d →
      d.toInt = p.backoff.toInt * 2 ^ (k + 1) ∧
        -2 ^ 63 ≤ p.backoff.toInt * 2 ^ (k + 1) ∧ p.backoff.toInt * 2 ^ (k + 1) < 2 ^ 63 := by
  have hfirst : 0 < p.backoff.toInt := Int64.lt_iff_toInt_lt.mp hpos
  have hreaches := reaches_of_lt_half hfirst (Int64.le_iff_toInt_le.mp hle) hhalf
  refine ⟨withDefaults_eq_self hpos hle, toInt_delay hreaches hpos hle n, doubled_eq .., fun k d hd => ?_⟩
  have hexact := toInt_doublings hreaches hfirst hd
  exact ⟨hexact, hexact ▸ d.le_toInt, hexact ▸ d.toInt_lt⟩

/-- The limit is as long as it may be, and a nanosecond is doubled up to it. -/
theorem delay_exact_longest :
    let p : RestartPolicy := ⟨0, 1, 4611686018427387903⟩
    0 < p.backoff ∧ p.backoff ≤ p.maxBackoff ∧ p.maxBackoff.toInt < 2 ^ 62 ∧
      (p.delay 61).toInt = 2 ^ 61 ∧ (p.delay 200).toInt = 2 ^ 62 - 1 := by
  have h (n : Nat) := (delay_exact (p := ⟨0, 1, 4611686018427387903⟩)
    (by decide) (by decide) (by decide) n).2.1
  refine ⟨by decide, by decide, by decide, (h 61).trans ?_, (h 200).trans ?_⟩ <;> decide

end RestartPolicy

-- ---------------------------------------------------------------------------
-- The waits of a supervisor
-- ---------------------------------------------------------------------------

namespace Supervisor

variable {κ : Type} {s s' s₀ : Supervisor κ} {m : SupervisorMove κ}
  {moves : List (SupervisorMove κ)} {wait : Duration}

def Paced (s : Supervisor κ) : Prop :=
  ∀ wait, s.phase = .resting wait → wait = s.policy.delay s.attempt

theorem examine_paced (s : Supervisor κ) (loss : Loss) : (s.examine loss).Paced := by
  unfold examine
  split
  · nofun
  · simp only
    split
    · nofun
    · rintro _ ⟨⟩
      rfl

theorem step_paced (h : s.Paced) (hs : s.step m = some s') : s'.Paced := by
  unfold step at hs
  split at hs
  · cases hs
  · cases hs
    exact h
  · cases hs
    nofun
  · cases hs
    exact examine_paced _ _
  · cases hs
    nofun
  · cases hs
    exact examine_paced _ _
  · cases hs
    nofun
  · cases hs
    exact examine_paced _ _
  · cases hs
    nofun
  · split at hs <;> cases hs
    nofun
  · split at hs <;> cases hs
    nofun
  · cases hs

theorem run_paced (h : s₀.Paced) (hrun : s₀.run moves = some s) : s.Paced :=
  run_induction (P := fun _ s => s.Paced) h (fun _ _ _ _ _ ih hs => step_paced ih hs) hrun

end Supervisor

-- ---------------------------------------------------------------------------
-- The waits of settings
-- ---------------------------------------------------------------------------

namespace ConnectionSettings

variable {c : ConnectionSettings} {t : ConnectionTimes}

theorem time_nonneg {key given : Text} {d : Duration} (h : time key given = .ok d) : 0 ≤ d := by
  unfold time at h
  split at h
  · cases h
    decide
  · split at h
    · cases h
    · split at h
      · cases h
      · rename_i hneg
        cases h
        exact Int64.not_lt.mp hneg

theorem times_backoff_nonneg (h : c.times = .ok t) : 0 ≤ t.backoff := by
  obtain ⟨backoff, hbackoff, h⟩ := bind_eq_ok.mp h
  obtain ⟨maxBackoff, -, h⟩ := bind_eq_ok.mp h
  obtain ⟨handshakeTimeout, -, h⟩ := bind_eq_ok.mp h
  obtain ⟨requestTimeout, -, h⟩ := bind_eq_ok.mp h
  cases h
  exact time_nonneg hbackoff

def policy (c : ConnectionSettings) (t : ConnectionTimes) : RestartPolicy :=
  ⟨c.maxRestarts, t.backoff, t.maxBackoff⟩

/-- A supervisor under valid settings waits as its policy says, with the defaults in the place of
waits that are missing or too short. The waits are positive, within the limit and ever longer if
and only if the first one is within the limit and doubling reaches the limit in range. -/
theorem waits_orderly_iff (h : c.validate = .ok t) {κ : Type} (dumps : Bool)
    (trace : Trace.Recorder) :
    let s : Supervisor κ := .start (c.policy t) dumps trace
    let p := s.policy
    p.backoff = (if t.backoff = 0 then RestartPolicy.defaultBackoff else t.backoff) ∧
    p.maxBackoff = (if t.maxBackoff < p.backoff then RestartPolicy.defaultMaxBackoff
      else t.maxBackoff) ∧
    (∀ moves s' wait, s.run moves = some s' → s'.phase = .resting wait →
      wait = p.delay s'.attempt) ∧
    (p.Orderly ↔ p.backoff ≤ p.maxBackoff ∧ RestartPolicy.Reaches p.maxBackoff p.backoff) := by
  intro s p
  obtain ⟨hbackoff, hlimit⟩ := (c.policy t).withDefaults_positive
  refine ⟨?_, rfl, fun moves s' wait hrun hresting => ?_, RestartPolicy.orderly_iff hbackoff hlimit⟩
  · have hnonneg : 0 ≤ t.backoff := by
      unfold validate at h
      split at h
      · cases h
      · exact times_backoff_nonneg h
    have hzero : t.backoff ≤ 0 ↔ t.backoff = 0 :=
      ⟨fun hle => Int64.le_antisymm hle hnonneg, fun heq => heq ▸ Int64.le_refl _⟩
    show (if t.backoff ≤ 0 then RestartPolicy.defaultBackoff else t.backoff) = _
    simp only [hzero]
  · have hfresh : s.Paced := nofun
    have hpaced := Supervisor.run_paced hfresh hrun
    rw [hpaced wait hresting, Supervisor.run_policy hrun]

/-- Three seconds, six seconds, and ten from then on. -/
theorem waits_orderly_iff_ten : ∃ t, validate ⟨3, "3s", "10s", [], []⟩ = .ok t ∧
    let p := (Supervisor.start (policy ⟨3, "3s", "10s", [], []⟩ t) true {} : Supervisor Nat).policy
    p.Orderly ∧ p.delay 1 = 6000000000 ∧ p.delay 2 = 10000000000 := by
  have h : validate ⟨3, "3s", "10s", [], []⟩ = .ok ⟨3000000000, 10000000000, 0, 0⟩ := by
    decide +kernel
  refine ⟨_, h, (waits_orderly_iff h true {}).2.2.2.mpr ⟨by decide, 2, ?_⟩, ?_, ?_⟩ <;> decide

/-- The first wait is not held against the limit, and a wait of half the range turns negative. -/
theorem waits_disorderly :
    (∃ t, validate ⟨3, "9s", [], [], []⟩ = .ok t ∧
      let p := (policy ⟨3, "9s", [], [], []⟩ t).withDefaults
      p.maxBackoff < p.delay 0 ∧ p.delay 1 < p.delay 0) ∧
    ∃ t, validate ⟨3, "1500000h", "2500000h", [], []⟩ = .ok t ∧
      (policy ⟨3, "1500000h", "2500000h", [], []⟩ t).withDefaults.delay 1 < 0 := by
  refine ⟨⟨⟨9000000000, 0, 0, 0⟩, ?_, ?_, ?_⟩,
    ⟨5400000000000000000, 9000000000000000000, 0, 0⟩, ?_, ?_⟩ <;> decide +kernel

end ConnectionSettings

end MacroRelay
