import MacroRelay.Wire.Pack
import Mathlib.Algebra.Group.Nat.Defs

/-!
# Sizes, texts and numbers are read back

What is written with a size below 2^32 is read back, and reading stops exactly where writing
stopped. The head of a size says how long the size is, whatever the size; so written sizes
can be taken off the front of a text even where four bytes cannot hold them.
-/

namespace MacroRelay.Pack

theorem map_ok {x : Except ε α} {f : α → β} : x.map f = .ok b ↔ ∃ a, x = .ok a ∧ f a = b := by
  cases x <;> simp [Except.map]

-- ---------------------------------------------------------------------------
-- Bytes of a number
-- ---------------------------------------------------------------------------

theorem bigEndian_succ (size n : Nat) :
    bigEndian (size + 1) n = (n / 256 ^ size).toUInt8 :: bigEndian size n := by
  simp [bigEndian, List.range_succ]

@[simp] theorem length_bigEndian (size n : Nat) : (bigEndian size n).length = size := by
  simp [bigEndian]

theorem foldl_bigEndian (bytes : Text) (n : Nat) :
    bytes.foldl (fun n b => n * 256 + b.toNat) n = n * 256 ^ bytes.length + ofBigEndian bytes := by
  induction bytes generalizing n with
  | nil => simp [ofBigEndian]
  | cons b bytes ih =>
    simp only [ofBigEndian, List.foldl_cons, List.length_cons]
    rw [ih (n * 256 + b.toNat), ih (0 * 256 + b.toNat)]
    grind

theorem ofBigEndian_cons (b : UInt8) (bytes : Text) :
    ofBigEndian (b :: bytes) = b.toNat * 256 ^ bytes.length + ofBigEndian bytes := by
  have h := foldl_bigEndian bytes (0 * 256 + b.toNat)
  simpa [ofBigEndian] using h

theorem ofBigEndian_bigEndian (size n : Nat) : ofBigEndian (bigEndian size n) = n % 256 ^ size := by
  induction size with
  | zero => simp [bigEndian, ofBigEndian, Nat.mod_one]
  | succ size ih =>
    rw [bigEndian_succ, ofBigEndian_cons, length_bigEndian, ih, Nat.mod_pow_succ]
    simp only [UInt8.toNat_ofNat', Nat.reducePow]
    grind

theorem ofBigEndian_lt (bytes : Text) : ofBigEndian bytes < 256 ^ bytes.length := by
  induction bytes with
  | nil => simp [ofBigEndian]
  | cons b bytes ih =>
    have hb : b.toNat + 1 ≤ 256 := b.toNat_lt
    have hm := Nat.mul_le_mul_right (256 ^ bytes.length) hb
    rw [ofBigEndian_cons, List.length_cons, Nat.pow_succ]
    grind

theorem ofBigEndian_inj {a b : Text} (hl : a.length = b.length) (h : ofBigEndian a = ofBigEndian b) :
    a = b := by
  induction a generalizing b with
  | nil => exact (List.length_eq_zero_iff.mp hl.symm).symm
  | cons x a ih =>
    obtain ⟨y, b, rfl⟩ := List.exists_cons_of_length_eq_add_one hl.symm
    have hlen : a.length = b.length := by simpa using hl
    have ha := ofBigEndian_lt a
    have hb := ofBigEndian_lt b
    rw [ofBigEndian_cons, ofBigEndian_cons, hlen] at h
    rw [hlen] at ha
    have hrest : ofBigEndian a = ofBigEndian b := by
      have := congrArg (· % 256 ^ b.length) h
      simpa [Nat.mul_add_mod', Nat.mod_eq_of_lt ha, Nat.mod_eq_of_lt hb] using this
    have hhead : x.toNat = y.toNat := by
      rw [hrest] at h
      exact Nat.eq_of_mul_eq_mul_right (Nat.pow_pos (by decide)) (Nat.add_right_cancel h)
    rw [UInt8.toNat_inj.mp hhead, ih hlen hrest]

theorem bigEndian_ofBigEndian (bytes : Text) : bigEndian bytes.length (ofBigEndian bytes) = bytes :=
  ofBigEndian_inj (length_bigEndian _ _) (by
    rw [ofBigEndian_bigEndian, Nat.mod_eq_of_lt (ofBigEndian_lt bytes)])

-- ---------------------------------------------------------------------------
-- Exact numbers of bytes
-- ---------------------------------------------------------------------------

theorem dropExact_append (t s : Text) : dropExact t.length (t ++ s) = .ok s := by
  induction t with
  | nil => rfl
  | cons b t ih => exact ih

theorem dropExact_eq {n : Nat} {t rest : Text} (h : dropExact n t = .ok rest) :
    ∃ front, front.length = n ∧ t = front ++ rest := by
  fun_induction dropExact n t with
  | case1 t => cases h; exact ⟨[], rfl, rfl⟩
  | case2 => cases h
  | case3 n b t ih =>
    obtain ⟨front, hlen, rfl⟩ := ih h
    exact ⟨b :: front, by simp [hlen], rfl⟩

theorem length_of_dropExact {n : Nat} {t rest : Text} (h : dropExact n t = .ok rest) :
    rest.length + n = t.length := by
  obtain ⟨front, rfl, rfl⟩ := dropExact_eq h
  rw [List.length_append, Nat.add_comm]

theorem takeExact_append (t s : Text) : takeExact t.length (t ++ s) = .ok (t, s) := by
  simp [takeExact, dropExact_append, Except.map]

theorem length_of_takeExact {n : Nat} {t part rest : Text} (h : takeExact n t = .ok (part, rest)) :
    part.length = n := by
  obtain ⟨left, hd, h⟩ := map_ok.mp h
  have hl := length_of_dropExact hd
  cases h
  rw [List.length_take]
  omega

theorem readBig_bigEndian {size n : Nat} (h : n < 256 ^ size) (s : Text) :
    readBig size (bigEndian size n ++ s) = .ok (n, s) := by
  have ht := takeExact_append (bigEndian size n) s
  rw [length_bigEndian] at ht
  simp [readBig, ht, Except.map, ofBigEndian_bigEndian, Nat.mod_eq_of_lt h]

theorem readBig_lt {size n : Nat} {t rest : Text} (h : readBig size t = .ok (n, rest)) :
    n < 256 ^ size := by
  obtain ⟨⟨bytes, left⟩, ht, h⟩ := map_ok.mp h
  cases h
  rw [← length_of_takeExact ht]
  exact ofBigEndian_lt bytes

-- ---------------------------------------------------------------------------
-- Families of heads
-- ---------------------------------------------------------------------------

/-- The heads of the family fit into a byte, are told apart from each other and from nil, and
its largest size takes four bytes. -/
def Family.Sound (f : Family) : Prop :=
  f.base.toNat + f.limit ≤ 256 ∧ f.sizeBytes? nil = none ∧
    (∀ p ∈ f.wide, f.sizeBytes? p.1 = some p.2 ∧ 0 < p.2 ∧ p.2 ≤ 4) ∧
    f.wide.getLast?.map (·.2) = some 4

instance (f : Family) : Decidable f.Sound := by unfold Family.Sound; infer_instance

theorem Family.text_sound : Family.text.Sound := by decide

theorem Family.bytes_sound : Family.bytes.Sound := by decide

theorem Family.array_sound : Family.array.Sound := by decide

theorem Family.map_sound : Family.map.Sound := by decide

theorem Family.extension_sound : Family.extension.Sound := by decide

theorem Family.writeWide_mem {wide : List (UInt8 × Nat)} (h : wide.getLast?.map (·.2) = some 4)
    (n : Nat) : ∃ p ∈ wide, writeWide n wide = p.1 :: bigEndian p.2 n ∧
      (n < 2 ^ 32 → n < 256 ^ p.2) := by
  fun_induction writeWide n wide with
  | case1 => simp at h
  | case2 code size =>
    simp only [List.getLast?_singleton, Option.map_some, Option.some.injEq] at h
    subst h
    exact ⟨_, List.mem_singleton_self _, rfl, fun hn => hn⟩
  | case3 code size rest hne hlt => exact ⟨_, List.mem_cons_self, rfl, fun _ => hlt⟩
  | case4 code size rest hne hlt ih =>
    obtain ⟨next, rest, rfl⟩ := List.exists_cons_of_ne_nil hne
    rw [List.getLast?_cons_cons] at h
    obtain ⟨p, hp, hw⟩ := ih h
    exact ⟨p, List.mem_cons_of_mem _ hp, hw⟩

theorem Family.read_small {f : Family} (hf : f.Sound) {n : Nat} (hn : n < f.limit) (s : Text) :
    f.sizeBytes? (f.base + n.toUInt8) = some 0 ∧
      f.read (f.base + n.toUInt8) s = .ok (n, s) := by
  have hfit := hf.1
  have hcode : (f.base + n.toUInt8).toNat = f.base.toNat + n := by
    simp only [UInt8.toNat_add, UInt8.toNat_ofNat', Nat.reducePow]
    omega
  have hle : f.base ≤ f.base + n.toUInt8 := UInt8.le_iff_toNat_le.mpr (by omega)
  have hsize : f.sizeBytes? (f.base + n.toUInt8) = some 0 := by
    unfold Family.sizeBytes?
    rw [if_pos ⟨hle, by omega⟩]
  have hback : (f.base + n.toUInt8 - f.base).toNat = n := by
    rw [UInt8.toNat_sub_of_le _ _ hle]
    omega
  simp only [Family.read, hsize, hback, and_self]

theorem Family.read_wide {f : Family} (hf : f.Sound) {p : UInt8 × Nat} (hp : p ∈ f.wide)
    {n : Nat} (hn : n < 256 ^ p.2) (s : Text) : f.read p.1 (bigEndian p.2 n ++ s) = .ok (n, s) := by
  obtain ⟨hsize, hpos, -⟩ := hf.2.2.1 p hp
  obtain ⟨k, hk⟩ := Nat.exists_eq_succ_of_ne_zero (Nat.ne_of_gt hpos)
  have hread := readBig_bigEndian hn s
  rw [hk] at hsize hread ⊢
  simp only [Family.read, hsize]
  exact hread

/-- The head alone says how many bytes the size takes; the size itself comes back when four
bytes can hold it. -/
theorem Family.write_cons {f : Family} (hf : f.Sound) (n : Nat) :
    ∃ code rest, f.write n = code :: rest ∧ f.sizeBytes? code = some rest.length ∧
      (n < 2 ^ 32 → ∀ s, f.read code (rest ++ s) = .ok (n, s)) := by
  unfold Family.write
  split
  · rename_i hn
    exact ⟨_, [], rfl, (read_small hf hn []).1, fun _ s => (read_small hf hn s).2⟩
  · obtain ⟨p, hp, hw, hlt⟩ := writeWide_mem hf.2.2.2 n
    have hsize := (hf.2.2.1 p hp).1
    exact ⟨_, _, hw, by simpa using hsize, fun hn => read_wide hf hp (hlt hn)⟩

theorem Family.write_append_inj {f : Family} (hf : f.Sound) {n m : Nat} {a b : Text}
    (h : f.write n ++ a = f.write m ++ b) : f.write n = f.write m ∧ a = b := by
  obtain ⟨code, rest, hn, hsize, -⟩ := write_cons hf n
  obtain ⟨code', rest', hm, hsize', -⟩ := write_cons hf m
  rw [hn, hm] at h ⊢
  simp only [List.cons_append, List.cons.injEq] at h
  obtain ⟨rfl, h⟩ := h
  rw [hsize, Option.some.injEq] at hsize'
  obtain ⟨rfl, rfl⟩ := List.append_inj h hsize'
  exact ⟨rfl, rfl⟩

theorem Family.ne_nil_of_sizeBytes {f : Family} (hf : f.Sound) {code : UInt8} {size : Nat}
    (h : f.sizeBytes? code = some size) : code ≠ nil := by
  rintro rfl
  rw [hf.2.1] at h
  cases h

theorem Family.write_head_ne_nil {f : Family} (hf : f.Sound) (n : Nat) :
    ∃ code rest, f.write n = code :: rest ∧ code ≠ nil := by
  obtain ⟨code, rest, hw, hsize, -⟩ := write_cons hf n
  exact ⟨code, rest, hw, ne_nil_of_sizeBytes hf hsize⟩

theorem Family.read_lt {f : Family} (hf : f.Sound) {code : UInt8} {n : Nat} {t rest : Text}
    (h : f.read code t = .ok (n, rest)) : n < 2 ^ 32 := by
  unfold Family.read at h
  split at h
  · cases h
  · cases h
    have := (code - f.base).toNat_lt
    omega
  · rename_i size hne hsize
    have hle : size ≤ 4 := by
      unfold Family.sizeBytes? at hsize
      split at hsize
      · cases hsize; exact absurd rfl hne
      · have hm : (code, size) ∈ f.wide := by
          obtain ⟨l, r, hl, -⟩ := List.lookup_eq_some_iff.mp hsize
          simp [hl]
        exact (hf.2.2.1 _ hm).2.2
    calc n < 256 ^ size := readBig_lt h
      _ ≤ 256 ^ 4 := Nat.pow_le_pow_right (by decide) hle
      _ = 2 ^ 32 := rfl

theorem readCount_write {f : Family} (hf : f.Sound) {n : Nat} (hn : n < 2 ^ 32) (s : Text) :
    readCount f (f.write n ++ s) = .ok (some n, s) := by
  obtain ⟨code, rest, hw, hsize, hread⟩ := Family.write_cons hf n
  simp [hw, readCount, Family.ne_nil_of_sizeBytes hf hsize, hread hn, Except.map]

theorem readCount_lt {f : Family} (hf : f.Sound) {n : Nat} {t rest : Text}
    (h : readCount f t = .ok (some n, rest)) : n < 2 ^ 32 := by
  cases t with
  | nil => simp [readCount] at h
  | cons code t =>
    simp only [readCount] at h
    split at h
    · simp at h
    · obtain ⟨⟨m, left⟩, hr, h⟩ := map_ok.mp h
      cases h
      exact Family.read_lt hf hr

-- ---------------------------------------------------------------------------
-- Texts and numbers
-- ---------------------------------------------------------------------------

theorem readBytes_writeText {t : Text} (h : t.length < 2 ^ 32) (s : Text) :
    readBytes (writeText t ++ s) = .ok (some t, s) := by
  obtain ⟨code, rest, hw, hsize, hread⟩ := Family.write_cons Family.text_sound t.length
  have hnil := Family.ne_nil_of_sizeBytes Family.text_sound hsize
  simp [writeText, hw, readBytes, hnil, hsize, hread h, takeExact_append, bind, Except.bind, pure,
    Except.pure]

theorem readText_writeText {t : Text} (h : t.length < 2 ^ 32) (s : Text) :
    readText (writeText t ++ s) = .ok (t, s) := by
  simp [readText, readBytes_writeText h, Except.map]

theorem readBytes_lt {t part rest : Text} (h : readBytes t = .ok (some part, rest)) :
    part.length < 2 ^ 32 := by
  cases t with
  | nil => simp [readBytes] at h
  | cons code t =>
    simp only [readBytes] at h
    split at h
    · simp at h
    · simp only [bind, Except.bind] at h
      split at h
      · cases h
      · rename_i sized hr
        split at h
        · cases h
        · rename_i taken ht
          simp only [pure, Except.pure, Except.ok.injEq, Prod.mk.injEq, Option.some.injEq] at h
          rw [← h.1, length_of_takeExact ht]
          split at hr
          · exact Family.read_lt Family.text_sound hr
          · exact Family.read_lt Family.bytes_sound hr

theorem readText_lt {t part rest : Text} (h : readText t = .ok (part, rest)) :
    part.length < 2 ^ 32 := by
  obtain ⟨⟨read, left⟩, hr, h⟩ := map_ok.mp h
  cases h
  cases read with
  | none => simp
  | some t => exact readBytes_lt hr

theorem readText_map_head (t : Text) : readText (0x82 :: t) = .error .malformed := rfl

/-- A row of written texts with something after it that is no text is read in one way only. -/
theorem texts_append_inj {xs ys : List Text} {a b : Text} (hx : ∀ t ∈ xs, t.length < 2 ^ 32)
    (hy : ∀ t ∈ ys, t.length < 2 ^ 32) (ha : readText a = .error .malformed)
    (hb : readText b = .error .malformed)
    (h : xs.flatMap writeText ++ a = ys.flatMap writeText ++ b) : xs = ys ∧ a = b := by
  induction xs generalizing ys with
  | nil =>
    cases ys with
    | nil => exact ⟨rfl, by simpa using h⟩
    | cons y ys =>
      simp only [List.flatMap_nil, List.nil_append, List.flatMap_cons, List.append_assoc] at h
      rw [h, readText_writeText (hy y List.mem_cons_self)] at ha
      cases ha
  | cons x xs ih =>
    cases ys with
    | nil =>
      simp only [List.flatMap_nil, List.nil_append, List.flatMap_cons, List.append_assoc] at h
      rw [← h, readText_writeText (hx x List.mem_cons_self)] at hb
      cases hb
    | cons y ys =>
      simp only [List.flatMap_cons, List.append_assoc] at h
      have hr := congrArg readText h
      rw [readText_writeText (hx x List.mem_cons_self),
        readText_writeText (hy y List.mem_cons_self)] at hr
      simp only [Except.ok.injEq, Prod.mk.injEq] at hr
      obtain ⟨rfl, hr⟩ := hr
      obtain ⟨rfl, hab⟩ := ih (fun t ht => hx t (List.mem_cons_of_mem _ ht))
        (fun t ht => hy t (List.mem_cons_of_mem _ ht)) hr
      exact ⟨rfl, hab⟩

theorem readInteger_bigEndian {code : UInt8} {size n : Nat}
    (hc : integerHeads.lookup code = some (size, false)) (hn : n < 256 ^ size) (s : Text) :
    readInteger (code :: bigEndian size n ++ s) = .ok (n, s) := by
  have hplain : ¬ code = nil ∧ ¬ code < 0x80 ∧ ¬ 0xE0 ≤ code := by
    obtain ⟨l, r, hl, -⟩ := List.lookup_eq_some_iff.mp hc
    have hm : (code, size, false) ∈ integerHeads := by simp [hl]
    simp only [integerHeads, List.mem_cons, Prod.mk.injEq, List.not_mem_nil, or_false] at hm
    rcases hm with h | h | h | h | h | h | h | h <;> obtain ⟨rfl, -⟩ := h <;> decide
  simp [readInteger, hplain, hc, readBig_bigEndian hn, Except.map]

end MacroRelay.Pack
