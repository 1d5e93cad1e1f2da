import MacroRelay.Proofs.Wire.RoundTrip

/-!
# Values are skipped whole

A value tells with its first bytes how far it goes, however deeply other values are nested in it.
So one that nobody looks into can be carried along in its written form, whatever is written
behind it.
-/

namespace MacroRelay

namespace Pack

/-- A head that announces `n`. Any width that holds `n` will do, not only the shortest. -/
inductive Family.Heads (f : Family) : Nat → Text → Prop
  | small (h : n < f.limit) : f.Heads n [f.base + n.toUInt8]
  | wide (hm : (code, size) ∈ f.wide) (h : n < 256 ^ size) : f.Heads n (code :: bigEndian size n)

/-- One whole value. The values in a map are its keys and entries in turn; a key can be any
value. -/
inductive IsValue : Text → Prop
  | atom (h : code < 0x80 ∨ 0xE0 ≤ code) : IsValue [code]
  | fixed (hc : fixedSizes.lookup code = some size) (h : t.length = size) : IsValue (code :: t)
  | text {t : Text} (h : Family.text.Heads t.length head) : IsValue (head ++ t)
  | bytes {t : Text} (h : Family.bytes.Heads t.length head) : IsValue (head ++ t)
  | extension {t : Text} (h : Family.extension.Heads t.length head) (kind : UInt8) :
    IsValue (head ++ kind :: t)
  | array {vs : List Text} (h : Family.array.Heads vs.length head) (hvs : ∀ v ∈ vs, IsValue v) :
    IsValue (head ++ vs.flatten)
  | map {vs : List Text} (h : Family.map.Heads n head) (hn : vs.length = 2 * n)
    (hvs : ∀ v ∈ vs, IsValue v) : IsValue (head ++ vs.flatten)

-- ---------------------------------------------------------------------------
-- From a value to its end
-- ---------------------------------------------------------------------------

theorem Family.Heads.read {f : Family} (hf : f.Sound) (h : f.Heads n head) :
    ∃ code rest, head = code :: rest ∧ (f.sizeBytes? code).isSome ∧
      ∀ s, f.read code (rest ++ s) = .ok (n, s) := by
  cases h with
  | small hn =>
    exact ⟨_, [], rfl, by simp [(read_small hf hn []).1], fun s => (read_small hf hn s).2⟩
  | wide hm hn => exact ⟨_, _, rfl, by simp [(hf.2.2.1 _ hm).1], read_wide hf hm hn⟩

/-- No two families share a head, and none has a head that stands for itself or for a fixed
number of bytes. -/
theorem sized_apart (code : UInt8) : ∀ p ∈ sized.zipIdx, (p.1.1.sizeBytes? code).isSome →
    ¬ (code < 0x80 ∨ 0xE0 ≤ code) ∧ fixedSizes.lookup code = none ∧
      sized.findIdx? (fun q => (q.1.sizeBytes? code).isSome) = some p.2 := by
  have h : ∀ n : Fin 256, ∀ p ∈ sized.zipIdx, (p.1.1.sizeBytes? (UInt8.ofFin n)).isSome →
      ¬ (UInt8.ofFin n < 0x80 ∨ 0xE0 ≤ UInt8.ofFin n) ∧ fixedSizes.lookup (UInt8.ofFin n) = none ∧
        sized.findIdx? (fun q => (q.1.sizeBytes? (UInt8.ofFin n)).isSome) = some p.2 := by
    decide +kernel
  exact h code.toFin

theorem extent_sized {i : Nat} {f : Family} {counted : Nat → Nat × Nat}
    (hi : sized[i]? = some (f, counted)) {code : UInt8} (hs : (f.sizeBytes? code).isSome)
    {n : Nat} {rest left : Text} (hr : f.read code rest = .ok (n, left)) :
    extent code rest = .ok (rest.length - left.length + (counted n).1, (counted n).2) := by
  obtain ⟨hatom, hfixed, hfind⟩ := sized_apart code ((f, counted), i)
    (List.mem_zipIdx_iff_getElem?.mpr hi) hs
  have hfound : sized.find? (fun q => (q.1.sizeBytes? code).isSome) = some (f, counted) := by
    rw [List.find?_eq_bind_findIdx?_getElem?, hfind, Option.bind_some, hi]
  simp only [extent, if_neg hatom, hfixed, hfound, hr]
  rfl

theorem skip_cons {code : UInt8} {body s : Text} {values : Nat}
    (h : extent code (body ++ s) = .ok (body.length, values)) (k : Nat) :
    skip (k + 1) (code :: body ++ s) = skip (k + values) s := by
  rw [List.cons_append, skip]
  simp only [h]
  split
  · rename_i hd
    rw [dropExact_append] at hd
    cases hd
  · rename_i hd
    rw [dropExact_append] at hd
    cases hd
    rfl

theorem skip_sized {i : Nat} {f : Family} {counted : Nat → Nat × Nat}
    (hi : sized[i]? = some (f, counted)) (hf : f.Sound) {n : Nat} {head body : Text}
    (hh : f.Heads n head) (hb : (counted n).1 = body.length) (k : Nat) (s : Text) :
    skip (k + 1) (head ++ body ++ s) = skip (k + (counted n).2) s := by
  obtain ⟨code, rest, rfl, hs, hr⟩ := hh.read hf
  have hx : extent code (rest ++ body ++ s) = .ok ((rest ++ body).length, (counted n).2) := by
    rw [List.append_assoc, extent_sized hi hs (hr (body ++ s)), hb]
    simp only [List.length_append]
    congr 2
    omega
  exact skip_cons hx k

theorem skip_row {vs : List Text} (h : ∀ v ∈ vs, ∀ k s, skip (k + 1) (v ++ s) = skip k s) (k : Nat)
    (s : Text) : skip (k + vs.length) (vs.flatten ++ s) = skip k s := by
  induction vs with
  | nil => rfl
  | cons v vs ih =>
    rw [List.flatten_cons, List.append_assoc, List.length_cons, ← Nat.add_assoc,
      h v List.mem_cons_self, ih fun w hw => h w (List.mem_cons_of_mem _ hw)]

theorem IsValue.skip {t : Text} (h : IsValue t) : ∀ k s, skip (k + 1) (t ++ s) = skip k s := by
  induction h with
  | @atom code h =>
    intro k s
    have hx : extent code ([] ++ s) = .ok (([] : Text).length, 0) := by simp [extent, h]
    exact skip_cons hx k
  | @fixed code size t hc h =>
    intro k s
    have hplain : ¬ (code < 0x80 ∨ 0xE0 ≤ code) := by
      obtain ⟨l, r, hl, -⟩ := List.lookup_eq_some_iff.mp hc
      have hheads : ∀ p ∈ fixedSizes, ¬ (p.1 < 0x80 ∨ 0xE0 ≤ p.1) := by decide
      exact hheads (code, size) (by simp [hl])
    have hx : extent code (t ++ s) = .ok (t.length, 0) := by simp only [extent, if_neg hplain, hc, h]
    exact skip_cons hx k
  | text h => exact skip_sized (i := 0) rfl Family.text_sound h rfl
  | bytes h => exact skip_sized (i := 1) rfl Family.bytes_sound h rfl
  | extension h kind => exact skip_sized (i := 2) rfl Family.extension_sound h rfl
  | @array head vs h hvs ih =>
    intro k s
    have hhead : Pack.skip (k + 1) (head ++ [] ++ (vs.flatten ++ s)) =
        Pack.skip (k + vs.length) (vs.flatten ++ s) :=
      skip_sized (i := 3) rfl Family.array_sound h rfl k _
    rw [List.append_nil] at hhead
    rw [List.append_assoc, hhead]
    exact skip_row ih k s
  | @map n head vs h hn hvs ih =>
    intro k s
    have hhead : Pack.skip (k + 1) (head ++ [] ++ (vs.flatten ++ s)) =
        Pack.skip (k + 2 * n) (vs.flatten ++ s) :=
      skip_sized (i := 4) rfl Family.map_sound h rfl k _
    rw [List.append_nil] at hhead
    rw [List.append_assoc, hhead, ← hn]
    exact skip_row ih k s

theorem IsValue.ne_nil {t : Text} (h : IsValue t) : t ≠ [] := by
  rintro rfl
  have hs := h.skip 0 []
  simp [Pack.skip] at hs

theorem IsValue.readRaw {t : Text} (h : IsValue t) (s : Text) : readRaw (t ++ s) = .ok (t, s) := by
  have hs : Pack.skip 1 (t ++ s) = .ok s := by rw [h.skip 0 s, Pack.skip]
  simp [Pack.readRaw, hs, Except.map]

-- ---------------------------------------------------------------------------
-- From an end to the value
-- ---------------------------------------------------------------------------

theorem Family.heads_of_read {f : Family} (hf : f.Sound) {code : UInt8} {n : Nat} {t left : Text}
    (h : f.read code t = .ok (n, left)) : ∃ size, t = size ++ left ∧ f.Heads n (code :: size) := by
  have hsizes : ∀ k, f.sizeBytes? code = some k →
      (k = 0 ∧ f.base ≤ code ∧ code.toNat < f.base.toNat + f.limit) ∨ (code, k) ∈ f.wide := by
    intro k hk
    unfold Family.sizeBytes? at hk
    split at hk
    · rename_i hcode
      cases hk
      exact .inl ⟨rfl, hcode⟩
    · obtain ⟨l, r, hl, -⟩ := List.lookup_eq_some_iff.mp hk
      exact .inr (by simp [hl])
  unfold Family.read at h
  split at h
  · cases h
  · rename_i hs
    cases h
    rcases hsizes 0 hs with ⟨-, hle, hlt⟩ | hm
    · have hnat := UInt8.toNat_sub_of_le _ _ hle
      have hbase := UInt8.le_iff_toNat_le.mp hle
      have hback : f.base + (code - f.base).toNat.toUInt8 = code := by
        apply UInt8.toNat_inj.mp
        have := code.toNat_lt
        simp only [UInt8.toNat_add, UInt8.toNat_ofNat', hnat]
        omega
      have hsmall := Heads.small (f := f) (n := (code - f.base).toNat) (by omega)
      rw [hback] at hsmall
      exact ⟨[], rfl, hsmall⟩
    · exact absurd (hf.2.2.1 _ hm).2.1 (Nat.lt_irrefl 0)
  · rename_i size hne hs
    obtain ⟨⟨bytes, rest⟩, ht, h⟩ := map_ok.mp h
    cases h
    obtain ⟨rest, hd, h⟩ := map_ok.mp ht
    cases h
    obtain ⟨front, hlen, rfl⟩ := dropExact_eq hd
    rcases hsizes size hs with ⟨hzero, -⟩ | hm
    · exact absurd hzero hne
    · have hfront : (front ++ left).take size = front := by rw [← hlen, List.take_left']; rfl
      have hlt := ofBigEndian_lt front
      have hwide := Heads.wide hm (hlen ▸ hlt)
      rw [← hlen, bigEndian_ofBigEndian] at hwide
      rw [hfront]
      exact ⟨front, rfl, hwide⟩

theorem IsValue.of_sized {f : Family} {counted : Nat → Nat × Nat} (hm : (f, counted) ∈ sized)
    {code : UInt8} {n : Nat} {front left tail : Text} {vs : List Text}
    (hr : f.read code (front ++ left) = .ok (n, tail))
    (hbytes : (front ++ left).length - tail.length + (counted n).1 = front.length)
    (hvalues : (counted n).2 = vs.length) (hvs : ∀ v ∈ vs, IsValue v) :
    IsValue (code :: front ++ vs.flatten) := by
  have hsound : ∀ p ∈ sized, p.1.Sound := by decide
  obtain ⟨size, hsplit, hheads⟩ := Family.heads_of_read (hsound _ hm) hr
  have hlen := congrArg List.length hsplit
  simp only [List.length_append] at hlen hbytes
  obtain ⟨body, rfl⟩ : size <+: front :=
    List.prefix_of_prefix_length_le ⟨tail, hsplit.symm⟩ ⟨left, rfl⟩ (by omega)
  replace hbytes : (counted n).1 = body.length := by
    simp only [List.length_append] at hlen hbytes
    omega
  simp only [sized, List.mem_cons, Prod.mk.injEq, List.not_mem_nil, or_false] at hm
  rw [← List.cons_append]
  rcases hm with ⟨rfl, rfl⟩ | ⟨rfl, rfl⟩ | ⟨rfl, rfl⟩ | ⟨rfl, rfl⟩ | ⟨rfl, rfl⟩
  · obtain rfl := List.length_eq_zero_iff.mp hvalues.symm
    rw [List.flatten_nil, List.append_nil]
    exact .text (hbytes ▸ hheads)
  · obtain rfl := List.length_eq_zero_iff.mp hvalues.symm
    rw [List.flatten_nil, List.append_nil]
    exact .bytes (hbytes ▸ hheads)
  · obtain rfl := List.length_eq_zero_iff.mp hvalues.symm
    obtain ⟨kind, body, rfl⟩ := List.exists_cons_of_length_eq_add_one hbytes.symm
    rw [List.flatten_nil, List.append_nil]
    exact .extension (Nat.add_right_cancel hbytes ▸ hheads) kind
  · obtain rfl := List.length_eq_zero_iff.mp hbytes.symm
    rw [List.append_nil]
    exact .array (hvalues ▸ hheads) hvs
  · obtain rfl := List.length_eq_zero_iff.mp hbytes.symm
    rw [List.append_nil]
    exact .map hheads hvalues.symm hvs

theorem IsValue.of_extent {code : UInt8} {front left : Text} {vs : List Text}
    (hx : extent code (front ++ left) = .ok (front.length, vs.length)) (hvs : ∀ v ∈ vs, IsValue v) :
    IsValue (code :: front ++ vs.flatten) := by
  unfold extent at hx
  split at hx
  · rename_i hatom
    simp only [Except.ok.injEq, Prod.mk.injEq] at hx
    obtain ⟨hfront, hnone⟩ := hx
    rw [List.length_eq_zero_iff.mp hfront.symm, List.length_eq_zero_iff.mp hnone.symm]
    exact .atom hatom
  · split at hx
    · rename_i size hc
      simp only [Except.ok.injEq, Prod.mk.injEq] at hx
      obtain ⟨hfront, hnone⟩ := hx
      rw [List.length_eq_zero_iff.mp hnone.symm, List.flatten_nil, List.append_nil]
      exact .fixed hc hfront.symm
    · split at hx
      · cases hx
      · rename_i f counted hfind
        have hm := List.mem_of_find?_eq_some hfind
        cases hr : f.read code (front ++ left) with
        | error fault => simp [hr, bind, Except.bind] at hx
        | ok read =>
          obtain ⟨n, tail⟩ := read
          simp only [hr, bind, Except.bind, pure, Except.pure, Except.ok.injEq,
            Prod.mk.injEq] at hx
          exact .of_sized hm hr hx.1 hx.2 hvs

theorem skip_values {k : Nat} {t rest : Text} (h : skip k t = .ok rest) :
    ∃ vs : List Text, vs.length = k ∧ (∀ v ∈ vs, IsValue v) ∧ t = vs.flatten ++ rest := by
  fun_induction skip k t with
  | case1 t => cases h; exact ⟨[], rfl, by simp, rfl⟩
  | case2 => cases h
  | case3 => cases h
  | case4 => cases h
  | case5 k code t bytes values hx left hd ih =>
    obtain ⟨vs, hlen, hvs, rfl⟩ := ih h
    obtain ⟨front, hfront, rfl⟩ := dropExact_eq hd
    refine ⟨(code :: front ++ (vs.take values).flatten) :: vs.drop values, ?_, ?_, ?_⟩
    · simp; omega
    · intro v hv
      rcases List.mem_cons.mp hv with rfl | hv
      · have hx' : extent code (front ++ (vs.flatten ++ rest)) =
            .ok (front.length, (vs.take values).length) := by
          rw [hx, hfront, List.length_take, Nat.min_eq_left (by omega)]
        exact .of_extent hx' fun v hv => hvs v (List.mem_of_mem_take hv)
      · exact hvs v (List.mem_of_mem_drop hv)
    · rw [List.flatten_cons, List.append_assoc, List.append_assoc, ← List.append_assoc (List.flatten _),
        ← List.flatten_append, List.take_append_drop]
      rfl

theorem readBytes_writeBytes {t : Text} (h : t.length < 2 ^ 32) (s : Text) :
    readBytes (writeBytes t ++ s) = .ok (some t, s) := by
  obtain ⟨code, rest, hw, hsize, hread⟩ := Family.write_cons Family.bytes_sound t.length
  have hnil := Family.ne_nil_of_sizeBytes Family.bytes_sound hsize
  obtain ⟨-, -, hfirst⟩ := sized_apart code ((.bytes, _), 1) (List.mem_zipIdx_iff_getElem?.mpr rfl)
    (by simp [hsize])
  have htext : ¬ (Family.text.sizeBytes? code).isSome :=
    (List.findIdx?_eq_some_iff_getElem.mp hfirst).2.2 0 (by decide)
  simp [writeBytes, hw, readBytes, hnil, htext, hread h, takeExact_append, bind, Except.bind, pure,
    Except.pure]

theorem readRaw_iff {t v rest : Text} : readRaw t = .ok (v, rest) ↔ IsValue v ∧ t = v ++ rest := by
  constructor
  · intro h
    obtain ⟨left, hs, h⟩ := map_ok.mp h
    obtain ⟨vs, hlen, hvs, ht⟩ := skip_values hs
    obtain ⟨w, rfl⟩ := List.length_eq_one_iff.mp hlen
    simp only [List.flatten_singleton] at ht
    subst ht
    simp only [List.length_append, Nat.add_sub_cancel, List.take_left, Prod.mk.injEq] at h
    obtain ⟨rfl, rfl⟩ := h
    exact ⟨hvs w (List.mem_singleton_self w), rfl⟩
  · rintro ⟨hv, rfl⟩
    exact hv.readRaw rest

end Pack

-- ---------------------------------------------------------------------------
-- Fields that hold values or plain bytes
-- ---------------------------------------------------------------------------

namespace Codec

theorem raw_returns {t : Text} (h : Pack.IsValue t) :
    raw.Returns (some t) (if t = [Pack.nil] then none else some t) := by
  intro s
  have hr : raw.read .blank (raw.write (some t) ++ s) =
      .ok (.leaf (if t = [Pack.nil] then .absent else .raw t), s) := by
    simp only [raw, Option.getD_some, h.readRaw, Except.map]
  refine ⟨_, hr, ?_⟩
  split <;> rfl

theorem raw_returns_none : raw.Returns none none := by
  intro s
  have hnil : Pack.IsValue [Pack.nil] :=
    .fixed (show Pack.fixedSizes.lookup Pack.nil = some 0 from rfl) rfl
  exact ⟨_, by simp only [raw, Option.getD_none, hnil.readRaw, Except.map]; rfl, rfl⟩

theorem bytes_returns {bs : Sequence UInt8} (h : bs.items.length < 2 ^ 32) :
    bytes.Returns bs bs := by
  intro s
  cases bs with
  | none => exact ⟨.leaf .absent, rfl, rfl⟩
  | some bs =>
    refine ⟨.leaf (.list (bs.map fun b => .number b.toNat)), ?_, ?_⟩
    · have hr := Pack.readBytes_writeBytes h s
      simp only [bytes, Sequence.items, Option.getD_some] at hr ⊢
      rw [hr]
      rfl
    · have hback : ∀ b : UInt8, word8.ofView (.number b.toNat) = b := fun b => UInt8.ofNat_toNat
      simp [Draft.datum, bytes, hback, Function.comp_def]

end Codec

end MacroRelay
