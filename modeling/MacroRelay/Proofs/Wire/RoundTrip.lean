import MacroRelay.Proofs.Wire.Pack
import MacroRelay.Wire.Codec

/-!
# Messages are read back

`Codec.Returns` says what becomes of a value that is written and read again, whatever follows
it on the wire. Most values come back as they were; a record comes back field by field, and
what it left out comes back as nothing. Reading starts from a blank draft here: what happens
to entries that occur twice is not the concern of this module.
-/

namespace MacroRelay

theorem Text.lookup_filter (entries : List (Text × α)) (keeps : Text → Bool) (other : Text) :
    (entries.filter fun (n, _) => keeps n).lookup other =
      if keeps other then entries.lookup other else none := by
  induction entries with
  | nil => simp
  | cons entry entries ih =>
    obtain ⟨n, a⟩ := entry
    by_cases hn : other = n
    · subst hn
      cases hk : keeps other <;> simp [hk, ih]
    · cases hk : keeps n <;> simp [hk, List.lookup_cons, beq_false_of_ne hn, ih]

theorem Text.lookup_filter_ne {entries : List (Text × α)} {name other : Text} (h : other ≠ name) :
    (entries.filter fun (n, _) => n != name).lookup other = entries.lookup other := by
  rw [lookup_filter entries (· != name), if_pos (bne_iff_ne.mpr h)]

theorem Draft.lookup_fieldData (entries : List (Text × Draft)) (name : Text) :
    (fieldData entries).lookup name = (entries.lookup name).map Draft.datum := by
  induction entries with
  | nil => rfl
  | cons entry entries ih =>
    obtain ⟨n, d⟩ := entry
    simp only [fieldData, List.lookup_cons, ih]
    cases name == n <;> rfl

namespace Codec

/-- The written form of `v` is read as `w` from nothing, and whatever follows it is left. -/
def Returns (c : Codec α) (v w : α) : Prop :=
  ∀ s, ∃ d, c.read .blank (c.write v ++ s) = .ok (d, s) ∧ c.ofView d.datum = w

theorem Returns.readValue {c : Codec α} (h : c.Returns v w) (s : Text) :
    c.readValue (c.write v ++ s) = .ok (w, s) := by
  obtain ⟨d, hr, hv⟩ := h s
  simp [Codec.readValue, hr, hv, Except.map]

theorem Returns.decode {c : Codec α} (h : c.Returns v w) : c.decode? (c.write v) = some w := by
  have hr := h.readValue []
  rw [List.append_nil] at hr
  simp [Codec.decode?, hr, Except.toOption]

theorem Returns.append_inj {c : Codec α} (hv : c.Returns v v') (hw : c.Returns w w')
    (h : c.write v ++ a = c.write w ++ b) : v' = w' ∧ a = b := by
  have hr := hv.readValue a
  rw [h, hw.readValue b] at hr
  simp only [Except.ok.injEq, Prod.mk.injEq] at hr
  exact ⟨hr.1.symm, hr.2.symm⟩

theorem Returns.write_inj {c : Codec α} (hv : c.Returns v v) (hw : c.Returns w w)
    (h : c.write v = c.write w) : v = w :=
  (hv.append_inj hw (congrArg (· ++ []) h)).1

theorem text_returns {t : Text} (h : t.length < 2 ^ 32) : text.Returns t t := by
  intro s
  exact ⟨_, by simp [text, Pack.readText_writeText h, Except.map]; rfl, rfl⟩

theorem word_returns {code : UInt8} {size : Nat} {toNat : α → Nat} {ofNat : Nat → α} {a : α}
    (hc : Pack.integerHeads.lookup code = some (size, false)) (hn : toNat a < 256 ^ size)
    (ha : ofNat (toNat a) = a) : (word code size toNat ofNat).Returns a a := by
  intro s
  refine ⟨.leaf (.number (toNat a)), ?_, ha⟩
  show (Pack.readInteger (code :: Pack.bigEndian size (toNat a) ++ s)).map _ = _
  rw [Pack.readInteger_bigEndian hc hn]
  rfl

theorem word8_returns (n : UInt8) : word8.Returns n n :=
  word_returns rfl n.toNat_lt (UInt8.ofNat_toNat)

theorem word16_returns (n : UInt16) : word16.Returns n n :=
  word_returns rfl n.toNat_lt (UInt16.ofNat_toNat)

theorem word32_returns (n : UInt32) : word32.Returns n n :=
  word_returns rfl n.toNat_lt (UInt32.ofNat_toNat)

theorem word64_returns (n : UInt64) : word64.Returns n n :=
  word_returns rfl n.toNat_lt (UInt64.ofNat_toNat)

-- ---------------------------------------------------------------------------
-- Lists
-- ---------------------------------------------------------------------------

theorem readAll_written {c : Codec α} {f : α → α} {xs : List α} (h : ∀ x ∈ xs, c.Returns x (f x))
    (done : List Draft) (s : Text) :
    ∃ ds, c.readAll xs.length [] done (xs.flatMap c.write ++ s) =
        .ok (.list (done.reverse ++ ds) [], s) ∧
      ds.map (fun d => c.ofView d.datum) = xs.map f := by
  induction xs generalizing done with
  | nil => exact ⟨[], by simp [readAll], rfl⟩
  | cons x xs ih =>
    obtain ⟨d, hr, hv⟩ := h x List.mem_cons_self (xs.flatMap c.write ++ s)
    obtain ⟨ds, hds, hm⟩ := ih (fun y hy => h y (List.mem_cons_of_mem _ hy)) (d :: done)
    refine ⟨d :: ds, ?_, by simp [hv, hm]⟩
    simp [readAll, List.flatMap_cons, hr, hds]

theorem datums_eq_map (ds : List Draft) : Draft.datums ds = ds.map Draft.datum := by
  induction ds with
  | nil => rfl
  | cons d ds ih => simp [Draft.datums, ih]

theorem writeAll_read {c : Codec α} {f : α → α} {xs : List α} (hlen : xs.length < 2 ^ 32)
    (h : ∀ x ∈ xs, c.Returns x (f x)) (s : Text) :
    ∃ ds, Pack.readCount .array (c.writeAll (some xs) ++ s) =
        .ok (some xs.length, xs.flatMap c.write ++ s) ∧
      c.readAll xs.length [] [] (xs.flatMap c.write ++ s) = .ok (.list ds [], s) ∧
      (Draft.datums ds).map c.ofView = xs.map f := by
  obtain ⟨ds, hr, hm⟩ := readAll_written h [] s
  refine ⟨ds, ?_, by simpa using hr, ?_⟩
  · rw [writeAll, List.append_assoc, Pack.readCount_write Pack.Family.array_sound hlen]
  · rw [datums_eq_map, List.map_map, ← hm]
    rfl

theorem list_returns {c : Codec α} {f : α → α} {xs : List α} (hlen : xs.length < 2 ^ 32)
    (h : ∀ x ∈ xs, c.Returns x (f x)) : (list c).Returns (some xs) (some (xs.map f)) := by
  intro s
  obtain ⟨ds, hc, hr, hm⟩ := writeAll_read hlen h s
  refine ⟨.list ds [], ?_, congrArg some hm⟩
  simp only [list, hc]
  exact hr

theorem list_returns_none (c : Codec α) : (list c).Returns none none :=
  fun _ => ⟨.blank, rfl, rfl⟩

theorem list_returns_self {c : Codec α} {xs : Sequence α} (hlen : xs.items.length < 2 ^ 32)
    (h : ∀ x ∈ xs.items, c.Returns x x) : (list c).Returns xs xs := by
  cases xs with
  | none => exact list_returns_none c
  | some xs =>
    have hr := list_returns (f := id) hlen h
    rwa [List.map_id] at hr

theorem texts_returns {xs : Sequence Text} (hlen : xs.items.length < 2 ^ 32)
    (h : ∀ t ∈ xs.items, t.length < 2 ^ 32) : texts.Returns xs xs := by
  cases xs with
  | none => exact fun s => ⟨.blank, rfl, rfl⟩
  | some xs =>
    intro s
    replace hlen : xs.length < 2 ^ 32 := hlen
    replace h : ∀ t ∈ xs, text.Returns t t := fun t ht => text_returns (h t ht)
    obtain ⟨ds, hc, hr, hm⟩ := writeAll_read (f := id) hlen h s
    rw [List.map_id] at hm
    refine ⟨.list ds [], ?_, congrArg some hm⟩
    simp only [texts, list, hc]
    exact hr

end Codec

-- ---------------------------------------------------------------------------
-- Records
-- ---------------------------------------------------------------------------

namespace Field

/-- Reading back the fields that `v` has written makes `b` of `a`. -/
inductive Carry (v : σ) : List (Field σ) → σ → σ → Prop
  | nil {a} : Carry v [] a a
  | omitted {f rest a b} : f.isOmitted v = true → Carry v rest a b → Carry v (f :: rest) a b
  | written {f rest a a' b} : f.isOmitted v = false →
      (∀ s, ∃ d, f.read .blank (f.write v ++ s) = .ok (d, s) ∧ f.adopt a d.datum = a') →
      Carry v rest a' b → Carry v (f :: rest) a b

theorem Carry.of {c : Codec α} {get : σ → α} {set : σ → α → σ} (h : c.Returns (get v) w)
    (hr : Carry v rest (set a w) b) : Carry v (Field.of label c get set :: rest) a b := by
  refine .written rfl (fun s => ?_) hr
  obtain ⟨d, hd, hw⟩ := h s
  exact ⟨d, hd, congrArg (set a) hw⟩

theorem Carry.unlessZero {c : Codec α} {get : σ → α} {set : σ → α → σ}
    (h : c.isZero (get v) = false → c.Returns (get v) w)
    (hr : Carry v rest (if c.isZero (get v) then a else set a w) b) :
    Carry v (Field.unlessZero label c get set :: rest) a b := by
  cases hz : c.isZero (get v) with
  | true =>
    rw [hz] at hr
    exact .omitted hz hr
  | false =>
    rw [hz] at hr
    refine .written hz (fun s => ?_) hr
    obtain ⟨d, hd, hw⟩ := h hz s
    exact ⟨d, hd, congrArg (set a) hw⟩

theorem Carry.unlessZero_self {c : Codec α} {get : σ → α} {set : σ → α → σ}
    (h : c.Returns (get v) (get v)) (hz : c.isZero (get v) = true → set a (get v) = a)
    (hr : Carry v rest (set a (get v)) b) :
    Carry v (Field.unlessZero label c get set :: rest) a b := by
  refine .unlessZero (fun _ => h) ?_
  split
  · rename_i h0
    rwa [hz h0] at hr
  · exact hr

/-- Gives a field what was read for it, if anything was. -/
def adoptFrom (entries : List (Text × Datum)) (s : σ) (f : Field σ) : σ :=
  match entries.lookup f.name with
  | some d => f.adopt s d
  | none => s

theorem find_name {fields : List (Field σ)} (hn : (fields.map (·.name)).Nodup) {f : Field σ}
    (hf : f ∈ fields) : fields.find? (·.name == f.name) = some f := by
  induction fields with
  | nil => cases hf
  | cons g fields ih =>
    obtain ⟨hg, hn⟩ := List.nodup_cons.mp hn
    rcases List.mem_cons.mp hf with rfl | hf
    · simp
    · have hne : g.name ≠ f.name := fun h => hg (List.mem_map.mpr ⟨f, hf, h.symm⟩)
      simp [hne, ih hn hf]

theorem field_record_none {es : List (Text × Draft)} {n : Text} (h : es.lookup n = none) :
    Draft.field (.record es) n = .blank := by
  simp [Draft.field, Draft.entries, h]

/-- The entries of the fields still to come are read onto entries of other names, and leave
those as they are. -/
theorem readEntries_written {fields rest : List (Field σ)} {v a b : σ}
    (hfields : (fields.map (·.name)).Nodup) (hshort : ∀ f ∈ fields, f.name.length < 2 ^ 32)
    (hsub : rest.Sublist fields) (hc : Carry v rest a b) (es : List (Text × Draft))
    (hes : ∀ f ∈ rest, es.lookup f.name = none) (s : Text) :
    ∃ es', readEntries fields (rest.filter fun f => !f.isOmitted v).length (.record es)
        ((rest.filter fun f => !f.isOmitted v).flatMap
          (fun f => Pack.writeText f.name ++ f.write v) ++ s) = .ok (.record es', s) ∧
      (∀ name, name ∉ rest.map (·.name) → es'.lookup name = es.lookup name) ∧
      rest.foldl (adoptFrom (Draft.fieldData es')) a = b := by
  induction hc generalizing es with
  | nil => exact ⟨es, by simp [readEntries], fun _ _ => rfl, rfl⟩
  | @omitted f rest a b ho hc ih =>
    obtain ⟨es', hr, hkeep, hfold⟩ := ih ((List.sublist_cons_self _ _).trans hsub) es
      (fun g hg => hes g (List.mem_cons_of_mem _ hg))
    have hf : f.name ∉ rest.map (·.name) :=
      (List.nodup_cons.mp ((hsub.map _).nodup hfields)).1
    refine ⟨es', by simpa [ho] using hr, ?_, ?_⟩
    · intro name hname
      exact hkeep name fun h => hname (List.mem_cons_of_mem _ h)
    · have hnone : (Draft.fieldData es').lookup f.name = none := by
        rw [Draft.lookup_fieldData, hkeep _ hf, hes f List.mem_cons_self]
        rfl
      simpa [adoptFrom, hnone] using hfold
  | @written f rest a a' b ho hread hc ih =>
    have hmem : f ∈ fields := hsub.subset List.mem_cons_self
    have hf : f.name ∉ rest.map (·.name) :=
      (List.nodup_cons.mp ((hsub.map _).nodup hfields)).1
    obtain ⟨d, hd, hadopt⟩ := hread ((rest.filter fun f => !f.isOmitted v).flatMap
      (fun f => Pack.writeText f.name ++ f.write v) ++ s)
    have hes' : ∀ g ∈ rest,
        ((Draft.record es).withField f.name d).entries.lookup g.name = none := by
      intro g hg
      have hne : g.name ≠ f.name := fun h => hf (h ▸ List.mem_map.mpr ⟨g, hg, rfl⟩)
      simp [Draft.withField, Draft.entries, List.lookup_cons, beq_false_of_ne hne,
        Text.lookup_filter_ne hne, hes g (List.mem_cons_of_mem _ hg)]
    obtain ⟨es', hr, hkeep, hfold⟩ := ih ((List.sublist_cons_self _ _).trans hsub) _ hes'
    simp only [Draft.withField, Draft.entries] at hr hkeep
    refine ⟨es', ?_, ?_, ?_⟩
    · have hblank := field_record_none (hes f List.mem_cons_self)
      simp [ho, readEntries, List.flatMap_cons, Pack.readText_writeText (hshort f hmem),
        find_name hfields hmem, readInto, hblank, hd, Except.map, Draft.withField, Draft.entries,
        hr]
    · intro name hname
      have hne : name ≠ f.name := fun h => hname (h ▸ List.mem_cons_self)
      rw [hkeep name fun h => hname (List.mem_cons_of_mem _ h), List.lookup_cons,
        beq_false_of_ne hne, Text.lookup_filter_ne hne]
    · have hsome : (Draft.fieldData es').lookup f.name = some d.datum := by
        rw [Draft.lookup_fieldData, hkeep _ hf, List.lookup_cons_self]
        rfl
      simpa [adoptFrom, hsome, hadopt] using hfold

end Field

namespace Codec

/-- Names that tell the fields of a record apart and are short enough to be written. -/
def FieldNames (fields : List (Field σ)) : Prop :=
  (fields.map (·.name)).Nodup ∧ (∀ name ∈ fields.map (·.name), name.length < 2 ^ 32) ∧
    fields.length < 2 ^ 32

theorem record_read_written {zero v w : σ} {fields : List (Field σ)} (hn : FieldNames fields)
    (hc : Field.Carry v fields zero w) (s : Text) :
    ∃ es, (record zero fields).read .blank ((record zero fields).write v ++ s) =
        .ok (.record es, s) ∧ (record zero fields).ofView (Draft.record es).datum = w := by
  obtain ⟨hnodup, hshort, hlen⟩ := hn
  obtain ⟨es, hr, -, hfold⟩ := Field.readEntries_written hnodup
    (fun f hf => hshort _ (List.mem_map.mpr ⟨f, hf, rfl⟩)) (List.Sublist.refl _) hc []
    (fun _ _ => rfl) s
  have hkept : (fields.filter fun f => !f.isOmitted v).length < 2 ^ 32 :=
    Nat.lt_of_le_of_lt (List.length_filter_le _ _) hlen
  refine ⟨es, ?_, hfold⟩
  simp only [record, List.append_assoc, Pack.readCount_write Pack.Family.map_sound hkept]
  exact hr

theorem record_returns {zero v w : σ} {fields : List (Field σ)} (hn : FieldNames fields)
    (hc : Field.Carry v fields zero w) : (record zero fields).Returns v w := by
  intro s
  obtain ⟨es, hr, hw⟩ := record_read_written hn hc s
  exact ⟨.record es, hr, hw⟩

/-- A record is never taken for nil, nor is what was read of it for nothing. -/
theorem optional_record_returns {zero v w : σ} {fields : List (Field σ)} (hn : FieldNames fields)
    (hc : Field.Carry v fields zero w) :
    (optional (record zero fields)).Returns (some v) (some w) := by
  intro s
  obtain ⟨es, hr, hw⟩ := record_read_written hn hc s
  obtain ⟨code, rest, hhead, hnil⟩ := Pack.Family.write_head_ne_nil Pack.Family.map_sound
    (fields.filter fun f => !f.isOmitted v).length
  refine ⟨.record es, ?_, congrArg some hw⟩
  have hcons : ∃ rest', (record zero fields).write v ++ s = code :: rest' := by
    simp [record, hhead]
  obtain ⟨rest', hcons⟩ := hcons
  show (optional (record zero fields)).read .blank ((record zero fields).write v ++ s) = _
  rw [hcons] at hr ⊢
  simp only [optional, if_neg hnil]
  exact hr

theorem optional_returns_none (c : Codec α) : (optional c).Returns none none :=
  fun _ => ⟨.blank, rfl, rfl⟩

end Codec

end MacroRelay
