import MacroRelay.Client.Exchange
import MacroRelay.Proofs.Lists
import MacroRelay.Proofs.Wire.Sizes
import MacroRelay.Proofs.Wire.Values

/-!
# Messages end where they end

Whatever is sent is read back from the front of what follows it, and not a byte more is taken.
So messages can be written one behind the other and are read one by one. A message comes back as
it was, but for what was never there: an empty list of mappings, and a part whose written form
is nil.
-/

namespace MacroRelay

@[simp] theorem Datum.small_text : (Datum.text t).Small ↔ t.length < 2 ^ 32 := by
  constructor
  · rintro ⟨⟩
    assumption
  · exact .text

@[simp] theorem Datum.small_list :
    (Datum.list ds).Small ↔ ds.length < 2 ^ 32 ∧ ∀ d ∈ ds, d.Small := by
  constructor
  · rintro ⟨⟩
    exact ⟨‹_›, ‹_›⟩
  · rintro ⟨hlen, hds⟩
    exact .list hlen hds

@[simp] theorem Datum.small_record : (Datum.record es).Small ↔ ∀ e ∈ es, e.2.Small := by
  constructor
  · rintro ⟨⟩
    assumption
  · exact .record

namespace Codec

/-- Every value whose texts and lists are short enough comes back as it was. -/
def Faithful (c : Codec α) : Prop :=
  ∀ ⦃v⦄, (c.view v).Small → c.Returns v v

theorem text_faithful : text.Faithful :=
  fun _ h => text_returns (Datum.small_text.mp h)

theorem bytes_faithful : bytes.Faithful := by
  intro bs h
  have hlen := (Datum.small_list.mp h).1
  rw [List.length_map] at hlen
  exact bytes_returns hlen

theorem small_items {c : Codec α} {xs : Sequence α} (h : (c.list.view xs).Small) :
    xs.items.length < 2 ^ 32 ∧ ∀ x ∈ xs.items, (c.view x).Small := by
  obtain ⟨hlen, hds⟩ := Datum.small_list.mp h
  rw [List.length_map] at hlen
  exact ⟨hlen, fun x hx => hds _ (List.mem_map_of_mem hx)⟩

theorem Faithful.list {c : Codec α} (hc : c.Faithful) : c.list.Faithful := by
  intro xs h
  obtain ⟨hlen, hxs⟩ := small_items h
  exact list_returns_self hlen fun x hx => hc (hxs x hx)

theorem texts_faithful : texts.Faithful := by
  intro ts h
  obtain ⟨hlen, hts⟩ := small_items (c := text) h
  exact texts_returns hlen fun t ht => Datum.small_text.mp (hts t ht)

theorem small_fields {zero v : σ} {fields : List (Field σ)}
    (h : ((record zero fields).view v).Small) : ∀ f ∈ fields, (f.view v).Small :=
  fun f hf => Datum.small_record.mp h (f.name, f.view v) (List.mem_map.mpr ⟨f, hf, rfl⟩)

theorem record_faithful {zero : σ} {fields : List (Field σ)} (hn : FieldNames fields)
    (h : ∀ v, (∀ f ∈ fields, (f.view v).Small) → Field.Carry v fields zero v) :
    (record zero fields).Faithful :=
  fun v hv => record_returns hn (h v (small_fields hv))

theorem record_write_ne_nil {zero v : σ} {fields : List (Field σ)} :
    (record zero fields).write v ≠ [] := by
  obtain ⟨code, rest, hw, -⟩ := Pack.Family.write_head_ne_nil Pack.Family.map_sound
    (fields.filter fun f => !f.isOmitted v).length
  simp [record, hw]

end Codec

open Codec MacroRelay.Field

theorem Scope.faithful : Scope.codec.Faithful := by
  refine record_faithful (by decide) fun s h => ?_
  simp only [List.forall_mem_cons] at h
  exact .of (text_faithful h.1) .nil

theorem Span.faithful : Span.codec.Faithful :=
  fun p _ => p.codec_returns

namespace Gen1

theorem Metadata.faithful : Metadata.codec.Faithful := by
  refine record_faithful (by decide) fun m h => ?_
  simp only [List.forall_mem_cons] at h
  obtain ⟨hpath, hfile, -⟩ := h
  exact .text_unlessZero (Datum.small_text.mp hpath) rfl
    (.text_unlessZero (Datum.small_text.mp hfile) rfl .nil)

theorem Stream.faithful : Stream.codec.Faithful := by
  refine record_faithful (by decide) fun s h => ?_
  simp only [List.forall_mem_cons] at h
  obtain ⟨hvalue, hmetadata, -⟩ := h
  exact .of (text_faithful hvalue) (.of (Metadata.faithful hmetadata) .nil)

theorem Diagnostic.faithful : Diagnostic.codec.Faithful := by
  refine record_faithful (by decide) fun d h => ?_
  simp only [List.forall_mem_cons] at h
  exact .of (text_faithful h.1) (.of (word8_returns d.severity) .nil)

theorem AttributeRequest.faithful : AttributeRequest.codec.Faithful := by
  refine record_faithful (by decide) fun r h => ?_
  simp only [List.forall_mem_cons] at h
  obtain ⟨hcontext, hattr, hargs, hitem, -⟩ := h
  exact .of (Scope.faithful hcontext) (.of (text_faithful hattr) (.of (Stream.faithful hargs)
    (.of (Stream.faithful hitem) .nil)))

theorem DeriveRequest.faithful : DeriveRequest.codec.Faithful := by
  refine record_faithful (by decide) fun r h => ?_
  simp only [List.forall_mem_cons] at h
  obtain ⟨hcontext, hderives, hitem, -⟩ := h
  exact .of (Scope.faithful hcontext) (.of (texts_faithful hderives)
    (.of (Stream.faithful hitem) .nil))

theorem InlineRequest.faithful : InlineRequest.codec.Faithful := by
  refine record_faithful (by decide) fun r h => ?_
  simp only [List.forall_mem_cons] at h
  obtain ⟨hcontext, hname, hargs, -⟩ := h
  exact .of (Scope.faithful hcontext) (.of (text_faithful hname) (.of (Stream.faithful hargs) .nil))

theorem Result.faithful : Result.codec.Faithful := by
  refine record_faithful (by decide) fun r h => ?_
  simp only [List.forall_mem_cons] at h
  obtain ⟨hstream, hdiagnostics, -⟩ := h
  exact .of (Stream.faithful hstream) (.of (Diagnostic.faithful.list hdiagnostics) .nil)

end Gen1

namespace Gen2

theorem Metadata.faithful : Metadata.codec.Faithful := by
  intro m h
  have hfields := small_fields h
  simp only [List.forall_mem_cons] at hfields
  obtain ⟨hpath, hfile, hedition, -⟩ := hfields
  exact Metadata.codec_returns (Datum.small_text.mp hpath) (Datum.small_text.mp hfile)
    (Datum.small_text.mp hedition)

theorem StreamToken.faithful : StreamToken.codec.Faithful := by
  have hcontent : StreamToken.contentCodec.Faithful := by
    refine record_faithful (by decide) fun t h => ?_
    simp only [List.forall_mem_cons] at h
    exact .of (text_faithful h.1) (.of (Span.faithful h.2.1) .nil)
  refine record_faithful (by decide) fun t h => ?_
  simp only [List.forall_mem_cons] at h
  exact .of (hcontent h.1) .nil

theorem Stream.faithful : Stream.codec.Faithful := by
  refine record_faithful (by decide) fun s h => ?_
  simp only [List.forall_mem_cons] at h
  obtain ⟨htokens, hmetadata, -⟩ := h
  exact .of (StreamToken.faithful.list htokens) (.of (Metadata.faithful hmetadata) .nil)

theorem Diagnostic.faithful : Diagnostic.codec.Faithful := by
  intro d h
  have hfields := small_fields h
  simp only [List.forall_mem_cons] at hfields
  exact Diagnostic.codec_returns (Datum.small_text.mp hfields.1)

theorem WireOrigin.faithful : WireOrigin.codec.Faithful :=
  fun o _ => o.codec_returns

theorem WireMapping.faithful : WireMapping.codec.Faithful :=
  fun m _ => m.codec_returns

theorem AttributeRequest.faithful : AttributeRequest.codec.Faithful := by
  refine record_faithful (by decide) fun r h => ?_
  simp only [List.forall_mem_cons] at h
  obtain ⟨hcontext, hattr, hargs, hitem, hsite, -⟩ := h
  exact .of (Scope.faithful hcontext) (.of (text_faithful hattr) (.of (Stream.faithful hargs)
    (.of (Stream.faithful hitem) (.of (Span.faithful hsite) .nil))))

theorem DeriveRequest.faithful : DeriveRequest.codec.Faithful := by
  refine record_faithful (by decide) fun r h => ?_
  simp only [List.forall_mem_cons] at h
  obtain ⟨hcontext, hderives, hitem, hsite, -⟩ := h
  exact .of (Scope.faithful hcontext) (.of (texts_faithful hderives)
    (.of (Stream.faithful hitem) (.of (Span.faithful hsite) .nil)))

theorem InlineRequest.faithful : InlineRequest.codec.Faithful := by
  refine record_faithful (by decide) fun r h => ?_
  simp only [List.forall_mem_cons] at h
  obtain ⟨hcontext, hname, hargs, hsite, -⟩ := h
  exact .of (Scope.faithful hcontext) (.of (text_faithful hname) (.of (Stream.faithful hargs)
    (.of (Span.faithful hsite) .nil)))

theorem Result.returns {r : Result} (h : (Result.codec.view r).Small) :
    Result.codec.Returns r r.returned := by
  have hfields := small_fields h
  simp only [List.forall_mem_cons] at hfields
  obtain ⟨hstream, hdiagnostics, hmappings, -⟩ := hfields
  refine record_returns (by decide) (.of (Stream.faithful hstream)
    (.of (Diagnostic.faithful.list hdiagnostics)
      (.unlessZero (fun _ => WireMapping.faithful.list hmappings) ?_)))
  show Carry r [] _ r.returned
  unfold returned
  cases hz : r.mappings.items.isEmpty with
  | true => simp only [Codec.list, hz]; exact .nil
  | false => simp only [Codec.list, hz]; exact .nil

theorem HandshakeRequest.faithful : HandshakeRequest.codec.Faithful := by
  refine record_faithful (by decide) fun r h => ?_
  simp only [List.forall_mem_cons] at h
  exact .of (text_faithful h.1) (.of (bytes_faithful h.2.1) .nil)

theorem HandshakeResult.faithful : HandshakeResult.codec.Faithful := by
  refine record_faithful (by decide) fun r h => ?_
  simp only [List.forall_mem_cons] at h
  exact .of (text_faithful h.1) (.of (text_faithful h.2.1) .nil)

theorem CatalogueRequest.faithful : CatalogueRequest.codec.Faithful :=
  record_faithful (by decide) fun _ _ => .nil

theorem PackageEntry.faithful : PackageEntry.codec.Faithful := by
  refine record_faithful (by decide) fun e h => ?_
  simp only [List.forall_mem_cons] at h
  obtain ⟨hpackage, hattributes, hderives, hmacros, hexecutables, -⟩ := h
  exact .of (text_faithful hpackage) (.of (texts_faithful hattributes)
    (.of (texts_faithful hderives) (.of (texts_faithful hmacros)
      (.of (texts_faithful hexecutables) (.of (word8_returns e.protocol) .nil)))))

theorem CatalogueResult.faithful : CatalogueResult.codec.Faithful := by
  refine record_faithful (by decide) fun r h => ?_
  simp only [List.forall_mem_cons] at h
  exact .of (PackageEntry.faithful.list h.1) .nil

end Gen2

-- ---------------------------------------------------------------------------
-- Calls
-- ---------------------------------------------------------------------------

/-- What comes back of a request: parameters that are nil are absent. -/
def Request.returned (r : Request) : Request :=
  { r with params := r.params.filter (· != [Pack.nil]) }

/-- What comes back of a response: a result that is nil or empty is absent. -/
def Response.returned (r : Response) : Response :=
  { r with result := r.result.filter fun t => !t.isEmpty && t != [Pack.nil] }

def Request.IsWhole (r : Request) : Prop :=
  ∀ t, r.params = some t → Pack.IsValue t

def Response.IsWhole (r : Response) : Prop :=
  ∀ t, r.result = some t → t = [] ∨ Pack.IsValue t

theorem Response.small {r : Response} (h : r.error.length < 2 ^ 32) :
    (Response.codec.view r).Small := by
  refine .record ?_
  simp only [List.map_cons, List.map_nil, List.forall_mem_cons]
  exact ⟨.number, .raw, .text h, by simp⟩

theorem Request.returns {r : Request} (h : (Request.codec.view r).Small) (hr : r.IsWhole) :
    Request.codec.Returns r r.returned := by
  have hfields := small_fields h
  simp only [List.forall_mem_cons] at hfields
  have hparams : raw.Returns r.params (r.params.filter (· != [Pack.nil])) := by
    cases hp : r.params with
    | none => exact raw_returns_none
    | some t => simpa [Option.filter, ite_not] using raw_returns (hr t hp)
  exact record_returns (by decide) (.of (word64_returns r.id) (.of (text_faithful hfields.2.1)
    (.of hparams .nil)))

theorem Response.returns {r : Response} (h : (Response.codec.view r).Small) (hr : r.IsWhole) :
    Response.codec.Returns r r.returned := by
  have hfields := small_fields h
  simp only [List.forall_mem_cons] at hfields
  have hzero : raw.isZero r.result = true → r.returned.result = none := by
    cases hres : r.result with
    | none => simp [Response.returned, hres]
    | some t =>
      intro hz
      simp only [raw, Option.getD_some] at hz
      simp [Response.returned, hres, List.isEmpty_iff.mp hz]
  have hresult : raw.isZero r.result = false → raw.Returns r.result r.returned.result := by
    cases hres : r.result with
    | none => simp [raw]
    | some t =>
      intro hz
      simp only [raw, Option.getD_some] at hz
      rcases hr t hres with rfl | hv
      · cases hz
      · simpa [Response.returned, hres, hz, Option.filter, ite_not] using raw_returns hv
  refine record_returns (by decide) (.of (word64_returns r.id) (.unlessZero hresult ?_))
  have hdraft : (if raw.isZero r.result then ({ id := r.id } : Response)
      else { id := r.id, result := r.returned.result }) =
        { id := r.id, result := r.returned.result } := by
    split
    · rename_i hz
      rw [hzero hz]
    · rfl
  show Carry r _ (if raw.isZero r.result then ({ id := r.id } : Response)
      else { id := r.id, result := r.returned.result }) r.returned
  rw [hdraft]
  exact .text_unlessZero (Datum.small_text.mp hfields.2.2.1) rfl .nil

-- ---------------------------------------------------------------------------
-- All that is sent
-- ---------------------------------------------------------------------------

/-- Everything with a written form of its own, and the parts it is made of. -/
inductive Packet where
  | scope
  | span
  | metadata (g : Generation)
  | stream (g : Generation)
  | diagnostic (g : Generation)
  | attributeRequest (g : Generation)
  | deriveRequest (g : Generation)
  | inlineRequest (g : Generation)
  | result (g : Generation)
  | token
  | origin
  | mapping
  | handshakeRequest
  | handshakeResult
  | catalogueRequest
  | package
  | catalogueResult
  | request
  | response
deriving DecidableEq

namespace Packet

abbrev Value : Packet → Type
  | .scope => Scope
  | .span => Span
  | .metadata .first => Gen1.Metadata
  | .metadata .second => Gen2.Metadata
  | .stream .first => Gen1.Stream
  | .stream .second => Gen2.Stream
  | .diagnostic .first => Gen1.Diagnostic
  | .diagnostic .second => Gen2.Diagnostic
  | .attributeRequest .first => Gen1.AttributeRequest
  | .attributeRequest .second => Gen2.AttributeRequest
  | .deriveRequest .first => Gen1.DeriveRequest
  | .deriveRequest .second => Gen2.DeriveRequest
  | .inlineRequest .first => Gen1.InlineRequest
  | .inlineRequest .second => Gen2.InlineRequest
  | .result .first => Gen1.Result
  | .result .second => Gen2.Result
  | .token => Gen2.StreamToken
  | .origin => Gen2.WireOrigin
  | .mapping => Gen2.WireMapping
  | .handshakeRequest => Gen2.HandshakeRequest
  | .handshakeResult => Gen2.HandshakeResult
  | .catalogueRequest => Gen2.CatalogueRequest
  | .package => Gen2.PackageEntry
  | .catalogueResult => Gen2.CatalogueResult
  | .request => Request
  | .response => Response

def codec : (p : Packet) → Codec p.Value
  | .scope => Scope.codec
  | .span => Span.codec
  | .metadata .first => Gen1.Metadata.codec
  | .metadata .second => Gen2.Metadata.codec
  | .stream .first => Gen1.Stream.codec
  | .stream .second => Gen2.Stream.codec
  | .diagnostic .first => Gen1.Diagnostic.codec
  | .diagnostic .second => Gen2.Diagnostic.codec
  | .attributeRequest .first => Gen1.AttributeRequest.codec
  | .attributeRequest .second => Gen2.AttributeRequest.codec
  | .deriveRequest .first => Gen1.DeriveRequest.codec
  | .deriveRequest .second => Gen2.DeriveRequest.codec
  | .inlineRequest .first => Gen1.InlineRequest.codec
  | .inlineRequest .second => Gen2.InlineRequest.codec
  | .result .first => Gen1.Result.codec
  | .result .second => Gen2.Result.codec
  | .token => Gen2.StreamToken.codec
  | .origin => Gen2.WireOrigin.codec
  | .mapping => Gen2.WireMapping.codec
  | .handshakeRequest => Gen2.HandshakeRequest.codec
  | .handshakeResult => Gen2.HandshakeResult.codec
  | .catalogueRequest => Gen2.CatalogueRequest.codec
  | .package => Gen2.PackageEntry.codec
  | .catalogueResult => Gen2.CatalogueResult.codec
  | .request => Request.codec
  | .response => Response.codec

/-- Parts that travel in their written form are whole values. -/
def IsWhole : (p : Packet) → p.Value → Prop
  | .request, r => Request.IsWhole r
  | .response, r => Response.IsWhole r
  | _, _ => True

/-- Every text and every list is short enough, and every part is whole. -/
structure Fits (p : Packet) (v : p.Value) : Prop where
  small : (p.codec.view v).Small
  whole : p.IsWhole v

def returned : (p : Packet) → p.Value → p.Value
  | .result .second, r => Gen2.Result.returned r
  | .request, r => Request.returned r
  | .response, r => Response.returned r
  | _, v => v

theorem codec_returns {p : Packet} {v : p.Value} (h : p.Fits v) :
    p.codec.Returns v (p.returned v) := by
  obtain ⟨hsmall, hwhole⟩ := h
  cases p with
  | scope => exact Scope.faithful hsmall
  | span => exact Span.faithful hsmall
  | metadata g =>
    cases g with
    | first => exact Gen1.Metadata.faithful hsmall
    | second => exact Gen2.Metadata.faithful hsmall
  | stream g =>
    cases g with
    | first => exact Gen1.Stream.faithful hsmall
    | second => exact Gen2.Stream.faithful hsmall
  | diagnostic g =>
    cases g with
    | first => exact Gen1.Diagnostic.faithful hsmall
    | second => exact Gen2.Diagnostic.faithful hsmall
  | attributeRequest g =>
    cases g with
    | first => exact Gen1.AttributeRequest.faithful hsmall
    | second => exact Gen2.AttributeRequest.faithful hsmall
  | deriveRequest g =>
    cases g with
    | first => exact Gen1.DeriveRequest.faithful hsmall
    | second => exact Gen2.DeriveRequest.faithful hsmall
  | inlineRequest g =>
    cases g with
    | first => exact Gen1.InlineRequest.faithful hsmall
    | second => exact Gen2.InlineRequest.faithful hsmall
  | result g =>
    cases g with
    | first => exact Gen1.Result.faithful hsmall
    | second => exact Gen2.Result.returns hsmall
  | token => exact Gen2.StreamToken.faithful hsmall
  | origin => exact Gen2.WireOrigin.faithful hsmall
  | mapping => exact Gen2.WireMapping.faithful hsmall
  | handshakeRequest => exact Gen2.HandshakeRequest.faithful hsmall
  | handshakeResult => exact Gen2.HandshakeResult.faithful hsmall
  | catalogueRequest => exact Gen2.CatalogueRequest.faithful hsmall
  | package => exact Gen2.PackageEntry.faithful hsmall
  | catalogueResult => exact Gen2.CatalogueResult.faithful hsmall
  | request => exact Request.returns hsmall hwhole
  | response => exact Response.returns hsmall hwhole

theorem write_ne_nil {p : Packet} {v : p.Value} : p.codec.write v ≠ [] := by
  rcases p with _ | _ | g | g | g | g | g | g | g | _ | _ | _ | _ | _ | _ | _ | _ | _ | _ <;>
    first
    | exact record_write_ne_nil
    | cases g <;> exact record_write_ne_nil

end Packet

-- ---------------------------------------------------------------------------
-- One behind the other
-- ---------------------------------------------------------------------------

def Codec.drain (c : Codec α) : Nat → Text → Except Pack.Fault (List α)
  | _, [] => .ok []
  | 0, _ :: _ => .error .truncated
  | fuel + 1, t =>
    match c.readValue t with
    | .ok (v, rest) => (c.drain fuel rest).map (v :: ·)
    | .error fault => .error fault

def Codec.readMessages (c : Codec α) (t : Text) : Except Pack.Fault (List α) :=
  c.drain t.length t

theorem Codec.drain_written {c : Codec α} {f : α → α} {vs : List α} (hne : ∀ v, c.write v ≠ [])
    (h : ∀ v ∈ vs, c.Returns v (f v)) {fuel : Nat} (hfuel : vs.length ≤ fuel) :
    c.drain fuel (vs.flatMap c.write) = .ok (vs.map f) := by
  induction vs generalizing fuel with
  | nil => cases fuel <;> rfl
  | cons v vs ih =>
    cases fuel with
    | zero => cases hfuel
    | succ fuel =>
      have hread := (h v List.mem_cons_self).readValue (vs.flatMap c.write)
      have hrest := ih (fun w hw => h w (List.mem_cons_of_mem _ hw)) (Nat.le_of_succ_le_succ hfuel)
      obtain ⟨code, rest, hcons⟩ := List.exists_cons_of_ne_nil (hne v)
      rw [hcons, List.cons_append] at hread
      rw [List.flatMap_cons, hcons, List.cons_append, drain]
      · simp [hread, hrest, Except.map]
      · exact List.cons_ne_nil _ _

theorem Codec.readMessages_written {c : Codec α} {f : α → α} {vs : List α}
    (hne : ∀ v, c.write v ≠ []) (h : ∀ v ∈ vs, c.Returns v (f v)) :
    c.readMessages (vs.flatMap c.write) = .ok (vs.map f) := by
  exact drain_written hne h (length_le_flatMap fun v _ => hne v)

namespace Client

theorem perform_answer_incoming (c : Client) (r : Response) (t : Text) :
    ({ c with incoming := t } : Client).perform [.answer r] =
      { c.perform [.answer r] with incoming := t } := by
  simp only [perform, List.foldl_cons, List.foldl_nil, step, call?]
  cases c.calls.find? (·.id == r.id) with
  | none => rfl
  | some call => dsimp only; split <;> rfl

theorem perform_answer_cause (c : Client) (r : Response) :
    (c.perform [.answer r]).cause = c.cause := by
  simp only [perform, List.foldl_cons, List.foldl_nil, step]
  cases c.call? r.id with
  | none => rfl
  | some call => dsimp only; split <;> rfl

theorem digest_written {c : Client} (hc : c.cause = none) {rs : List Response}
    (h : ∀ r ∈ rs, Response.codec.Returns r r.returned) {fuel : Nat} (hfuel : rs.length ≤ fuel) :
    digest fuel { c with incoming := rs.flatMap Response.codec.write } =
      { c.perform (rs.map fun r => .answer r.returned) with incoming := [] } := by
  induction rs generalizing c fuel with
  | nil => cases fuel <;> simp [digest, perform]
  | cons r rs ih =>
    cases fuel with
    | zero => cases hfuel
    | succ fuel =>
      have hread := (h r List.mem_cons_self).readValue (rs.flatMap Response.codec.write)
      have hne : Response.codec.write r ++ rs.flatMap Response.codec.write ≠ [] :=
        List.append_ne_nil_of_left_ne_nil Codec.record_write_ne_nil _
      have hrest := ih (c := c.perform [.answer r.returned])
        ((perform_answer_cause c r.returned).trans hc)
        (fun r hr => h r (List.mem_cons_of_mem _ hr)) (Nat.le_of_succ_le_succ hfuel)
      rw [← perform_answer_incoming] at hrest
      rw [digest, List.flatMap_cons, if_neg (by simp [hc, hne])]
      simp only [hread]
      exact hrest

end Client

/-- Whatever is sent is read back from the front of what follows, which is left as it is. So
messages written one behind the other are read one by one with nothing left over, and that is
what the reader of a connection hears. -/
theorem Packet.delimited :
    (∀ (p : Packet) (v : p.Value), p.Fits v → ∀ s : Text,
      p.codec.readValue (p.codec.write v ++ s) = .ok (p.returned v, s)) ∧
    (∀ (p : Packet) (vs : List p.Value), (∀ v ∈ vs, p.Fits v) →
      p.codec.readMessages (vs.flatMap p.codec.write) = .ok (vs.map p.returned)) ∧
    ∀ (c : Client) (rs : List Response), c.cause = none → c.incoming = [] →
      (∀ r ∈ rs, Packet.response.Fits r) → c.receive (rs.flatMap Response.codec.write) =
        { c.perform (rs.map fun r => .answer r.returned) with incoming := [] } := by
  refine ⟨fun p v h s => (codec_returns h).readValue s, fun p vs h => ?_, ?_⟩
  · exact Codec.readMessages_written (fun _ => write_ne_nil) fun v hv => codec_returns (h v hv)
  · intro c rs hcause hincoming h
    have hlen : rs.length ≤ (rs.flatMap Response.codec.write).length :=
      length_le_flatMap fun _ _ => Codec.record_write_ne_nil
    rw [Client.receive, hincoming, List.nil_append]
    exact Client.digest_written hcause (fun r hr => codec_returns (p := .response) (h r hr)) hlen

/-- A failure, a list as a result, and a result that is nil, one behind the other. -/
def threeResponses : List Response :=
  [{ id := 2, error := "no" }, { id := 1, result := some ([0x92] ++ [[0x01], [0xA1, 0x78]].flatten) },
    { id := 3, result := some [0xC0] }]

theorem Packet.delimited_threeResponses :
    (∀ r ∈ threeResponses, Packet.response.Fits r) ∧
    Response.codec.readMessages (threeResponses.flatMap Response.codec.write) =
      .ok [{ id := 2, error := "no" }, { id := 1, result := some [0x92, 0x01, 0xA1, 0x78] },
        { id := 3, result := none }] ∧
    (({} : Client).receive (threeResponses.flatMap Response.codec.write)).incoming = [] := by
  have hlist : Pack.IsValue ([0x92] ++ [[0x01], [0xA1, 0x78]].flatten) := by
    refine .array (.small (by decide)) ?_
    simp only [List.forall_mem_cons]
    exact ⟨.atom (by decide), .text (t := [0x78]) (.small (by decide)), by simp⟩
  have hnil : Pack.IsValue [0xC0] := .fixed (show Pack.fixedSizes.lookup 0xC0 = some 0 from rfl) rfl
  have hfits : ∀ r ∈ threeResponses, Packet.response.Fits r := by
    simp only [threeResponses, List.forall_mem_cons]
    refine ⟨⟨Response.small (by decide), nofun⟩, ⟨Response.small (by decide), fun t h => ?_⟩,
      ⟨Response.small (by decide), fun t h => ?_⟩, by simp⟩
    · cases h
      exact .inr hlist
    · cases h
      exact .inr hnil
  refine ⟨hfits, Packet.delimited.2.1 .response threeResponses hfits, ?_⟩
  rw [Packet.delimited.2.2 {} threeResponses rfl rfl hfits]

end MacroRelay
