import MacroRelay.Proofs.Expansion.Params
import MacroRelay.Proofs.Session.Fleet
import MacroRelay.Session.Adapter

/-!
# Generations look the same

A macro is a function from what it is given to a text and remarks. Servers of both generations can
speak for it, each in its own messages. Plugins make the same of either answer, whatever the
sessions have asked and kept before.
-/

namespace MacroRelay

-- ---------------------------------------------------------------------------
-- Macros
-- ---------------------------------------------------------------------------

inductive Grade where
  | error
  | warning
deriving DecidableEq

namespace Grade

def level : Grade → UInt8
  | .error => Gen2.Diagnostic.errorLevel
  | .warning => Gen2.Diagnostic.warningLevel

def severity : Grade → Severity
  | .error => .error
  | .warning => .warning

theorem hostSeverity_level (g : Grade) : Gen2.Diagnostic.hostSeverity g.level = g.severity := by
  cases g <;> decide

end Grade

structure Remark where
  message : Text
  grade : Grade

structure MacroOutput where
  text : Text := []
  remarks : List Remark := []

abbrev Macro := MacroInput → MacroOutput

namespace Remark

def first (remark : Remark) : Gen1.Diagnostic :=
  ⟨remark.message, remark.grade.level⟩

def second (remark : Remark) : Gen2.Diagnostic :=
  ⟨remark.message, remark.grade.level, none⟩

def toHost (site : CallSite) (remark : Remark) : Diagnostic :=
  { severity := remark.grade.severity
    code := DiagnosticCode.ofMacro remark.grade.severity
    message := remark.message
    primary := site }

theorem upgrade_first (remark : Remark) : remark.first.upgrade = remark.second := by
  obtain ⟨message, grade⟩ := remark
  cases grade <;> rfl

theorem toHost_second (site : CallSite) (remark : Remark) :
    remark.second.toHost site = remark.toHost site := by
  simp [second, Gen2.Diagnostic.toHost, toHost, Grade.hostSeverity_level]

end Remark

-- ---------------------------------------------------------------------------
-- Answers
-- ---------------------------------------------------------------------------

structure Gen1.Result.Says (r : Gen1.Result) (o : MacroOutput) : Prop where
  text : r.stream.value = o.text
  diagnostics : r.diagnostics.items = o.remarks.map Remark.first

/-- However the text is split into tokens. -/
structure Gen2.Result.Says (r : Gen2.Result) (o : MacroOutput) : Prop where
  text : r.stream.text = o.text
  diagnostics : r.diagnostics.items = o.remarks.map Remark.second
  mappings : r.mappings.items = []

variable {o : MacroOutput}

theorem Gen2.Result.Says.alike {r r' : Gen2.Result} (h : r.Says o) (halike : r'.Alike r) :
    r'.Says o where
  text := by
    rw [← h.text, Stream.text, Stream.text, halike.tokens]
  diagnostics := halike.diagnostics.trans h.diagnostics
  mappings := halike.mappings.trans h.mappings

theorem Gen1.Stream.text_upgrade (s : Gen1.Stream) : s.upgrade.text = s.value := by
  unfold Gen1.Stream.upgrade Gen2.Stream.text
  by_cases h : s.value = [] <;> simp [h, Sequence.items]

theorem Gen1.Result.Says.upgrade {r : Gen1.Result} (h : r.Says o) : r.upgrade.Says o where
  text := (Gen1.Stream.text_upgrade r.stream).trans h.text
  diagnostics := by
    rw [Result.upgrade_items, h.diagnostics, List.map_map]
    exact List.map_congr_left fun remark _ => remark.upgrade_first
  mappings := rfl

/-- What was sent is read as an answer that says this. No result is an empty answer. -/
def MacroOutput.SaidIn (o : MacroOutput) : Generation → Option Text → Prop
  | .first, raw => ∃ r, raw.elim (some {}) Gen1.Result.codec.decode? = some r ∧ r.Says o
  | .second, raw => ∃ r, raw.elim (some {}) Gen2.Result.codec.decode? = some r ∧ r.Says o

theorem MacroOutput.SaidIn.answer {g : Generation} {raw : Option Text} (h : o.SaidIn g raw) :
    ∃ r, Expansion.answer? g raw = some r ∧ r.Says o := by
  cases g with
  | first =>
    obtain ⟨r, hr, hsays⟩ := h
    refine ⟨r.upgrade, ?_, hsays.upgrade⟩
    cases raw with
    | none =>
      cases hr
      rfl
    | some t => exact congrArg (Option.map _) hr
  | second =>
    obtain ⟨r, hr, hsays⟩ := h
    refine ⟨r, ?_, hsays⟩
    cases raw with
    | none => exact hr
    | some t => exact hr

-- ---------------------------------------------------------------------------
-- Servers
-- ---------------------------------------------------------------------------

variable {σ κ : Type} {F : Macro} {g : Generation} {e : Expansion}

/-- Every request of the generation is answered with what the macro makes of it. -/
def Speaks (F : Macro) (g : Generation) (call : Caller σ κ) : Prop :=
  ∀ remote client s params input, MacroInput.ofParams? g s params = some input →
    ∃ raw, (call remote client (Method.expand g s).name params).2 = .ok raw ∧
      (F input).SaidIn g raw

theorem Speaks.served {call : Caller σ κ} (h : Speaks F g call) (he : e.Sendable) (remote : σ)
    (client : κ) :
    ∃ r, Workspace.served? call remote client g e = some r ∧ r.Says (F e.input) := by
  obtain ⟨raw, hcall, hsaid⟩ := h remote client _ _ _ (Expansion.params_readIn he g).input
  obtain ⟨r, hr, hsays⟩ := hsaid.answer
  refine ⟨r, ?_, hsays⟩
  unfold Workspace.served? Expansion.method
  rw [hcall]
  exact hr

namespace Fleet

def macroRule (F : Macro) (g : Generation) : Rule where
  allows q r := q.generation = g → q.expansion.Sendable → r.Says (F q.expansion.input)
  alike := fun halike h hg he => (h hg he).alike halike

variable {serve : Text → Caller σ κ} {fleet : Fleet σ κ} {m : Member κ}

theorem follows_macroRule (h : ∀ f, Speaks F g (serve f)) : Follows (macroRule F g) serve := by
  rintro f remote client g e r hr rfl he
  obtain ⟨r', hr', hsays⟩ := (h f).served he remote client
  cases hr.symm.trans hr'
  exact hsays

/-- A connected member of a fleet with any history from an empty disk, whose server speaks for the
macro. The request, if there is one, can be sent and is told apart from all that was asked. -/
structure Seat (F : Macro) (g : Generation) (request : Option Expansion)
    (serve : Text → Caller σ κ) (fleet : Fleet σ κ) (m : Member κ) : Prop where
  speaks : ∀ f, Speaks F g (serve f)
  history : ∃ disk files remote history, files.Settled ∧ (∀ d, disk.stored? files d = none) ∧
    fleet = (start disk files remote).run serve history
  member : m ∈ fleet.members
  connected : ∃ client, m.cell.load.client? = some client
  sendable : ∀ e ∈ request, e.Sendable
  toldApart : ∀ e ∈ request, ToldApart (⟨g, e, m.fingerprint⟩ :: fleet.asked)

namespace Seat

theorem obeys {request : Option Expansion} (h : Seat F g request serve fleet m) :
    fleet.Obeys (macroRule F g) := by
  obtain ⟨disk, files, remote, history, hsettled, hempty, rfl⟩ := h.history
  exact run_obeys (follows_macroRule h.speaks) (.start hsettled hempty remote) history

theorem expand_says (h : Seat F g (some e) serve fleet m) :
    ∃ r, ((fleet.workspace m).expand (serve m.fingerprint) g e).2 = some r ∧
      r.Says (F e.input) := by
  have hfollows := follows_macroRule h.speaks
  have he := h.sendable e rfl
  have hasked := h.toldApart e rfl
  generalize hw : (fleet.workspace m).expand (serve m.fingerprint) g e = out
  obtain ⟨w, answer⟩ := out
  cases answer with
  | none =>
    -- there would have to be no connection, or a call that failed
    obtain ⟨client, hclient⟩ := h.connected
    obtain ⟨-, -, hnone⟩ := expand_obeys hfollows h.obeys h.member hw
    rcases hnone rfl with hoff | ⟨client', -, -, hfailed⟩
    · cases hoff.symm.trans hclient
    · obtain ⟨r, hr, -⟩ := (h.speaks m.fingerprint).served he (fleet.workspace m).remote client'
      cases hfailed.symm.trans hr
  | some r =>
    refine ⟨r, rfl, ?_⟩
    -- the answer may be an old one, to another request with the same key
    obtain ⟨q, hq, hg, hkey, -, hallows⟩ :=
      answer_allowed hfollows h.obeys h.member hasked (congrArg Prod.snd hw)
    have hinput : q.expansion.input = e.input := congrArg MacroInput.ofKey hkey
    rw [← hinput]
    exact hallows hg ⟨hasked.fits q hq, hinput ▸ he.derives⟩

end Seat

end Fleet

-- ---------------------------------------------------------------------------
-- Plugins
-- ---------------------------------------------------------------------------

def Generated.ofOutput (name : Text) (o : MacroOutput) (site : CallSite) : Generated where
  code := if o.text = [] then none
    else some { name, content := o.text, mappings := Mapping.wholeOutput o.text site.span }
  diagnostics := o.remarks.map (·.toHost site)

theorem Workspace.generated_says {r : Gen2.Result} (h : r.Says o) (w : Workspace σ κ) (name : Text)
    (site : CallSite) : (w.generated name r site).2 = Generated.ofOutput name o site := by
  have hdiagnostics : r.diagnostics.items.map (·.toHost site) = o.remarks.map (·.toHost site) := by
    rw [h.diagnostics, List.map_map]
    exact List.map_congr_left fun remark _ => remark.toHost_second site
  unfold generated Generated.ofAnswer Generated.ofOutput
  rw [h.text, h.mappings, hdiagnostics]
  by_cases ht : o.text = []
  · simp [ht]
  · simp [ht, Gen2.WireMapping.toMappings]

inductive PluginJob where
  | onItem : Item → PluginJob
  | onCall : InlineCall → PluginJob

def Workspace.perform (call : Caller σ κ) (w : Workspace σ κ) (p : Package) (c : PluginContext) :
    PluginJob → Workspace σ κ × Generated
  | .onItem item => w.expandItem call p c item
  | .onCall inline => w.expandInline call p c inline

namespace PluginJob

/-- The request that the job makes; an item may make none. -/
def request? (p : Package) (c : PluginContext) : PluginJob → Option Expansion
  | .onItem item =>
    match item.attributes.find? p.handlesAttribute with
    | some a => some (.attribute (p.attributeRequest c item a))
    | none =>
      match p.derivesOn item with
      | (names, some a) => some (.derive (p.deriveRequest c item names a))
      | (_, none) => none
  | .onCall inline => some (.inline (p.inlineRequest c inline))

/-- What the job comes to. Nothing here depends on the generation of the package. -/
def outcome (F : Macro) (p : Package) (c : PluginContext) : PluginJob → Generated
  | .onItem item =>
    match item.attributes.find? p.handlesAttribute with
    | some a =>
      let o := F (Expansion.attribute (p.attributeRequest c item a)).input
      let g := Generated.ofOutput ("proc_macro_" ++ a.name) o (CallSite.of a.node)
      let tag (f : GeneratedFile) : GeneratedFile :=
        { f with executable := if p.isExecutable a.name then some a.name else none }
      { g with code := g.code.map tag, removesItem := true }
    | none =>
      match p.derivesOn item with
      | (names, some a) =>
        let o := F (Expansion.derive (p.deriveRequest c item names a)).input
        Generated.ofOutput "proc_macro_derive" o (CallSite.of a.node)
      | (_, none) => {}
  | .onCall inline =>
    let site := CallSite.of inline.node
    let o := F (Expansion.inline (p.inlineRequest c inline)).input
    let g := Generated.ofOutput "inline_proc_macro" o site
    if g.code.isNone && !Diagnostic.hasErrors g.diagnostics then
      { g with diagnostics := g.diagnostics ++ [Generated.nothingError inline.name site] }
    else g

end PluginJob

namespace Fleet

variable {serve : Text → Caller σ κ} {fleet : Fleet σ κ} {m : Member κ}

theorem Seat.perform_outcome (p : Package) (c : PluginContext) {job : PluginJob}
    (h : Seat F p.generation (job.request? p c) serve fleet m) :
    ((fleet.workspace m).perform (serve m.fingerprint) p c job).2 = job.outcome F p c := by
  cases job with
  | onItem item =>
    simp only [PluginJob.request?] at h
    simp only [Workspace.perform, Workspace.expandItem, PluginJob.outcome]
    cases hfind : item.attributes.find? p.handlesAttribute with
    | some a =>
      rw [hfind] at h
      obtain ⟨r, hr, hsays⟩ := h.expand_says
      simp only [Workspace.expandAttribute]
      generalize (fleet.workspace m).expand _ _ _ = out at hr ⊢
      obtain ⟨w, answer⟩ := out
      cases hr
      simp only [← w.generated_says hsays]
    | none =>
      rw [hfind] at h
      generalize p.derivesOn item = found at h ⊢
      obtain ⟨names, _ | a⟩ := found
      · rfl
      · obtain ⟨r, hr, hsays⟩ := h.expand_says
        simp only [Workspace.expandDerives]
        generalize (fleet.workspace m).expand _ _ _ = out at hr ⊢
        obtain ⟨w, answer⟩ := out
        cases hr
        exact w.generated_says hsays _ _
  | onCall inline =>
    obtain ⟨r, hr, hsays⟩ := h.expand_says
    simp only [Workspace.perform, Workspace.expandInline, PluginJob.outcome]
    generalize (fleet.workspace m).expand _ _ _ = out at hr ⊢
    obtain ⟨w, answer⟩ := out
    cases hr
    simp only [← w.generated_says hsays]
    split <;> rfl

/-- A package of the first generation and one of the second are the same to the host. If the
servers speak for the same macro, a plugin makes the same of the same job. -/
theorem perform_generation {σ' κ' : Type} {serve' : Text → Caller σ' κ'} {fleet' : Fleet σ' κ'}
    {m' : Member κ'} (p : Package) (c : PluginContext) (job : PluginJob)
    (h : Seat F .first (job.request? p c) serve fleet m)
    (h' : Seat F .second (job.request? p c) serve' fleet' m') :
    let first := (fleet.workspace m).perform (serve m.fingerprint)
      { p with generation := .first } c job
    let second := (fleet'.workspace m').perform (serve' m'.fingerprint)
      { p with generation := .second } c job
    first.2 = second.2 ∧ second.2 = job.outcome F p c := by
  have hfirst := Seat.perform_outcome { p with generation := .first } c h
  have hsecond := Seat.perform_outcome { p with generation := .second } c h'
  exact ⟨hfirst.trans hsecond.symm, hsecond⟩

end Fleet

-- ---------------------------------------------------------------------------
-- Servers for a macro
-- ---------------------------------------------------------------------------

namespace MacroOutput

structure Fits (o : MacroOutput) : Prop where
  text : o.text.length < 2 ^ 32
  remarks : o.remarks.length < 2 ^ 32
  messages : ∀ remark ∈ o.remarks, remark.message.length < 2 ^ 32

def first (o : MacroOutput) : Gen1.Result :=
  { stream := { value := o.text }, diagnostics := some (o.remarks.map Remark.first) }

/-- With a token for each byte. -/
def second (o : MacroOutput) : Gen2.Result :=
  { stream := { tokens := some (o.text.map fun b => ⟨[b], ⟨0, 0⟩⟩) }
    diagnostics := some (o.remarks.map Remark.second) }

def written (o : MacroOutput) : Generation → Text
  | .first => Gen1.Result.codec.write o.first
  | .second => Gen2.Result.codec.write o.second

theorem first_returns (h : o.Fits) : Gen1.Result.codec.Returns o.first o.first := by
  have hremark (remark : Gen1.Diagnostic) (hr : remark ∈ o.first.diagnostics.items) :
      Gen1.Diagnostic.codec.Returns remark remark := by
    obtain ⟨said, hsaid, rfl⟩ := List.mem_map.mp hr
    exact Codec.record_returns (by decide) (.of (Codec.text_returns (h.messages said hsaid))
      (.of (Codec.word8_returns _) .nil))
  have hcount : o.first.diagnostics.items.length < 2 ^ 32 := by
    simpa [first, Sequence.items] using h.remarks
  exact Codec.record_returns (by decide)
    (.of (Gen1.Stream.codec_returns ⟨h.text, Nat.two_pow_pos 32, Nat.two_pow_pos 32⟩)
      (.of (Codec.list_returns_self hcount hremark) .nil))

theorem second_fits (h : o.Fits) : o.second.Fits where
  stream := by
    constructor
    · simpa [second, Sequence.items] using h.text
    · intro t ht
      obtain ⟨b, -, rfl⟩ := List.mem_map.mp ht
      simp
    · simp [second]
    · simp [second]
    · simp [second]
  diagnostics := by simpa [second, Sequence.items] using h.remarks
  messages := by
    intro d hd
    obtain ⟨remark, hremark, rfl⟩ := List.mem_map.mp hd
    exact h.messages remark hremark
  mappings := by simp [second, Sequence.items]

theorem saidIn_written (h : o.Fits) (g : Generation) : o.SaidIn g (some (o.written g)) := by
  cases g with
  | first => exact ⟨o.first, (first_returns h).decode, rfl, rfl⟩
  | second =>
    refine ⟨o.second.returned, (Gen2.Result.codec_returns (second_fits h)).decode, ?_⟩
    have htext : o.second.stream.text = o.text := by
      simp [second, Gen2.Stream.text, Sequence.items, List.flatMap_map, List.flatMap_singleton']
    have hsays : o.second.Says o := ⟨htext, rfl, rfl⟩
    exact hsays.alike (Gen2.Result.returned_alike _)

end MacroOutput

/-- Reads what the macro is given, and answers with what it makes of it. -/
def speaking (F : Macro) (g : Generation) : Caller σ κ :=
  fun remote _ method params =>
    let shape? := [Shape.attribute, .derive, .inline].find? fun s =>
      (Method.expand g s).name == method
    (remote, match shape?.bind fun s => MacroInput.ofParams? g s params with
      | some input => .ok (some ((F input).written g))
      | none => .error (.undecodable method))

theorem speaks_speaking (hF : ∀ input, (F input).Fits) :
    Speaks F g (speaking F g : Caller σ κ) := by
  intro remote client s params input hinput
  refine ⟨some ((F input).written g), ?_, MacroOutput.saidIn_written (hF input) g⟩
  have hshape : ([Shape.attribute, .derive, .inline].find? fun s' =>
      (Method.expand g s').name == (Method.expand g s).name) = some s := by
    cases g <;> cases s <;> decide
  simp only [speaking, hshape, Option.bind_some, hinput]

namespace Fleet

def replaced : MacroOutput := ⟨"fn g() \x7b\x7d", [⟨"replaced", .warning⟩]⟩

def refused : MacroOutput := ⟨[], [⟨"not here", .error⟩]⟩

/-- Replaces what has an attribute, derives nothing and refuses calls. -/
def replacing : Macro
  | .attribute .. => replaced
  | .derive .. => {}
  | .inline .. => refused

theorem replacing_fits (input : MacroInput) : (replacing input).Fits := by
  have hreplaced : replaced.Fits := ⟨by decide, by decide, by decide⟩
  have hrefused : refused.Fits := ⟨by decide, by decide, by decide⟩
  have hnothing : MacroOutput.Fits {} := ⟨by decide, by decide, by decide⟩
  cases input with
  | «attribute» => exact hreplaced
  | «derive» => exact hnothing
  | «inline» => exact hrefused

def replacePackage : Package := ⟨"pkg", some ["replace"], none, none, none, .second⟩

def replaceContext : PluginContext := ⟨.empty, .byPackage, "2024_07"⟩

def replaceItem : Item :=
  ⟨Node.of .item [{ (default : Token) with text := "fn f() \x7b\x7d" }],
    [{ (default : Attribute) with name := "replace" }]⟩

def replaceJob : PluginJob := .onItem replaceItem

/-- One session has asked, and another one without a memo has joined. -/
def replaceFleet (g : Generation) : Fleet Unit Unit :=
  (start ⟨"/c"⟩ (FileTree.empty "/") ()).run (fun _ => speaking replacing g)
    (.join 0 (some (.connected ())) "f" ::
      ((replaceJob.request? replacePackage replaceContext).toList.map (.expand 0 g) ++
        [.join (-1) (some (.connected ())) "f"]))

def replaceMember : Member Unit :=
  ⟨Session.ofOptions (-1) (some ⟨"/c"⟩), some (.connected ()), "f", {}⟩

theorem replaceFleet_seat (g : Generation) :
    Seat replacing g (replaceJob.request? replacePackage replaceContext)
      (fun _ => speaking replacing g) (replaceFleet g) replaceMember where
  speaks _ := speaks_speaking replacing_fits
  history := ⟨_, _, _, _, by decide, DiskCache.stored_empty ⟨"/c"⟩ "/", rfl⟩
  member := List.mem_of_getElem? (i := 1) rfl
  connected := ⟨(), rfl⟩
  sendable := by
    rintro _ ⟨⟩
    exact ⟨by decide, by decide⟩
  toldApart := by
    rintro _ ⟨⟩
    exact .of_same_key (by decide) (by decide) rfl

/-- Either package has the function replaced, with a warning. -/
theorem perform_generation_replacing :
    let made (g : Generation) :=
      (((replaceFleet g).workspace replaceMember).perform (speaking replacing g)
        { replacePackage with generation := g } replaceContext replaceJob).2
    made .first = made .second ∧
      (made .second).code.map (·.content) = some (Text.ofString "fn g() \x7b\x7d") ∧
      (made .second).diagnostics.map (·.message) = [Text.ofString "replaced"] := by
  have h := perform_generation replacePackage replaceContext replaceJob (replaceFleet_seat .first)
    (replaceFleet_seat .second)
  have houtcome : (replaceJob.outcome replacing replacePackage replaceContext).code.map
      (·.content) = some (Text.ofString "fn g() \x7b\x7d") ∧
      (replaceJob.outcome replacing replacePackage replaceContext).diagnostics.map (·.message) =
        [Text.ofString "replaced"] := by decide
  obtain ⟨hsame, hmade⟩ := h
  rw [← hmade] at houtcome
  exact ⟨hsame, houtcome⟩

end Fleet

end MacroRelay
