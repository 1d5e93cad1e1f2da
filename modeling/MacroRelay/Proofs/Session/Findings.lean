import MacroRelay.Proofs.Expansion.Reported
import MacroRelay.Proofs.Session.Plugins
import Mathlib.Data.List.Forall2

/-!
# What is told of an answer

The findings of an answer come first among the diagnostics, one for one, and what the host adds stands
behind them: a count of unusable mappings, and an error for a call that would else vanish.
-/

namespace MacroRelay

/-- A diagnostic as it was sent. Only the second generation has spans and an informational level. -/
structure Finding where
  generation : Generation
  message : Text
  level : UInt8
  span : Option Span := none

namespace Finding

def severity (f : Finding) : Severity :=
  if f.level = Gen2.Diagnostic.warningLevel then .warning
  else if f.generation = .second ∧ f.level = Gen2.Diagnostic.infoLevel then .info
  else .error

theorem severity_cases (f : Finding) :
    f.severity = .warning ∨ f.severity = .info ∨ f.severity = .error := by
  unfold severity
  split
  · exact .inl rfl
  · split
    · exact .inr (.inl rfl)
    · exact .inr (.inr rfl)

/-- The diagnostic says what was found, of the span that came with it unless that is inverted. -/
structure ReportedAs (site : CallSite) (f : Finding) (d : Diagnostic) : Prop where
  message : d.message = f.message
  severity : d.severity = f.severity
  code : d.code = .ofMacro f.severity
  file : d.primary.file = site.file
  pointed : ∀ s ∈ f.span, ¬ s.isInverted → d.primary.span = s
  unpointed : (∀ s ∈ f.span, s.isInverted) → d.primary.span = site.span

theorem ReportedAs.severity_of_isError {site : CallSite} {f : Finding} {d : Diagnostic}
    (h : f.ReportedAs site d) (herror : d.isError) : d.severity = .error := by
  rw [Diagnostic.isError, h.severity] at herror
  rw [h.severity]
  rcases f.severity_cases with hf | hf | hf
  · rw [hf] at herror
    exact absurd herror (by decide)
  · rw [hf] at herror
    exact absurd herror (by decide)
  · exact hf

theorem ReportedAs.ordered {site : CallSite} {f : Finding} {d : Diagnostic} (h : f.ReportedAs site d)
    (hsite : ¬ site.span.isInverted) : ¬ d.primary.span.isInverted := by
  by_cases hspan : ∀ s ∈ f.span, s.isInverted
  · rwa [h.unpointed hspan]
  · simp only [not_forall] at hspan
    obtain ⟨s, hs, hordered⟩ := hspan
    rwa [h.pointed s hs hordered]

end Finding

inductive Answer where
  | first : Gen1.Result → Answer
  | second : Gen2.Result → Answer

namespace Answer

def lifted : Answer → Gen2.Result
  | .first r => r.upgrade
  | .second r => r

def text : Answer → Text
  | .first r => r.stream.value
  | .second r => r.stream.text

def findings : Answer → List Finding
  | .first r => r.diagnostics.items.map fun d => ⟨.first, d.message, d.severity, none⟩
  | .second r => r.diagnostics.items.map fun d => ⟨.second, d.message, d.severity, d.span⟩

def mappings : Answer → List Gen2.WireMapping
  | .first _ => []
  | .second r => r.mappings.items

theorem text_lifted (a : Answer) : a.lifted.stream.text = a.text := by
  cases a with
  | first r => exact r.stream.text_upgrade
  | second r => rfl

theorem mappings_lifted (a : Answer) : a.lifted.mappings.items = a.mappings := by
  cases a <;> rfl

theorem severity_upgrade (d : Gen1.Diagnostic) :
    Gen2.Diagnostic.hostSeverity d.upgrade.severity =
      (Finding.mk .first d.message d.severity none).severity := by
  simp only [Gen1.Diagnostic.upgrade, Finding.severity, reduceCtorEq, false_and, if_false]
  split <;> rfl

theorem reportedAs_first (site : CallSite) (d : Gen1.Diagnostic) :
    Finding.ReportedAs site ⟨.first, d.message, d.severity, none⟩ (d.upgrade.toHost site) where
  message := rfl
  severity := severity_upgrade d
  code := congrArg DiagnosticCode.ofMacro (severity_upgrade d)
  file := rfl
  pointed := by simp
  unpointed _ := rfl

theorem reportedAs_second (site : CallSite) (d : Gen2.Diagnostic) :
    Finding.ReportedAs site ⟨.second, d.message, d.severity, d.span⟩ (d.toHost site) := by
  have hseverity : Gen2.Diagnostic.hostSeverity d.severity =
      (Finding.mk .second d.message d.severity d.span).severity := by
    simp [Gen2.Diagnostic.hostSeverity, Finding.severity]
  have hcode := congrArg DiagnosticCode.ofMacro hseverity
  obtain ⟨message, level, span⟩ := d
  cases span with
  | none => exact ⟨rfl, hseverity, hcode, rfl, by simp, fun _ => rfl⟩
  | some s =>
    refine ⟨rfl, hseverity, hcode, ?_, ?_, ?_⟩ <;>
      by_cases hs : s.isInverted <;> simp [Gen2.Diagnostic.toHost, hs]

theorem findings_reported (a : Answer) (site : CallSite) :
    List.Forall₂ (Finding.ReportedAs site) a.findings (a.lifted.diagnostics.items.map (·.toHost site)) := by
  cases a with
  | first r =>
    rw [lifted, Gen1.Result.upgrade_items, List.map_map, findings]
    simp only [List.forall₂_map_left_iff, List.forall₂_map_right_iff, List.forall₂_same]
    exact fun d _ => reportedAs_first site d
  | second r =>
    simp only [lifted, findings, List.forall₂_map_left_iff, List.forall₂_map_right_iff, List.forall₂_same]
    exact fun d _ => reportedAs_second site d

/-- What a server of the generation says in its reply, which is nothing if it sent no result. -/
def ofRaw? : Generation → Option Text → Option Answer
  | .first, raw => (raw.elim (some {}) Gen1.Result.codec.decode?).map .first
  | .second, raw => (raw.elim (some {}) Gen2.Result.codec.decode?).map .second

theorem answer?_eq_lifted (g : Generation) (raw : Option Text) :
    Expansion.answer? g raw = (ofRaw? g raw).map lifted := by
  cases g <;> cases raw <;> simp [Expansion.answer?, ofRaw?, Function.comp_def, lifted]

end Answer

-- ---------------------------------------------------------------------------
-- Answers of a session
-- ---------------------------------------------------------------------------

namespace Fleet

variable {σ κ : Type} {serve : Text → Caller σ κ} {fleet : Fleet σ κ} {m : Member κ} {g : Generation}
  {e : Expansion} {r : Gen2.Result}

def Replied (serve : Text → Caller σ κ) (q : Query) (a : Answer) : Prop :=
  ∃ remote client raw, (serve q.fingerprint remote client (q.expansion.method q.generation).name
    (q.expansion.params q.generation)).2 = .ok raw ∧ Answer.ofRaw? q.generation raw = some a

def replyRule (serve : Text → Caller σ κ) : Rule where
  allows q r := ∃ a, Replied serve q a ∧ r.Alike a.lifted
  alike := fun halike ⟨a, ha, hr⟩ => ⟨a, ha, halike.trans hr⟩

theorem follows_replyRule (serve : Text → Caller σ κ) : Follows (replyRule serve) serve := by
  intro f remote client g e r hserved
  unfold Workspace.served? at hserved
  split at hserved
  · rename_i raw hraw
    rw [Answer.answer?_eq_lifted] at hserved
    obtain ⟨a, ha, rfl⟩ := Option.map_eq_some_iff.mp hserved
    exact ⟨a, ⟨remote, client, raw, hraw, ha⟩, .refl _⟩
  · cases hserved

/-- Whatever the sessions have asked and kept, an answer is what a server of the same generation replied
to a request with the same key under the same fingerprint, stepped up if that is the first. -/
theorem expand_replied {disk : DiskCache} {files : FileTree} {remote : σ} {history : List (Move σ κ)}
    (hsettled : files.Settled) (hempty : ∀ d, disk.stored? files d = none)
    (hfleet : fleet = (start disk files remote).run serve history) (hm : m ∈ fleet.members)
    (hasked : ToldApart (⟨g, e, m.fingerprint⟩ :: fleet.asked))
    (hanswer : ((fleet.workspace m).expand (serve m.fingerprint) g e).2 = some r) :
    ∃ q ∈ ⟨g, e, m.fingerprint⟩ :: fleet.asked, q.generation = g ∧ q.expansion.key = e.key ∧
      q.fingerprint = m.fingerprint ∧ ∃ a, Replied serve q a ∧ r.Alike a.lifted := by
  have hfollows := follows_replyRule serve
  have hobeys : fleet.Obeys (replyRule serve) :=
    hfleet ▸ run_obeys hfollows (.start hsettled hempty remote) history
  exact answer_allowed hfollows hobeys hm hasked hanswer

end Fleet

-- ---------------------------------------------------------------------------
-- What the host adds
-- ---------------------------------------------------------------------------

namespace Generated

variable (name : Text) (r : Gen2.Result) (site : CallSite)

/-- Mappings are looked at only for a text. -/
def warnings : List Diagnostic :=
  if r.stream.text = [] ∨ (Gen2.WireMapping.toMappings r.mappings.items).2 = 0 then []
  else [droppedWarning name site (Gen2.WireMapping.toMappings r.mappings.items).2]

theorem ofAnswer_diagnostics : (ofAnswer name r site).1.diagnostics =
    r.diagnostics.items.map (·.toHost site) ++ warnings name r site := by
  unfold ofAnswer warnings
  by_cases htext : r.stream.text = []
  · simp [htext]
  · by_cases hdropped : (Gen2.WireMapping.toMappings r.mappings.items).2 = 0 <;> simp [htext, hdropped]

variable {name r site} in
theorem eq_of_mem_warnings {d : Diagnostic} (h : d ∈ warnings name r site) :
    d = droppedWarning name site (Gen2.WireMapping.toMappings r.mappings.items).2 := by
  unfold warnings at h
  split at h
  · cases h
  · exact List.mem_singleton.mp h

theorem ofAnswer_code : (ofAnswer name r site).1.code =
    if r.stream.text = [] then none
    else
      let usable := (Gen2.WireMapping.toMappings r.mappings.items).1
      some { name, content := r.stream.text,
             mappings := if usable = [] then Mapping.wholeOutput r.stream.text site.span else usable } := by
  unfold ofAnswer
  by_cases htext : r.stream.text = [] <;> simp [htext]

end Generated

def Expansion.callSite : Expansion → Span
  | .attribute r => r.callSite
  | .derive r => r.callSite
  | .inline r => r.callSite

namespace PluginJob

/-- A job that sends a request has a name for the answer, and the place where it was asked for. -/
inductive Asks (p : Package) : PluginJob → Text → CallSite → Prop
  | attribute {item a} (hattribute : item.attributes.find? p.handlesAttribute = some a) :
      Asks p (.onItem item) ("proc_macro_" ++ a.name) (CallSite.of a.node)
  | derive {item names a} (hattribute : item.attributes.find? p.handlesAttribute = none)
      (hderives : p.derivesOn item = (names, some a)) :
      Asks p (.onItem item) "proc_macro_derive" (CallSite.of a.node)
  | call (inline : InlineCall) : Asks p (.onCall inline) "inline_proc_macro" (CallSite.of inline.node)

def complaints (found : Generated) (site : CallSite) : PluginJob → List Diagnostic
  | .onItem _ => []
  | .onCall inline =>
    if found.code.isNone && !Diagnostic.hasErrors found.diagnostics then
      [Generated.nothingError inline.name site]
    else []

variable {p : Package} {c : PluginContext} {job : PluginJob} {e : Expansion} {name : Text} {site : CallSite}

theorem asks_of_request? (h : job.request? p c = some e) :
    ∃ name site, job.Asks p name site ∧ e.callSite = site.span := by
  cases job with
  | onItem item =>
    simp only [request?] at h
    cases ha : item.attributes.find? p.handlesAttribute with
    | some a =>
      rw [ha] at h
      cases h
      exact ⟨_, _, .attribute ha, rfl⟩
    | none =>
      rw [ha] at h
      cases hderives : p.derivesOn item with
      | mk names found =>
        rw [hderives] at h
        cases found with
        | none => cases h
        | some a =>
          cases h
          exact ⟨_, _, .derive ha hderives, rfl⟩
  | onCall inline =>
    cases h
    exact ⟨_, _, .call inline, rfl⟩

theorem Asks.diagnostics (h : job.Asks p name site) (r : Gen2.Result) :
    (job.conclude p r).diagnostics = (Generated.ofAnswer name r site).1.diagnostics ++
      job.complaints (Generated.ofAnswer name r site).1 site := by
  cases h with
  | «attribute» ha => simp [conclude, complaints, ha]
  | «derive» ha hderives => simp [conclude, complaints, ha, hderives]
  | call inline =>
    simp only [conclude, complaints]
    split <;> simp

theorem exists_of_mem_complaints {d : Diagnostic} {found : Generated} (h : d ∈ job.complaints found site) :
    ∃ inline : InlineCall, d = Generated.nothingError inline.name site := by
  cases job with
  | onItem item => cases h
  | onCall inline =>
    simp only [complaints] at h
    split at h
    · exact ⟨inline, List.mem_singleton.mp h⟩
    · cases h

theorem conclude_call (inline : InlineCall) (p : Package) (r : Gen2.Result) :
    ((onCall inline).conclude p r).code.isSome ∨
      Diagnostic.hasErrors ((onCall inline).conclude p r).diagnostics := by
  simp only [conclude]
  split
  · refine .inr ?_
    simp [Diagnostic.hasErrors, Diagnostic.isError, Generated.nothingError]
  · rename_i hfound
    rwa [Bool.and_eq_true, not_and_or, Option.isNone_iff_eq_none, ← ne_eq, ← Option.isSome_iff_ne_none,
      Bool.not_eq_true', Bool.not_eq_false] at hfound

theorem Asks.code (h : job.Asks p name site) (r : Gen2.Result) : ∃ executable,
    (job.conclude p r).code = (Generated.ofAnswer name r site).1.code.map ({ · with executable }) := by
  have huntagged : (Generated.ofAnswer name r site).1.code =
      (Generated.ofAnswer name r site).1.code.map ({ · with executable := none }) := by
    rw [Generated.ofAnswer_code]
    split <;> rfl
  cases h with
  | @«attribute» item a ha =>
    refine ⟨if p.isExecutable a.name then some a.name else none, ?_⟩
    simp only [conclude, ha]
  | «derive» ha hderives =>
    refine ⟨none, Eq.trans ?_ huntagged⟩
    simp only [conclude, ha, hderives]
  | call inline =>
    refine ⟨none, Eq.trans ?_ huntagged⟩
    simp only [conclude]
    split <;> rfl

end PluginJob

namespace Workspace

variable {σ κ : Type} {call : Caller σ κ} {w : Workspace σ κ} {p : Package} {c : PluginContext}
  {job : PluginJob} {e : Expansion} {r : Gen2.Result} {a : Answer}

/-- What a job makes of an answer does not depend on where the answer came from. -/
theorem perform_of_answer (hrequest : job.request? p c = some e)
    (hanswer : (w.expand call p.generation e).2 = some r) (ha : r.Alike a.lifted) :
    (w.perform call p c job).2 = job.conclude p a.lifted := by
  obtain ⟨trace, hperform⟩ := perform_of_some call hrequest w
  rw [hperform, hanswer, Option.elim_some, PluginJob.conclude_alike ha]

/-- Every finding of an answer is told at its place, before anything else is said. An answer to a call
leaves code or an error. -/
theorem perform_reports (hrequest : job.request? p c = some e)
    (hanswer : (w.expand call p.generation e).2 = some r) (ha : r.Alike a.lifted) :
    ∃ name site own added, job.Asks p name site ∧ e.callSite = site.span ∧
      (w.perform call p c job).2.diagnostics = own ++ added ∧
      List.Forall₂ (Finding.ReportedAs site) a.findings own ∧
      (∀ d ∈ added, d.code = .malformedResult ∨ d.code = .emptyExpansion) ∧
      (¬ site.span.isInverted →
        ∀ d ∈ (w.perform call p c job).2.diagnostics, ¬ d.primary.span.isInverted) ∧
      ((∃ inline, job = .onCall inline) → (w.perform call p c job).2.code.isSome ∨
        ∃ d ∈ (w.perform call p c job).2.diagnostics, d.severity = .error) := by
  obtain ⟨name, site, hasks, hsite⟩ := PluginJob.asks_of_request? hrequest
  have hdiagnostics := hasks.diagnostics a.lifted
  rw [perform_of_answer hrequest hanswer ha]
  rw [Generated.ofAnswer_diagnostics, List.append_assoc] at hdiagnostics
  have hreported := a.findings_reported site
  have hadded : ∀ d ∈ Generated.warnings name a.lifted site ++
        job.complaints (Generated.ofAnswer name a.lifted site).1 site,
      (d.code = .malformedResult ∨ d.code = .emptyExpansion) ∧ d.primary = site := by
    intro d hd
    rcases List.mem_append.mp hd with hd | hd
    · rw [Generated.eq_of_mem_warnings hd]
      exact ⟨.inl rfl, rfl⟩
    · obtain ⟨inline, rfl⟩ := PluginJob.exists_of_mem_complaints hd
      exact ⟨.inr rfl, rfl⟩
  refine ⟨name, site, _, _, hasks, hsite, hdiagnostics, hreported, fun d hd => (hadded d hd).1, ?_, ?_⟩
  · intro hordered d hd
    rw [hdiagnostics] at hd
    rcases List.mem_append.mp hd with hd | hd
    · obtain ⟨sent, -, rfl⟩ := List.mem_map.mp hd
      exact (Answer.reportedAs_second site sent).ordered hordered
    · rw [(hadded d hd).2]
      exact hordered
  · rintro ⟨inline, rfl⟩
    refine (PluginJob.conclude_call inline p a.lifted).imp_right fun herrors => ?_
    obtain ⟨d, hd, herror⟩ := List.any_eq_true.mp herrors
    refine ⟨d, hd, ?_⟩
    rw [hdiagnostics] at hd
    rcases List.mem_append.mp hd with hd | hd
    · obtain ⟨sent, -, rfl⟩ := List.mem_map.mp hd
      exact (Answer.reportedAs_second site sent).severity_of_isError herror
    · rcases List.mem_append.mp hd with hd | hd
      · rw [Generated.eq_of_mem_warnings hd] at herror
        exact absurd herror (by
          simp [Diagnostic.isError, Generated.droppedWarning, Severity.error, Severity.warning])
      · obtain ⟨inline, rfl⟩ := PluginJob.exists_of_mem_complaints hd
        rfl

def replying (r : Gen2.Result) : Caller Nat Unit :=
  fun n _ _ _ => (n + 1, .ok (some (Gen2.Result.codec.write r)))

def replyingFirst (r : Gen1.Result) : Caller Nat Unit :=
  fun n _ _ _ => (n + 1, .ok (some (Gen1.Result.codec.write r)))

/-- Connected, and without caches. -/
def bare : Workspace Nat Unit :=
  { cell := some (.connected ()), files := FileTree.empty "/", remote := 0 }

def selectCall : InlineCall :=
  (InlineCall.parse 4 0 "sel!(1)").toOption.getD default

def selectPackage : Package := ⟨"pkg", none, none, some ["sel"], none, .second⟩

/-- No text, a note with an inverted span and a warning with a span of its own. -/
def silent : Gen2.Result :=
  { diagnostics := some [⟨"note", 3, some ⟨9, 2⟩⟩, ⟨"careful", 2, some ⟨1, 4⟩⟩] }

/-- The same from a server that knows neither spans nor notes. -/
def silentFirst : Gen1.Result :=
  { diagnostics := some [⟨"note", 3⟩, ⟨"careful", 2⟩] }

theorem perform_reports_silent :
    let made := (bare.perform (replying silent) selectPackage Fleet.replaceContext (.onCall selectCall)).2
    let madeFirst := (bare.perform (replyingFirst silentFirst) { selectPackage with generation := .first }
      Fleet.replaceContext (.onCall selectCall)).2
    made.diagnostics.map (fun d => (d.message, d.severity, d.primary)) =
        [(Text.ofString "note", .info, ⟨4, 0, 7⟩), ("careful", .warning, ⟨4, 1, 4⟩),
          ("inline macro sel! expanded to nothing", .error, ⟨4, 0, 7⟩)] ∧
      (∃ site own added, made.diagnostics = own ++ added ∧
        List.Forall₂ (Finding.ReportedAs site) (Answer.second silent).findings own ∧
        ∃ d ∈ made.diagnostics, d.severity = .error) ∧
      madeFirst.diagnostics.map (fun d => (d.message, d.severity, d.primary)) =
        [(Text.ofString "note", .error, ⟨4, 0, 7⟩), ("careful", .warning, ⟨4, 0, 7⟩)] ∧
      ∃ site own added, madeFirst.diagnostics = own ++ added ∧
        List.Forall₂ (Finding.ReportedAs site) (Answer.first silentFirst).findings own := by
  let firstPackage : Package := { selectPackage with generation := .first }
  let request : Expansion := .inline (selectPackage.inlineRequest Fleet.replaceContext selectCall)
  have hrequest (p : Package) (hp : p.name = selectPackage.name) :
      (PluginJob.onCall selectCall).request? p Fleet.replaceContext = some request := by
    simp only [PluginJob.request?, Package.inlineRequest, hp, request]
  have hanswer : (bare.expand (replying silent) .second request).2 = some silent := by decide +kernel
  have hanswerFirst : (bare.expand (replyingFirst silentFirst) .first request).2 =
      some silentFirst.upgrade := by decide +kernel
  have hmade : (bare.perform (replying silent) selectPackage Fleet.replaceContext
      (.onCall selectCall)).2.code = none := by
    decide +kernel
  obtain ⟨-, site, own, added, -, -, hdiagnostics, hreported, -, -, hcall⟩ :=
    perform_reports (a := .second silent) (hrequest selectPackage rfl) hanswer (.refl silent)
  obtain ⟨-, siteFirst, ownFirst, addedFirst, -, -, hdiagnosticsFirst, hreportedFirst, -⟩ :=
    perform_reports (a := .first silentFirst) (hrequest firstPackage rfl) hanswerFirst (.refl _)
  refine ⟨by decide +kernel, ⟨site, own, added, hdiagnostics, hreported, ?_⟩, by decide +kernel,
    siteFirst, ownFirst, addedFirst, hdiagnosticsFirst, hreportedFirst⟩
  exact (hcall ⟨selectCall, rfl⟩).resolve_left (by simp [hmade])

end Workspace

end MacroRelay
