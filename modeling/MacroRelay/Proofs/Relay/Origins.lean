import MacroRelay.Proofs.Path
import MacroRelay.Proofs.Session.Findings
import MacroRelay.Relay.Report

/-!
# Where generated lines come from

The lines of a generated text are looked up one by one, each with the span that it has in the text. An
answer without a usable mapping is mapped to its call site as a whole, so every span of the text leads
there, and with it every line.
-/

namespace MacroRelay

-- ---------------------------------------------------------------------------
-- Lines and their places
-- ---------------------------------------------------------------------------

structure TextLine where
  number : Nat
  start : Nat
  text : Text
deriving DecidableEq

namespace TextLine

def stop (l : TextLine) : Nat := l.start + l.text.length

def span (l : TextLine) : Span := ⟨l.start.toUInt32, l.stop.toUInt32⟩

def row (number start : Nat) : List Text → List TextLine
  | [] => []
  | line :: rest => ⟨number, start, line⟩ :: row (number + 1) (start + (line.length + 1)) rest

def extent : List Text → Nat
  | [] => 0
  | line :: rest => line.length + 1 + extent rest

theorem stop_lt_of_mem_row {number start : Nat} {lines : List Text} {l : TextLine}
    (h : l ∈ row number start lines) : l.stop < start + extent lines := by
  induction lines generalizing number start with
  | nil => cases h
  | cons line rest ih =>
    rw [extent]
    rcases List.mem_cons.mp h with rfl | h
    · simp only [stop]
      omega
    · have hstop := ih h
      omega

end TextLine

namespace Text

theorem extent_splitAt (b : UInt8) (t : Text) : TextLine.extent (splitAt b t) = t.length + 1 := by
  induction t with
  | nil => rfl
  | cons c t ih =>
    by_cases hc : c = b
    · subst hc
      rw [splitAt_cons_self, TextLine.extent, ih, List.length_cons, List.length_nil]
      omega
    · obtain ⟨first, rest, ht⟩ := List.exists_cons_of_ne_nil (splitAt_ne_nil b t)
      rw [ht, TextLine.extent] at ih
      rw [splitAt_cons_ne hc ht, TextLine.extent, List.length_cons, List.length_cons]
      omega

/-- Lines are counted from one. -/
def lines (t : Text) : List TextLine :=
  TextLine.row 1 0 (t.splitAt newline)

theorem stop_le_of_mem_lines {t : Text} {l : TextLine} (h : l ∈ t.lines) : l.stop ≤ t.length := by
  have hstop := TextLine.stop_lt_of_mem_row h
  rw [extent_splitAt] at hstop
  omega

end Text

namespace GeneratedFile

variable (g : GeneratedFile) (sources : FileSet) (file : FileId)

theorem originLines_eq (number start : Nat) (lines : List Text) :
    g.originLines sources file number start.toUInt32 lines =
      ((TextLine.row number start lines).filter (·.text ≠ [])).flatMap fun l =>
        g.lineOrigin sources file l.number l.span := by
  induction lines generalizing number start with
  | nil => rfl
  | cons line rest ih =>
    have hnext : Offset.advance start.toUInt32 (Width.of line + 1) =
        (start + (line.length + 1)).toUInt32 := by
      simp [Offset.advance, Width.of, Nat.toUInt32_eq, UInt32.ofNat_add]
    have hspan : Span.of start.toUInt32 line = (TextLine.mk number start line).span := by
      simp [Span.of, TextLine.span, TextLine.stop, Offset.advance, Width.of, Nat.toUInt32_eq,
        UInt32.ofNat_add]
    rw [originLines, TextLine.row, hnext, ih, hspan]
    by_cases hline : line = [] <;> simp [hline]

theorem origins_eq : g.origins sources file = (g.content.lines.filter (·.text ≠ [])).flatMap fun l =>
    g.lineOrigin sources file l.number l.span :=
  g.originLines_eq sources file 1 0 _

def originLine (number : Nat) (place : Text) : Text :=
  "//   gen:" ++ Text.decimal number ++ " -> " ++ place ++ [Text.newline]

theorem lineOrigin_of_source {g : GeneratedFile} {s origin : Span}
    (h : Mapping.bestSource g.mappings s = .ok (some origin)) (number : Nat) :
    g.lineOrigin sources file number s = originLine number
      (sources.filePath file ++ ":" ++ (sources.resolve ⟨file, origin⟩).1.text) := by
  simp only [lineOrigin, h, originLine]

end GeneratedFile

-- ---------------------------------------------------------------------------
-- Answers without usable mappings
-- ---------------------------------------------------------------------------

theorem Mapping.bestSource_wholeOutput {content : Text} {site : Span} (hfits : content.length < 2 ^ 32)
    {start stop : Nat} (hordered : start ≤ stop) (hstop : stop ≤ content.length) :
    bestSource (wholeOutput content site) ⟨start.toUInt32, stop.toUInt32⟩ = .ok (some site) := by
  have hend : stop < 2 ^ 32 := Nat.lt_of_le_of_lt hstop hfits
  have hlast : stop.toUInt32.toNat = stop := UInt32.toNat_ofNat_of_lt' hend
  have hfirst : start.toUInt32.toNat = start :=
    UInt32.toNat_ofNat_of_lt' (Nat.lt_of_le_of_lt hordered hend)
  rw [wholeOutput, bestSource_singleton]
  refine congrArg _ (target?_of_target (.inr rfl) ?_ ?_)
  · rw [Span.isInverted_iff, hfirst, hlast]
    omega
  · rw [Span.contains_iff, Span.stop_of, Offset.toNat_advance (by simpa using hfits), hfirst, hlast]
    simpa [Span.of] using hstop

def Answer.Unmapped (a : Answer) : Prop :=
  ∀ m ∈ a.mappings, ¬ m.Usable

theorem Answer.Unmapped.toMappings {a : Answer} (h : a.Unmapped) :
    Gen2.WireMapping.toMappings a.lifted.mappings.items = ([], a.mappings.length) := by
  have hnone : a.mappings.filterMap Gen2.WireMapping.toMapping? = [] :=
    List.filterMap_eq_nil_iff.mpr fun m hm => Gen2.WireMapping.toMapping?_eq_none.mpr (h m hm)
  rw [a.mappings_lifted, Gen2.WireMapping.toMappings, hnone, List.length_nil, Nat.sub_zero]

namespace Generated

variable {a : Answer}

theorem code_of_unmapped (h : a.Unmapped) (htext : a.text ≠ []) (name : Text) (site : CallSite) :
    (ofAnswer name a.lifted site).1.code =
      some { name, content := a.text, mappings := Mapping.wholeOutput a.text site.span } := by
  rw [ofAnswer_code, a.text_lifted, if_neg htext, h.toMappings]
  rfl

theorem warnings_of_unmapped (h : a.Unmapped) (htext : a.text ≠ []) (name : Text) (site : CallSite) :
    warnings name a.lifted site =
      if a.mappings = [] then [] else [droppedWarning name site a.mappings.length] := by
  simp [warnings, a.text_lifted, h.toMappings, htext]

end Generated

theorem PluginJob.complaints_of_code {found : Generated} {file : GeneratedFile} (h : found.code = some file)
    (job : PluginJob) (site : CallSite) : job.complaints found site = [] := by
  cases job <;> simp [complaints, h]

theorem Finding.filter_malformed {site : CallSite} {fs : List Finding} {ds : List Diagnostic}
    (h : List.Forall₂ (Finding.ReportedAs site) fs ds) : ds.filter (·.code = .malformedResult) = [] := by
  induction h with
  | nil => rfl
  | @cons f d fs ds hd _ ih =>
    have hcode : d.code ≠ .malformedResult := by
      rw [hd.code]
      rcases f.severity_cases with hf | hf | hf <;> rw [hf] <;> decide
    rw [List.filter_cons_of_neg (by simpa using hcode), ih]

namespace Workspace

variable {σ κ : Type} {call : Caller σ κ} {w : Workspace σ κ} {p : Package} {c : PluginContext}
  {job : PluginJob} {e : Expansion} {r : Gen2.Result} {a : Answer}

/-- Code without a usable mapping leads back to its call site, from wherever in its text. What could not
be used is counted in one warning, behind the findings of the answer. -/
theorem perform_traceable (hrequest : job.request? p c = some e)
    (hanswer : (w.expand call p.generation e).2 = some r) (ha : r.Alike a.lifted)
    (hunmapped : a.Unmapped) (htext : a.text ≠ []) (hfits : a.text.length < 2 ^ 32) :
    ∃ name site file own, job.Asks p name site ∧ e.callSite = site.span ∧
      (w.perform call p c job).2.code = some file ∧ file.content = a.text ∧
      (∀ start stop, start ≤ stop → stop ≤ file.content.length →
        Mapping.bestSource file.mappings ⟨start.toUInt32, stop.toUInt32⟩ = .ok (some site.span)) ∧
      (∀ sources id, file.origins sources id = (a.text.lines.filter (·.text ≠ [])).flatMap fun l =>
        GeneratedFile.originLine l.number
          (sources.filePath id ++ ":" ++ (sources.resolve ⟨id, site.span⟩).1.text)) ∧
      List.Forall₂ (Finding.ReportedAs site) a.findings own ∧
      (w.perform call p c job).2.diagnostics = own ++
        (if a.mappings = [] then [] else [Generated.droppedWarning name site a.mappings.length]) ∧
      ((w.perform call p c job).2.diagnostics.filter (·.code = .malformedResult)).length =
        if a.mappings = [] then 0 else 1 := by
  obtain ⟨name, site, hasks, hsite⟩ := PluginJob.asks_of_request? hrequest
  obtain ⟨executable, hcode⟩ := hasks.code a.lifted
  rw [Generated.code_of_unmapped hunmapped htext, Option.map_some] at hcode
  have hdiagnostics := hasks.diagnostics a.lifted
  rw [PluginJob.complaints_of_code (Generated.code_of_unmapped hunmapped htext name site), List.append_nil,
    Generated.ofAnswer_diagnostics, Generated.warnings_of_unmapped hunmapped htext] at hdiagnostics
  have hreported := a.findings_reported site
  rw [perform_of_answer hrequest hanswer ha, hcode, hdiagnostics]
  refine ⟨name, site, _, _, hasks, hsite, rfl, rfl, ?_, ?_, hreported, rfl, ?_⟩
  · exact fun start stop => Mapping.bestSource_wholeOutput hfits
  · intro sources id
    rw [GeneratedFile.origins_eq]
    refine List.flatMap_congr fun l hl => ?_
    have hstop := Text.stop_le_of_mem_lines (List.mem_of_mem_filter hl)
    exact GeneratedFile.lineOrigin_of_source sources id
      (Mapping.bestSource_wholeOutput hfits (Nat.le_add_right l.start l.text.length) hstop) l.number
  · rw [List.filter_append, Finding.filter_malformed hreported, List.nil_append]
    split <;> rfl

/-- Three lines without a final end of line, an inverted mapping and one of an unknown kind. -/
def unmapped : Gen2.Result where
  stream := { tokens := some [⟨"a\n\nb", ⟨0, 4⟩⟩] }
  diagnostics := some [⟨"careful", 2, none⟩]
  mappings := some [⟨⟨3, 1⟩, ⟨2, 0, ⟨0, 1⟩⟩⟩, ⟨⟨0, 4⟩, ⟨9, 0, ⟨0, 1⟩⟩⟩]

def selectSources : FileSet := ⟨#[⟨0, "/lib.cairo", "\nsel!(1)", .virtual, #[0]⟩], ∅⟩

def selectBelow : InlineCall :=
  (InlineCall.parse 0 1 "sel!(1)").toOption.getD default

/-- The same text from a server that knows no mappings. -/
def unmappedFirst : Gen1.Result := { stream := { value := "a\n\nb" } }

theorem perform_traceable_lines :
    let made := (bare.perform (replying unmapped) selectPackage Fleet.replaceContext (.onCall selectBelow)).2
    let madeFirst := (bare.perform (replyingFirst unmappedFirst) { selectPackage with generation := .first }
      Fleet.replaceContext (.onCall selectBelow)).2
    made.diagnostics.map (·.message) =
        [Text.ofString "careful",
          "macro inline_proc_macro returned 2 malformed code mappings; they were ignored"] ∧
      (∃ file, made.code = some file ∧ file.content = "a\n\nb" ∧
        file.origins selectSources 0 = "//   gen:1 -> /lib.cairo:2:1\n//   gen:3 -> /lib.cairo:2:1\n" ∧
        Mapping.bestSource file.mappings ⟨4, 4⟩ = .ok (some ⟨1, 8⟩)) ∧
      madeFirst.diagnostics = [] ∧ madeFirst.code.map (·.content) = some "a\n\nb" ∧
      ∃ file, madeFirst.code = some file ∧ Mapping.bestSource file.mappings ⟨0, 4⟩ = .ok (some ⟨1, 8⟩) := by
  let firstPackage : Package := { selectPackage with generation := .first }
  let request : Expansion := .inline (selectPackage.inlineRequest Fleet.replaceContext selectBelow)
  have hrequest (p : Package) (hp : p.name = selectPackage.name) :
      (PluginJob.onCall selectBelow).request? p Fleet.replaceContext = some request := by
    simp only [PluginJob.request?, Package.inlineRequest, hp, request]
  have hanswer : (bare.expand (replying unmapped) .second request).2 = some unmapped := by decide +kernel
  have hanswerFirst : (bare.expand (replyingFirst unmappedFirst) .first request).2 =
      some unmappedFirst.upgrade := by decide +kernel
  have hunmapped : (Answer.second unmapped).Unmapped := by
    unfold Answer.Unmapped
    decide +kernel
  have htext : (Answer.second unmapped).text = "a\n\nb" := by decide +kernel
  have htextFirst : (Answer.first unmappedFirst).text = "a\n\nb" := rfl
  have hcallSite : request.callSite = ⟨1, 8⟩ := by decide +kernel
  obtain ⟨name, site, file, own, -, hsite, hcode, hcontent, htranslated, horigins, -, -, -⟩ :=
    perform_traceable (a := .second unmapped) (hrequest selectPackage rfl) hanswer (.refl unmapped) hunmapped
      (by rw [htext]; decide) (by rw [htext]; decide)
  obtain ⟨-, siteFirst, fileFirst, ownFirst, -, hsiteFirst, hcodeFirst, hcontentFirst, htranslatedFirst, -⟩ :=
    perform_traceable (a := .first unmappedFirst) (hrequest firstPackage rfl) hanswerFirst (.refl _)
      (List.forall_mem_nil _) (by rw [htextFirst]; decide) (by rw [htextFirst]; decide)
  have hspan : site.span = ⟨1, 8⟩ := hsite.symm.trans hcallSite
  have hspanFirst : siteFirst.span = ⟨1, 8⟩ := hsiteFirst.symm.trans hcallSite
  refine ⟨by decide +kernel, ⟨file, hcode, hcontent.trans htext, ?_, ?_⟩, by decide +kernel,
    by decide +kernel, fileFirst, hcodeFirst, ?_⟩
  · rw [horigins, hspan, htext]
    decide +kernel
  · rw [← hspan]
    exact htranslated 4 4 le_rfl (by rw [hcontent, htext]; decide)
  · rw [← hspanFirst]
    exact htranslatedFirst 0 4 (by decide) (by rw [hcontentFirst, htextFirst]; decide)

end Workspace

end MacroRelay
