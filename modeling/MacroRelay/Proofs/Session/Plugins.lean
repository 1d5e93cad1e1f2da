import MacroRelay.Proofs.Cache.Footprint
import MacroRelay.Proofs.Session.Generations
import MacroRelay.Proofs.Tree.Relabelling

/-!
# What a plugin makes of an answer

A plugin sends at most one request, and what it makes of the answer is a function of the job. For
the same job in another file the request has the same key, and the outcome is the same in that file.
-/

namespace MacroRelay

-- ---------------------------------------------------------------------------
-- Requests from another file
-- ---------------------------------------------------------------------------

theorem FileId.length_decimal (file : FileId) : (Text.decimal file.toNat).length < 2 ^ 32 := by
  have hlt := file.toNat_lt
  have hdigits : (Nat.toDigits 10 file.toNat).length ≤ 10 :=
    (Nat.length_toDigits_le_iff (by decide) (by decide)).mpr (by omega)
  rw [Text.decimal, List.length_map]
  omega

def Gen2.Stream.elsewhere (path : Text) (file : FileId) (s : Gen2.Stream) : Gen2.Stream :=
  { s with metadata.path := path, metadata.fileId := Text.decimal file.toNat }

namespace Expansion

def elsewhere (path : Text) (file : FileId) : Expansion → Expansion
  | .attribute r =>
    .attribute { r with args := r.args.elsewhere path file, item := r.item.elsewhere path file }
  | .derive r => .derive { r with item := r.item.elsewhere path file }
  | .inline r => .inline { r with args := r.args.elsewhere path file }

variable {e : Expansion} {path : Text} {file : FileId}

@[simp] theorem key_elsewhere (e : Expansion) (path : Text) (file : FileId) :
    (e.elsewhere path file).key = e.key := by
  cases e <;> rfl

theorem streams_elsewhere (e : Expansion) (path : Text) (file : FileId) :
    (e.elsewhere path file).streams = e.streams.map (Gen2.Stream.elsewhere path file) := by
  cases e <;> rfl

theorem Fits.elsewhere (h : e.Fits) (hpath : path.length < 2 ^ 32) : (e.elsewhere path file).Fits := by
  refine ⟨by rw [key_elsewhere]; exact h.key, fun s hs => ?_⟩
  rw [streams_elsewhere] at hs
  obtain ⟨old, hold, rfl⟩ := List.mem_map.mp hs
  exact { h.streams old hold with path := hpath, fileId := file.length_decimal }

theorem Fits.path_lt (h : (e.elsewhere path file).Fits) : path.length < 2 ^ 32 := by
  obtain ⟨s, hs⟩ : ∃ s, s ∈ e.streams := by
    cases e <;> exact ⟨_, List.mem_cons_self⟩
  have hmoved := List.mem_map_of_mem (f := Gen2.Stream.elsewhere path file) hs
  rw [← streams_elsewhere] at hmoved
  exact (h.streams _ hmoved).path

end Expansion

-- ---------------------------------------------------------------------------
-- Jobs in another file
-- ---------------------------------------------------------------------------

namespace PluginJob

def relabel (g : Relabelling) : PluginJob → PluginJob
  | .onItem item => .onItem (item.relabel g)
  | .onCall call => .onCall (call.relabel g)

def Whole : PluginJob → Prop
  | .onItem item => item.Whole
  | .onCall call => call.Whole

abbrev context (files : FileSet) (edition : Text) : PluginContext := { files, edition }

end PluginJob

variable {file : FileId} {files files' : FileSet} {edition : Text}

theorem Gen2.Stream.tokensOf_relabel (t : Token) :
    tokensOf (t.relabel (.into file)) = tokensOf t := by
  simp only [tokensOf, Token.relabel, Trivia.relabel, Relabelling.into, List.map_map,
    Function.comp_def]
  rfl

theorem Node.Whole.stream_into {n : Node} (h : n.Whole) (files files' : FileSet) (edition : Text)
    (file : FileId) :
    Gen2.Stream.ofNode (some files') (n.relabel (.into file)) edition =
      (Gen2.Stream.ofNode (some files) n edition).elsewhere (files'.filePath file) file := by
  have hfile : (n.relabel (.into file)).file = file := congrArg FileSpan.file (h.span_into file)
  simp [Gen2.Stream.ofNode, Gen2.Stream.elsewhere, hfile, List.flatMap_map,
    Gen2.Stream.tokensOf_relabel]

theorem Item.find?_relabel (item : Item) (g : Relabelling) (p : Package) :
    (item.relabel g).attributes.find? p.handlesAttribute =
      (item.attributes.find? p.handlesAttribute).map (Attribute.relabel g) := by
  rw [Item.relabel, List.find?_map]
  rfl

theorem Package.derivesOn_relabel (p : Package) (item : Item) (g : Relabelling) :
    p.derivesOn (item.relabel g) =
      ((p.derivesOn item).1, (p.derivesOn item).2.map (Attribute.relabel g)) := by
  have hnamed : ((item.relabel g).attributes.flatMap fun a => a.deriveNames.map fun name => (name, a)) =
      (item.attributes.flatMap fun a => a.deriveNames.map fun name => (name, a)).map
        fun named => (named.1, named.2.relabel g) := by
    simp [Item.relabel, List.flatMap_map, List.map_flatMap, Function.comp_def]
  simp only [derivesOn, hnamed, List.filter_map, List.map_map, List.head?_map, Option.map_map,
    Function.comp_def]

theorem Package.attributeRequest_into (p : Package) {item : Item} {a : Attribute} (h : item.Whole)
    (ha : a ∈ item.attributes) :
    Expansion.attribute (p.attributeRequest (PluginJob.context files' edition)
        (item.relabel (.into file)) (a.relabel (.into file))) =
      (Expansion.attribute (p.attributeRequest (PluginJob.context files edition) item a)).elsewhere
        (files'.filePath file) file := by
  have hitem := (h.without a ha).stream_into files files' edition file
  have hsite : CallSite.of (a.relabel (.into file)).node = ⟨file, (CallSite.of a.node).span⟩ :=
    (h.attributes a ha).node.span_into file
  have hfile : (item.relabel (.into file)).node.file = file :=
    congrArg FileSpan.file (h.node.span_into file)
  have hargs : Gen2.Stream.ofNode (some files') ((a.relabel (.into file)).args.getD
        ⟨⟨.attributeArgs, file, 0, 0⟩, []⟩) edition =
      (Gen2.Stream.ofNode (some files) (a.args.getD
        ⟨⟨.attributeArgs, item.node.file, 0, 0⟩, []⟩) edition).elsewhere (files'.filePath file)
          file := by
    rw [Attribute.relabel]
    cases hcase : a.args with
    | none => rfl
    | some args => exact ((h.attributes a ha).args args hcase).stream_into files files' edition file
  simp only [attributeRequest, PluginContext.stream, Expansion.elsewhere, hfile, hargs, hsite,
    Item.relabel_without, hitem]
  rfl

theorem Package.deriveRequest_into (p : Package) {item : Item} {a : Attribute} (h : item.Whole)
    (ha : a ∈ item.attributes) (names : List Text) :
    Expansion.derive (p.deriveRequest (PluginJob.context files' edition)
        (item.relabel (.into file)) names (a.relabel (.into file))) =
      (Expansion.derive (p.deriveRequest (PluginJob.context files edition) item names a)).elsewhere
        (files'.filePath file) file := by
  have hitem := h.node.stream_into files files' edition file
  have hsite : CallSite.of (a.relabel (.into file)).node = ⟨file, (CallSite.of a.node).span⟩ :=
    (h.attributes a ha).node.span_into file
  simp only [deriveRequest, PluginContext.stream, Expansion.elsewhere, hsite]
  rw [← hitem]
  rfl

theorem Package.mem_of_derivesOn {p : Package} {item : Item} {names : List Text} {a : Attribute}
    (h : p.derivesOn item = (names, some a)) : a ∈ item.attributes := by
  obtain ⟨-, hhead⟩ := Prod.mk.inj h
  obtain ⟨pair, hpair, rfl⟩ := Option.map_eq_some_iff.mp hhead
  obtain ⟨hmem, -⟩ := List.mem_filter.mp (List.mem_of_head? hpair)
  obtain ⟨b, hb, hpair⟩ := List.mem_flatMap.mp hmem
  obtain ⟨name, -, rfl⟩ := List.mem_map.mp hpair
  exact hb

theorem PluginJob.request_into {job : PluginJob} (h : job.Whole) (p : Package)
    (files files' : FileSet) (edition : Text) (file : FileId) :
    (job.relabel (.into file)).request? p (context files' edition) =
      (job.request? p (context files edition)).map (·.elsewhere (files'.filePath file) file) := by
  cases job with
  | onItem item =>
    simp only [relabel, request?, Item.find?_relabel, Package.derivesOn_relabel]
    cases hfind : item.attributes.find? p.handlesAttribute with
    | some a =>
      exact congrArg some (p.attributeRequest_into h (List.mem_of_find?_eq_some hfind))
    | none =>
      cases hderives : p.derivesOn item with
      | mk names found =>
        cases found with
        | none => rfl
        | some a =>
          exact congrArg some (p.deriveRequest_into h (Package.mem_of_derivesOn hderives) names)
  | onCall call =>
    have hargs := h.args.stream_into files files' edition file
    have hsite : CallSite.of (call.relabel (.into file)).node = ⟨file, (CallSite.of call.node).span⟩ :=
      h.node.span_into file
    simp only [relabel, request?, Option.map_some, Expansion.elsewhere, Package.inlineRequest,
      PluginContext.stream, hsite, ← hargs]
    rfl

-- ---------------------------------------------------------------------------
-- Outcomes
-- ---------------------------------------------------------------------------

def Diagnostic.inFile (file : FileId) (d : Diagnostic) : Diagnostic :=
  { d with primary.file := file }

/-- Mappings do not name files, diagnostics do. -/
def Generated.inFile (file : FileId) (g : Generated) : Generated :=
  { g with diagnostics := g.diagnostics.map (Diagnostic.inFile file) }

theorem Generated.ofAnswer_into (name : Text) (r : Gen2.Result) (site : CallSite) (file : FileId) :
    (Generated.ofAnswer name r ⟨file, site.span⟩).1 =
      (Generated.ofAnswer name r site).1.inFile file := by
  have hdiagnostics : r.diagnostics.items.map (Gen2.Diagnostic.toHost ⟨file, site.span⟩) =
      (r.diagnostics.items.map (Gen2.Diagnostic.toHost site)).map (Diagnostic.inFile file) := by
    rw [List.map_map]
    refine List.map_congr_left fun d _ => ?_
    simp only [Gen2.Diagnostic.toHost, Diagnostic.inFile, Function.comp_apply]
    cases d.span with
    | none => rfl
    | some span => dsimp only; split <;> rfl
  have hwarnings (n : Nat) : (if n = 0 then [] else [droppedWarning name ⟨file, site.span⟩ n]) =
      (if n = 0 then [] else [droppedWarning name site n]).map (Diagnostic.inFile file) := by
    split <;> rfl
  simp only [Generated.ofAnswer, hdiagnostics, hwarnings, ← List.map_append]
  split <;> rfl

theorem Generated.ofAnswer_alike {r r' : Gen2.Result} (h : r.Alike r') (name : Text) (site : CallSite) :
    Generated.ofAnswer name r site = Generated.ofAnswer name r' site := by
  have htext : r.stream.text = r'.stream.text := by
    rw [Gen2.Stream.text, Gen2.Stream.text, h.tokens]
  simp only [Generated.ofAnswer, htext, h.diagnostics, h.mappings]

namespace PluginJob

def conclude (p : Package) (r : Gen2.Result) : PluginJob → Generated
  | .onItem item =>
    match item.attributes.find? p.handlesAttribute with
    | some a =>
      let g := (Generated.ofAnswer ("proc_macro_" ++ a.name) r (CallSite.of a.node)).1
      let tag (f : GeneratedFile) : GeneratedFile :=
        { f with executable := if p.isExecutable a.name then some a.name else none }
      { g with code := g.code.map tag, removesItem := true }
    | none =>
      match p.derivesOn item with
      | (_, some a) => (Generated.ofAnswer "proc_macro_derive" r (CallSite.of a.node)).1
      | (_, none) => {}
  | .onCall inline =>
    let site := CallSite.of inline.node
    let g := (Generated.ofAnswer "inline_proc_macro" r site).1
    if g.code.isNone && !Diagnostic.hasErrors g.diagnostics then
      { g with diagnostics := g.diagnostics ++ [Generated.nothingError inline.name site] }
    else g

variable {job : PluginJob} {p : Package}

theorem conclude_alike {r r' : Gen2.Result} (h : r.Alike r') (p : Package) (job : PluginJob) :
    job.conclude p r = job.conclude p r' := by
  cases job <;> simp only [conclude, Generated.ofAnswer_alike h]

theorem conclude_into (h : job.Whole) (p : Package) (r : Gen2.Result) (file : FileId) :
    (job.relabel (.into file)).conclude p r = (job.conclude p r).inFile file := by
  cases job with
  | onItem item =>
    have hsite {a : Attribute} (ha : a ∈ item.attributes) :
        CallSite.of (a.relabel (.into file)).node = ⟨file, (CallSite.of a.node).span⟩ :=
      (h.attributes a ha).node.span_into file
    simp only [relabel, conclude, Item.find?_relabel, Package.derivesOn_relabel]
    cases hfind : item.attributes.find? p.handlesAttribute with
    | some a =>
      simp only [Option.map_some, hsite (List.mem_of_find?_eq_some hfind), Generated.ofAnswer_into]
      rfl
    | none =>
      cases hderives : p.derivesOn item with
      | mk names found =>
        cases found with
        | none => rfl
        | some a =>
          simp only [Option.map_some, Option.map_none, hsite (Package.mem_of_derivesOn hderives),
            Generated.ofAnswer_into]
  | onCall call =>
    have hsite : CallSite.of (call.relabel (.into file)).node = ⟨file, (CallSite.of call.node).span⟩ :=
      h.node.span_into file
    have herrors (ds : List Diagnostic) :
        Diagnostic.hasErrors (ds.map (Diagnostic.inFile file)) = Diagnostic.hasErrors ds := by
      rw [Diagnostic.hasErrors, List.any_map]
      rfl
    simp only [relabel, conclude, hsite, Generated.ofAnswer_into]
    generalize (Generated.ofAnswer "inline_proc_macro" r (CallSite.of call.node)).1 = g
    simp only [Generated.inFile, herrors]
    split
    · simp [Generated.nothingError, Diagnostic.inFile, InlineCall.relabel]
    · rfl

end PluginJob

namespace Workspace

variable {σ κ : Type} {call : Caller σ κ} {p : Package} {c : PluginContext} {job : PluginJob}

theorem generated_eq (w : Workspace σ κ) (name : Text) (r : Gen2.Result) (site : CallSite) :
    ∃ trace, w.generated name r site = ({ w with trace }, (Generated.ofAnswer name r site).1) := by
  unfold generated
  generalize Generated.ofAnswer name r site = out
  obtain ⟨g, dropped⟩ := out
  dsimp only
  split
  · exact ⟨w.trace, rfl⟩
  · exact ⟨_, rfl⟩

theorem perform_of_none (h : job.request? p c = none) (w : Workspace σ κ) :
    w.perform call p c job = (w, {}) := by
  cases job with
  | onItem item =>
    simp only [PluginJob.request?] at h
    simp only [perform, expandItem]
    cases ha : item.attributes.find? p.handlesAttribute with
    | some a =>
      rw [ha] at h
      cases h
    | none =>
      rw [ha] at h
      cases hderives : p.derivesOn item with
      | mk names found =>
        rw [hderives] at h
        cases found with
        | some a => cases h
        | none => rfl
  | onCall call => cases h

theorem perform_of_some {e : Expansion} (call : Caller σ κ) (h : job.request? p c = some e)
    (w : Workspace σ κ) :
    ∃ trace, w.perform call p c job = ({ (w.expand call p.generation e).1 with trace },
      (w.expand call p.generation e).2.elim {} fun r => job.conclude p r) := by
  cases job with
  | onItem item =>
    simp only [PluginJob.request?] at h
    simp only [perform, expandItem, PluginJob.conclude]
    cases ha : item.attributes.find? p.handlesAttribute with
    | some a =>
      rw [ha] at h
      cases h
      simp only [expandAttribute]
      generalize w.expand call p.generation _ = out
      obtain ⟨w', _ | r⟩ := out
      · exact ⟨w'.trace, rfl⟩
      · obtain ⟨trace, hg⟩ := w'.generated_eq ("proc_macro_" ++ a.name) r (CallSite.of a.node)
        simp only [hg]
        exact ⟨trace, rfl⟩
    | none =>
      rw [ha] at h
      cases hderives : p.derivesOn item with
      | mk names found =>
        rw [hderives] at h
        cases found with
        | none => cases h
        | some a =>
          cases h
          simp only [expandDerives]
          generalize w.expand call p.generation _ = out
          obtain ⟨w', _ | r⟩ := out
          · exact ⟨w'.trace, rfl⟩
          · obtain ⟨trace, hg⟩ := w'.generated_eq "proc_macro_derive" r (CallSite.of a.node)
            simp only [hg]
            exact ⟨trace, rfl⟩
  | onCall inline =>
    cases h
    simp only [perform, expandInline]
    generalize w.expand call p.generation _ = out
    obtain ⟨w', _ | r⟩ := out
    · exact ⟨w'.trace, rfl⟩
    · obtain ⟨trace, hg⟩ := w'.generated_eq "inline_proc_macro" r (CallSite.of inline.node)
      simp only [hg, PluginJob.conclude, Option.elim_some]
      refine ⟨trace, ?_⟩
      split <;> rfl

end Workspace

end MacroRelay
