import MacroRelay.Proofs.Session.Answers
import MacroRelay.Relay.Batch

/-!
# What a file asks for

Expanding a text comes to a list of jobs, performed one after the other, and an ending. Both are read
off the text before anything is asked. In another file the same text gives the same plan there.
-/

namespace MacroRelay

/-- Jobs, and what is reported after them. -/
structure Plan where
  jobs : List (Package × PluginJob) := []
  ending : Except ExpandError (List Generated)

namespace Plan

def jobsOf (item : Item) (suite : PackageSuite) : List (Package × PluginJob) :=
  suite.plugins.map fun plugin => (plugin.handler, .onItem item)

def ofAttribute (suites : List PackageSuite) (item : Item) : Plan :=
  match Relay.attributeSuite? suites item with
  | none => { ending := .error .noAttribute }
  | some suite => { jobs := jobsOf item suite, ending := .ok [] }

def declared? (item : Item) (suite : PackageSuite) : Option Attribute :=
  item.attributes.find? fun a => suite.recognizes a.name

def ofDerives (suites : List PackageSuite) (item : Item) : Plan where
  jobs := (suites.takeWhile fun suite => (declared? item suite).isNone).flatMap (jobsOf item)
  ending := match suites.findSome? (declared? item) with
    | some a => .error (.carriesAttribute a.name)
    | none => .ok [{ diagnostics := Relay.derivesUnknownTo suites item }]

def ofCall (suites : List PackageSuite) (inline : InlineCall) : Plan :=
  match suites.findSome? (·.inline? inline.name) with
  | none => { ending := .error (.noInline inline.name) }
  | some p => { jobs := [(p, .onCall inline)], ending := .ok [] }

def following {α : Type} (parsed : Except ParseError α)
    (suites : Except ExpandError (List PackageSuite)) (plan : List PackageSuite → α → Plan) : Plan :=
  match parsed, suites with
  | .error e, _ => { ending := .error (.unparsed e) }
  | _, .error e => { ending := .error e }
  | .ok a, .ok suites => plan suites a

def ofText (o : ExpandOptions) (suites : List (Text × PackageSuite)) (file : FileId) (text : Text) :
    Plan :=
  let suites := Relay.consulted suites o.package
  match o.mode with
  | .inline => following (InlineCall.parse file 0 text) suites ofCall
  | .attr => following (Item.parse file 0 text) suites ofAttribute
  | .derive => following (Item.parse file 0 text) suites ofDerives

end Plan

namespace Relay

variable {σ κ : Type} {call : Caller σ κ} {c : PluginContext} {item : Item}

theorem performAll_append (jobs more : List (Package × PluginJob)) (w : Workspace σ κ) :
    Workspace.performAll call c (jobs ++ more) w =
      let (w, made) := Workspace.performAll call c jobs w
      let (w, rest) := Workspace.performAll call c more w
      (w, made ++ rest) := by
  induction jobs generalizing w with
  | nil => rfl
  | cons job jobs ih => simp only [List.cons_append, Workspace.performAll, ih]

theorem runPlugins_eq (suite : PackageSuite) (w : Workspace σ κ) :
    runPlugins call suite c item w = Workspace.performAll call c (Plan.jobsOf item suite) w := by
  have honto (plugins : List (Plugin Package)) (w : Workspace σ κ) (made : List Generated) :
      plugins.foldl (fun done p =>
          ((done.1.expandItem call p.handler c item).1,
            done.2 ++ [(done.1.expandItem call p.handler c item).2])) (w, made) =
        (Workspace.performAll call c
          (plugins.map fun plugin => (plugin.handler, .onItem item)) w).map id (made ++ ·) := by
    induction plugins generalizing w made with
    | nil => simp [Workspace.performAll]
    | cons plugin plugins ih =>
      rw [List.foldl_cons, ih]
      simp [Workspace.performAll, Workspace.perform, Prod.map]
  exact honto suite.plugins w []

theorem runDerives_eq (suites : List PackageSuite) (w : Workspace σ κ) :
    runDerives call c item suites w =
      let (w, made) := Workspace.performAll call c
        ((suites.takeWhile fun suite => (Plan.declared? item suite).isNone).flatMap
          (Plan.jobsOf item)) w
      (w, match suites.findSome? (Plan.declared? item) with
        | some a => .error (.carriesAttribute a.name)
        | none => .ok made) := by
  induction suites generalizing w with
  | nil => rfl
  | cons suite rest ih =>
    rw [runDerives]
    cases hdeclared : Plan.declared? item suite with
    | some a =>
      rw [Plan.declared?] at hdeclared
      simp [hdeclared, Plan.declared?, Workspace.performAll]
    | none =>
      have hfind := hdeclared
      rw [Plan.declared?] at hfind
      simp only [hfind, runPlugins_eq, ih, List.takeWhile_cons, hdeclared, Option.isNone_none, if_true,
        List.flatMap_cons, performAll_append, List.findSome?_cons]
      cases rest.findSome? (Plan.declared? item) <;> rfl

def follow (call : Caller σ κ) (c : PluginContext) (plan : Plan) (w : Workspace σ κ) :
    Workspace σ κ × Except ExpandError (List Generated) :=
  let (w, made) := Workspace.performAll call c plan.jobs w
  (w, plan.ending.map (made ++ ·))

theorem expandAttribute_eq (suites : List PackageSuite) (w : Workspace σ κ) :
    expandAttribute call suites c item w = follow call c (.ofAttribute suites item) w := by
  unfold expandAttribute Plan.ofAttribute
  cases attributeSuite? suites item with
  | none => rfl
  | some suite => simp [runPlugins_eq, follow, Except.map]

theorem expandDerives_eq (suites : List PackageSuite) (w : Workspace σ κ) :
    expandDerives call suites c item w = follow call c (.ofDerives suites item) w := by
  simp only [expandDerives, runDerives_eq, follow, Plan.ofDerives]
  cases suites.findSome? (Plan.declared? item) <;> rfl

theorem expandInline_eq (suites : List PackageSuite) (inline : InlineCall) (w : Workspace σ κ) :
    expandInline call suites c inline w = follow call c (.ofCall suites inline) w := by
  unfold expandInline Plan.ofCall
  cases suites.findSome? (·.inline? inline.name) with
  | none => rfl
  | some p => rfl

theorem follow_following {α : Type} (parsed : Except ParseError α)
    (suites : Except ExpandError (List PackageSuite)) (plan : List PackageSuite → α → Plan)
    (w : Workspace σ κ) :
    follow call c (.following parsed suites plan) w =
      match parsed, suites with
      | .error e, _ => (w, .error (.unparsed e))
      | _, .error e => (w, .error e)
      | .ok a, .ok suites => follow call c (plan suites a) w := by
  cases parsed <;> cases suites <;> rfl

theorem expandText_eq (o : ExpandOptions) (suites : List (Text × PackageSuite)) (sources : FileSet)
    (file : FileId) (text : Text) (w : Workspace σ κ) :
    expandText call o suites sources file text w =
      follow call (PluginJob.context sources o.edition) (.ofText o suites file text) w := by
  unfold expandText Plan.ofText
  cases o.mode with
  | «inline» =>
    simp only [follow_following, expandInline_eq]
    cases InlineCall.parse file 0 text <;> cases consulted suites o.package <;> rfl
  | attr =>
    simp only [follow_following, expandAttribute_eq, if_true]
    cases Item.parse file 0 text <;> cases consulted suites o.package <;> rfl
  | «derive» =>
    simp only [follow_following, expandDerives_eq, reduceCtorEq, if_false]
    cases Item.parse file 0 text <;> cases consulted suites o.package <;> rfl

end Relay

-- ---------------------------------------------------------------------------
-- The same text in another file
-- ---------------------------------------------------------------------------

def ExpandError.relabel (g : Relabelling) : ExpandError → ExpandError
  | .unparsed e => .unparsed (e.relabel g)
  | e => e

namespace Plan

def into (file : FileId) (plan : Plan) : Plan where
  jobs := plan.jobs.map fun (p, job) => (p, job.relabel (.into file))
  ending := (plan.ending.map (List.map (Generated.inFile file))).mapError (·.relabel (.into file))

variable {file file' : FileId}

theorem declared?_relabel (item : Item) (g : Relabelling) (suite : PackageSuite) :
    declared? (item.relabel g) suite = (declared? item suite).map (Attribute.relabel g) := by
  rw [declared?, Item.relabel, List.find?_map]
  rfl

theorem jobsOf_into (item : Item) (suite : PackageSuite) :
    jobsOf (item.relabel (.into file)) suite =
      (jobsOf item suite).map fun (p, job) => (p, job.relabel (.into file)) := by
  simp [jobsOf, PluginJob.relabel, Function.comp_def]

theorem ofAttribute_into (suites : List PackageSuite) (item : Item) :
    ofAttribute suites (item.relabel (.into file)) = (ofAttribute suites item).into file := by
  have hsuite : Relay.attributeSuite? suites (item.relabel (.into file)) =
      Relay.attributeSuite? suites item := by
    simp only [Relay.attributeSuite?, Item.relabel, List.findSome?_map, Function.comp_def]
    rfl
  unfold ofAttribute
  rw [hsuite]
  cases Relay.attributeSuite? suites item with
  | none => rfl
  | some suite => simp [into, jobsOf_into, Except.map, Except.mapError]

theorem derivesUnknownTo_into (suites : List PackageSuite) {item : Item} (h : item.Whole) :
    Relay.derivesUnknownTo suites (item.relabel (.into file)) =
      (Relay.derivesUnknownTo suites item).map (Diagnostic.inFile file) := by
  simp only [Relay.derivesUnknownTo, Item.relabel, List.flatMap_map, List.map_flatMap,
    Attribute.relabel_deriveNames, List.map_map]
  refine List.flatMap_congr fun a ha => List.map_congr_left fun name _ => ?_
  have hsite : (a.relabel (.into file)).node.pointer.span = ⟨file, a.node.pointer.span.span⟩ :=
    (h.attributes a ha).node.span_into file
  simp [Diagnostic.unknownDerive, Diagnostic.inFile, hsite]

theorem ofDerives_into (suites : List PackageSuite) {item : Item} (h : item.Whole) :
    ofDerives suites (item.relabel (.into file)) = (ofDerives suites item).into file := by
  have hdeclared := funext (declared?_relabel item (.into file))
  have hfound : suites.findSome? (declared? (item.relabel (.into file))) =
      (suites.findSome? (declared? item)).map (Attribute.relabel (.into file)) := by
    rw [hdeclared]
    exact List.map_findSome?.symm
  unfold ofDerives into
  rw [hfound, derivesUnknownTo_into suites h]
  congr 1
  · simp only [hdeclared, Option.isNone_map, funext (jobsOf_into item), List.map_flatMap]
  · cases suites.findSome? (declared? item) <;> rfl

theorem ofCall_into (suites : List PackageSuite) (inline : InlineCall) :
    ofCall suites (inline.relabel (.into file)) = (ofCall suites inline).into file := by
  unfold ofCall
  change (match suites.findSome? (·.inline? inline.name) with | none => _ | some p => _) = _
  cases suites.findSome? (·.inline? inline.name) <;> rfl

theorem relabel_of_consulted {suites : List (Text × PackageSuite)} {package : Text} {e : ExpandError}
    (h : Relay.consulted suites package = .error e) (g : Relabelling) : e.relabel g = e := by
  unfold Relay.consulted at h
  split at h
  · cases h
  · split at h
    · cases h
    · cases h
      rfl

theorem following_into {α : Type} {move : Relabelling → α → α} {parsed : Except ParseError α}
    {plan : List PackageSuite → α → Plan} (suites : List (Text × PackageSuite)) (package : Text)
    (h : ∀ a, parsed = .ok a → ∀ suites,
      plan suites (move (.into file) a) = (plan suites a).into file) :
    following ((Relabelling.into file).parsed move parsed) (Relay.consulted suites package) plan =
      (following parsed (Relay.consulted suites package) plan).into file := by
  cases parsed with
  | error e => rfl
  | ok a =>
    cases hsuites : Relay.consulted suites package with
    | error e => simp [following, into, Except.map, Except.mapError, relabel_of_consulted hsuites]
    | ok suites => exact h a rfl suites

theorem ofText_into (o : ExpandOptions) (suites : List (Text × PackageSuite)) (file file' : FileId)
    (text : Text) : ofText o suites file' text = (ofText o suites file text).into file' := by
  unfold ofText
  cases o.mode with
  | «inline» =>
    dsimp only
    rw [InlineCall.parse_into file]
    exact following_into _ _ fun call _ suites => ofCall_into suites call
  | attr =>
    dsimp only
    rw [Item.parse_into file]
    exact following_into _ _ fun item _ suites => ofAttribute_into suites item
  | «derive» =>
    dsimp only
    rw [Item.parse_into file]
    exact following_into _ _ fun item h suites => ofDerives_into suites (Item.parse_whole h)

theorem following_whole {α : Type} {parsed : Except ParseError α}
    {suites : Except ExpandError (List PackageSuite)} {plan : List PackageSuite → α → Plan}
    (h : ∀ a, parsed = .ok a → ∀ suites, ∀ job ∈ (plan suites a).jobs, job.2.Whole) :
    ∀ job ∈ (following parsed suites plan).jobs, job.2.Whole := by
  cases parsed with
  | error e => simp [following]
  | ok a =>
    cases suites with
    | error e => simp [following]
    | ok suites => exact h a rfl suites

theorem jobsOf_whole {item : Item} (h : item.Whole) (suite : PackageSuite) :
    ∀ job ∈ jobsOf item suite, job.2.Whole := by
  intro job hjob
  obtain ⟨plugin, -, rfl⟩ := List.mem_map.mp hjob
  exact h

theorem ofText_whole (o : ExpandOptions) (suites : List (Text × PackageSuite)) (file : FileId)
    (text : Text) : ∀ job ∈ (ofText o suites file text).jobs, job.2.Whole := by
  unfold ofText
  cases o.mode with
  | «inline» =>
    refine following_whole fun call hparse suites job hjob => ?_
    unfold ofCall at hjob
    split at hjob
    · cases hjob
    · rw [List.mem_singleton.mp hjob]
      exact InlineCall.parse_whole hparse
  | attr =>
    refine following_whole fun item hparse suites job hjob => ?_
    unfold ofAttribute at hjob
    split at hjob
    · cases hjob
    · exact jobsOf_whole (Item.parse_whole hparse) _ job hjob
  | «derive» =>
    refine following_whole fun item hparse suites job hjob => ?_
    obtain ⟨suite, -, hjob⟩ := List.mem_flatMap.mp hjob
    exact jobsOf_whole (Item.parse_whole hparse) suite job hjob

def outcome {σ κ : Type} (S : Generation → Key → Gen2.Result) (w : Workspace σ κ) (c : PluginContext)
    (plan : Plan) : Except ExpandError (List Generated) :=
  plan.ending.map ((plan.jobs.map fun job => w.outcome S job.1 c job.2) ++ ·)

theorem outcome_into {σ κ : Type} {S : Generation → Key → Gen2.Result} {plan : Plan}
    (h : ∀ job ∈ plan.jobs, job.2.Whole) (w : Workspace σ κ) (files files' : FileSet) (edition : Text) :
    (plan.into file).outcome S w (PluginJob.context files' edition) =
      ((plan.outcome S w (PluginJob.context files edition)).map
        (List.map (Generated.inFile file))).mapError (·.relabel (.into file)) := by
  obtain ⟨jobs, ending⟩ := plan
  cases ending with
  | error e => rfl
  | ok more =>
    have hjobs : jobs.map (fun job =>
          w.outcome S job.1 (PluginJob.context files' edition) (job.2.relabel (.into file))) =
        jobs.map fun job =>
          (w.outcome S job.1 (PluginJob.context files edition) job.2).inFile file :=
      List.map_congr_left fun job hjob => w.outcome_into (h job hjob) job.1 files files' edition file
    simp [outcome, into, Except.map, Except.mapError, hjobs, Function.comp_def]

theorem ofText_outcome {σ κ : Type} {S : Generation → Key → Gen2.Result} (o : ExpandOptions)
    (suites : List (Text × PackageSuite)) (text : Text) (file file' : FileId) (files files' : FileSet)
    (edition : Text) (w : Workspace σ κ) :
    (ofText o suites file' text).outcome S w (PluginJob.context files' edition) =
      (((ofText o suites file text).outcome S w (PluginJob.context files edition)).map
        (List.map (Generated.inFile file'))).mapError (·.relabel (.into file')) := by
  rw [ofText_into o suites file file', outcome_into (ofText_whole o suites file text)]

theorem ofText_path_lt {o : ExpandOptions} {suites : List (Text × PackageSuite)} {text : Text}
    {files : FileSet} {edition : Text} {job : Package × PluginJob}
    (hjob : job ∈ (ofText o suites file text).jobs) {e : Expansion}
    (he : e ∈ job.2.request? job.1 (PluginJob.context files edition)) (hfits : e.Fits) :
    (files.filePath file).length < 2 ^ 32 := by
  have hwhole := ofText_whole o suites file text
  rw [ofText_into o suites file file] at hjob
  obtain ⟨original, horiginal, rfl⟩ := List.mem_map.mp hjob
  rw [PluginJob.request_into (hwhole original horiginal) _ files] at he
  obtain ⟨e, -, rfl⟩ := Option.map_eq_some_iff.mp he
  exact hfits.path_lt

theorem ofText_expected {σ κ : Type} {asked : List Query} {o : ExpandOptions}
    {suites : List (Text × PackageSuite)} {text : Text} {files files' : FileSet} {edition : Text}
    {w : Workspace σ κ} (hpath : files'.filePath file' = files.filePath file)
    (h : ∀ job ∈ (ofText o suites file text).jobs,
      w.Expects asked (PluginJob.context files edition) job.1 job.2) :
    ∀ job ∈ (ofText o suites file' text).jobs,
      w.Expects asked (PluginJob.context files' edition) job.1 job.2 := by
  intro job hjob
  rw [ofText_into o suites file file'] at hjob
  obtain ⟨original, horiginal, rfl⟩ := List.mem_map.mp hjob
  refine (h original horiginal).into (ofText_whole o suites file text original horiginal) ?_
  intro e he
  rw [hpath]
  exact ofText_path_lt horiginal he (h original horiginal e he).1

end Plan

/-- Whatever was asked before, a plan comes to what the server's answers make of it. -/
theorem Relay.follow_answers {σ κ : Type} {call : Caller σ κ} {S : Generation → Key → Gen2.Result}
    {asked : List Query} {w : Workspace σ κ} {c : PluginContext} {plan : Plan}
    (hcall : AnswersBy S call) (htold : ToldApart asked) (hw : w.Ready S asked)
    (hasked : ∀ job ∈ plan.jobs, w.Expects asked c job.1 job.2) :
    (follow call c plan w).1.Ready S asked ∧ Workspace.Aside w (follow call c plan w).1 ∧
      (follow call c plan w).2 = plan.outcome S w c := by
  obtain ⟨hready, haside, hmade⟩ := Workspace.performAll_answers hcall htold hw hasked
  refine ⟨hready, haside, ?_⟩
  rw [Plan.outcome, ← hmade]
  rfl

end MacroRelay
