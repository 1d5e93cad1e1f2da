import MacroRelay.Proofs.Catalogue
import MacroRelay.Proofs.Expansion.Received
import MacroRelay.Proofs.Relay.Plan
import MacroRelay.Proofs.Session.Findings

/-!
# The attribute of an item that is expanded

The suites are asked first who declares which attribute of an item, and then the plugin of the chosen
suite looks for its attribute again. Both find the same one.
-/

namespace MacroRelay

/-- Of the attributes that any of the packages declares this is the first, and of the packages that
declare it this one has the first name. -/
structure Item.TakenBy (item : Item) (packages : List Package) (a : Attribute) (p : Package) : Prop where
  first : ∃ front behind, item.attributes = front ++ a :: behind ∧
    ∀ b ∈ front, ∀ q ∈ packages, ¬ q.Declares b.name
  consulted : p ∈ packages
  declares : p.Declares a.name
  foremost : ∀ q ∈ packages, q.Declares a.name → q = p ∨ p.name < q.name

/-- The request is about this attribute, and the item comes without it. -/
structure Gen2.AttributeRequest.IsFor (r : Gen2.AttributeRequest) (c : PluginContext) (item : Item)
    (a : Attribute) (p : Package) : Prop where
  context : r.context = c.scope item.node.file p.name
  attr : r.attr = a.name
  args : ∀ args ∈ a.args, r.args = c.stream args
  noArgs : a.args = none → r.args.text = []
  item : r.item = c.stream (item.without a)
  callSite : r.callSite = (CallSite.of a.node).span

theorem Package.attributeRequest_isFor (p : Package) (c : PluginContext) (item : Item) (a : Attribute) :
    (p.attributeRequest c item a).IsFor c item a p where
  context := rfl
  attr := rfl
  args args hargs := by rw [attributeRequest, Option.mem_def.mp hargs, Option.getD_some]
  noArgs hnone := by rw [attributeRequest, hnone, Option.getD_none]; rfl
  item := rfl
  callSite := rfl

def Item.taker? (item : Item) (packages : List Package) : Option Package :=
  item.attributes.findSome? fun a => packages.find? (·.handlesAttribute a)

namespace Item

variable {item : Item} {packages : List Package} {a : Attribute} {p : Package}

theorem find?_eq_none_iff : packages.find? (·.handlesAttribute a) = none ↔
    ∀ q ∈ packages, ¬ q.Declares a.name := by
  simp only [List.find?_eq_none, Package.handlesAttribute_iff]

theorem taker?_eq_none_iff : item.taker? packages = none ↔
    ∀ a ∈ item.attributes, ∀ p ∈ packages, ¬ p.Declares a.name := by
  simp only [taker?, List.findSome?_eq_none_iff, find?_eq_none_iff]

theorem takenBy_of_taker? (hordered : Catalogue.InOrder packages) (h : item.taker? packages = some p) :
    ∃ a, item.TakenBy packages a p := by
  obtain ⟨front, a, behind, hattributes, hfind, hfront⟩ := List.findSome?_eq_some_iff.mp h
  obtain ⟨hp, before, after, rfl, hbefore⟩ := List.find?_eq_some_iff_append.mp hfind
  refine ⟨a, ⟨front, behind, hattributes, fun b hb => find?_eq_none_iff.mp (hfront b hb)⟩,
    List.mem_append_right _ List.mem_cons_self, Package.handlesAttribute_iff.mp hp, fun q hq hdeclares => ?_⟩
  rcases List.mem_append.mp hq with hq | hq
  · exact absurd (Package.handlesAttribute_iff.mpr hdeclares) (by simpa using hbefore q hq)
  · refine (List.mem_cons.mp hq).imp_right fun hq => ?_
    exact (List.pairwise_cons.mp (List.pairwise_append.mp hordered).2.1).1 q hq

theorem TakenBy.find? (h : item.TakenBy packages a p) :
    item.attributes.find? p.handlesAttribute = some a := by
  obtain ⟨front, behind, hattributes, hfront⟩ := h.first
  refine List.find?_eq_some_iff_append.mpr
    ⟨Package.handlesAttribute_iff.mpr h.declares, front, behind, hattributes, fun b hb => ?_⟩
  rw [Bool.not_eq_true', ← Bool.not_eq_true]
  exact mt Package.handlesAttribute_iff.mp (hfront b hb p h.consulted)

theorem TakenBy.request? (h : item.TakenBy packages a p) (c : PluginContext) :
    (PluginJob.onItem item).request? p c = some (.attribute (p.attributeRequest c item a)) := by
  simp only [PluginJob.request?, h.find?]

theorem TakenBy.executable (h : item.TakenBy packages a p) (r : Gen2.Result) :
    ∀ file ∈ ((PluginJob.onItem item).conclude p r).code,
      file.executable = if a.name ∈ p.executables.items then some a.name else none := by
  intro file hfile
  simp only [PluginJob.conclude, h.find?] at hfile
  obtain ⟨plain, -, rfl⟩ := Option.map_eq_some_iff.mp hfile
  simp only [Package.isExecutable, List.contains_iff_mem]

end Item

namespace Relay

variable {σ κ : Type}

theorem attributeSuite?_installed (packages : List Package) (item : Item) :
    attributeSuite? (packages.map Package.installed) item =
      (item.taker? packages).map Package.installed := by
  have hrecognizes (a : Attribute) :
      (fun p : Package => p.installed.recognizes a.name) = (·.handlesAttribute a) := by
    funext p
    rw [Bool.eq_iff_iff, Package.recognizes_installed, Package.handlesAttribute_iff]
  simp only [attributeSuite?, Item.taker?, List.find?_map, Function.comp_def, hrecognizes,
    List.map_findSome?]

theorem expandAttribute_installed (call : Caller σ κ) (packages : List Package) (c : PluginContext)
    (item : Item) (w : Workspace σ κ) :
    expandAttribute call (packages.map Package.installed) c item w =
      match item.taker? packages with
      | none => (w, .error .noAttribute)
      | some p => (w.perform call p c (.onItem item)).map id fun made => .ok [made] := by
  rw [expandAttribute, attributeSuite?_installed]
  cases item.taker? packages with
  | none => rfl
  | some p => rfl

variable {entries : List Gen2.PackageEntry} {c : Catalogue} {filter : Text}

/-- One attribute of an item is expanded, the first that any consulted package declares, and by the
first package that does: the server gets the request for it, and nothing else. If there is none, nothing
is done. -/
theorem expandAttribute_takes (hc : Catalogue.ofEntries entries = .ok c) (hfilter : c.Knows filter) :
    ∃ suites chosen, c.suites = .ok suites ∧ consulted suites filter = .ok chosen ∧
      ∀ (call : Caller σ κ) (ctx : PluginContext) (item : Item) (w : Workspace σ κ),
        let out := expandAttribute call chosen ctx item w
        ((∃ e, out.2 = .error e) ↔
          ∀ a ∈ item.attributes, ∀ p ∈ c.consulted filter, ¬ p.Declares a.name) ∧
        (∀ e, out.2 = .error e → e = .noAttribute ∧ out.1 = w) ∧
        ∀ made, out.2 = .ok made → ∃ a p request trace, item.TakenBy (c.consulted filter) a p ∧
          request.IsFor ctx item a p ∧
          let asked := w.expand call p.generation (.attribute request)
          let g := asked.2.elim {} fun r => (PluginJob.onItem item).conclude p r
          out.1 = { asked.1 with trace } ∧ made = [g] ∧
            (∀ file ∈ g.code,
              file.executable = if a.name ∈ p.executables.items then some a.name else none) ∧
            ∀ file base text, Item.parse file base text = .ok item → text.length < 2 ^ 32 →
              ctx.Fits p →
                Workspace.Posted call w p.generation (.attribute request) out.1 asked.2 := by
  have hordered := (Catalogue.inOrder_of_ofEntries hc).consulted filter
  refine ⟨_, _, c.suites_eq, Catalogue.consulted_suites hfilter, fun call ctx item w => ?_⟩
  rw [expandAttribute_installed]
  cases htaker : item.taker? (c.consulted filter) with
  | none =>
    refine ⟨iff_of_true ⟨_, rfl⟩ (Item.taker?_eq_none_iff.mp htaker), fun e he => ?_, nofun⟩
    cases he
    exact ⟨rfl, rfl⟩
  | some p =>
    obtain ⟨a, htaken⟩ := Item.takenBy_of_taker? hordered htaker
    obtain ⟨trace, hperform⟩ := Workspace.perform_of_some call (htaken.request? ctx) w
    have hsome : item.taker? (c.consulted filter) ≠ none := by simp [htaker]
    dsimp only
    rw [hperform]
    refine ⟨iff_of_false nofun (mt Item.taker?_eq_none_iff.mpr hsome), nofun, fun made hmade => ?_⟩
    cases hmade
    refine ⟨a, p, _, trace, htaken, p.attributeRequest_isFor ctx item a, rfl, rfl, ?_, ?_⟩
    · cases (w.expand call p.generation (.attribute (p.attributeRequest ctx item a))).2 with
      | none => nofun
      | some r => exact htaken.executable r
    · intro file base text hparse htext hfits
      have hread : (PluginJob.onItem item).ReadFrom file base text := hparse
      have hsendable := PluginJob.sendable_of_request hread htext hfits (htaken.request? ctx)
      exact (Workspace.expand_posted call w p.generation hsendable).traced trace

/-- Three packages with names in common, one of them listed twice. -/
def sharedEntries : List Gen2.PackageEntry :=
  [{ package := "c", attributes := some ["run"] },
    { package := "b", attributes := some ["test", "run"], executables := some ["run", "run"] },
    { package := "a", attributes := some ["test"] },
    { package := "c", attributes := some ["other"], executables := some ["run"] }]

def sharedCatalogue : Catalogue :=
  (Catalogue.ofEntries sharedEntries).toOption.getD ⟨[]⟩

def sharedText : Text := "#[cfg] #[run(1)] #[test] fn f;"

def sharedItem : Item :=
  (Item.parse 0 0 sharedText).toOption.getD default

/-- Makes of everything what it was given. -/
def repeating : Macro
  | .attribute _ name args item => { text := name ++ args ++ " " ++ item }
  | .derive _ names item => { text := Text.joined " " names ++ " " ++ item }
  | .inline _ name args => { text := name ++ args }

theorem expandAttribute_takes_shared :
    ∃ suites chosen made file a p request answer, sharedCatalogue.suites = .ok suites ∧
      consulted suites [] = .ok chosen ∧
      let out := expandAttribute (speaking repeating .second) chosen Fleet.replaceContext sharedItem
        Workspace.bare
      out.2 = .ok [made] ∧ out.1.session.stats = { calls := 1 } ∧ made.code = some file ∧
      file.content = "run(1) #[cfg] #[test] fn f;" ∧ file.executable = some (Text.ofString "run") ∧
      sharedItem.TakenBy (sharedCatalogue.consulted []) a p ∧ a.name = Text.ofString "run" ∧
      Workspace.Posted (speaking repeating .second) Workspace.bare p.generation (.attribute request) out.1
        answer := by
  have hc : Catalogue.ofEntries sharedEntries = .ok sharedCatalogue := by decide +kernel
  have hparse : Item.parse 0 0 sharedText = .ok sharedItem := by decide +kernel
  have hfilter : sharedCatalogue.Knows [] := .inl rfl
  obtain ⟨suites, chosen, hsuites, hchosen, htakes⟩ :=
    expandAttribute_takes (σ := Nat) (κ := Unit) hc hfilter
  obtain ⟨-, -, htakes⟩ :=
    htakes (speaking repeating .second) Fleet.replaceContext sharedItem Workspace.bare
  have hinstalled := Catalogue.chosen_eq hfilter hsuites hchosen
  have hout :
      let out := expandAttribute (speaking repeating .second) chosen Fleet.replaceContext sharedItem
        Workspace.bare
      out.1.session.stats = { calls := 1 } ∧
        out.2.toOption.map (·.map fun g => g.code.map fun f => (f.content, f.executable)) =
          some [some (Text.ofString "run(1) #[cfg] #[test] fn f;", some (Text.ofString "run"))] := by
    rw [hinstalled, expandAttribute_installed]
    decide +kernel
  have hnames : ∀ p ∈ sharedCatalogue.consulted [], p.name.length < 2 ^ 32 := by decide +kernel
  refine ⟨suites, chosen, ?_⟩
  generalize expandAttribute (speaking repeating .second) chosen Fleet.replaceContext sharedItem
    Workspace.bare = out at htakes hout ⊢
  obtain ⟨w, _ | made⟩ := out
  · cases hout.2
  · obtain ⟨a, p, request, trace, htaken, -, -, rfl, hexecutable, hposted⟩ := htakes made rfl
    obtain ⟨hstats, hmade⟩ := hout
    obtain ⟨file, hcode, hfile⟩ := Option.map_eq_some_iff.mp (List.singleton_inj.mp (Option.some.inj hmade))
    obtain ⟨hcontent, hmarked⟩ := Prod.mk.inj hfile
    have hname : a.name = Text.ofString "run" := by
      have hmark := (hexecutable file hcode).symm.trans hmarked
      split at hmark
      · exact Option.some.inj hmark
      · cases hmark
    have hfits : Fleet.replaceContext.Fits p :=
      PluginContext.fits_of_no_files (hnames p htaken.consulted) (by decide)
    exact ⟨_, file, a, p, request, _, hsuites, hchosen, rfl, hstats, hcode, hcontent, hmarked, htaken, hname,
      hposted 0 0 sharedText hparse (by decide) hfits⟩

end Relay

end MacroRelay
