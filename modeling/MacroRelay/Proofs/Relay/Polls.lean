import MacroRelay.Proofs.Relay.Derives
import MacroRelay.Proofs.Session.Ways

/-!
# Packages that ask for derives

Every name in a derive list is accounted for: it goes to all packages that provide it, each of which asks
once for all of its names, or it is reported. An item with an attribute of a package is turned away, but
only once the packages in front of that one have asked.
-/

namespace MacroRelay

/-- A package asks for its derives. There is no answer to a request that degrades. -/
structure DeriveInquiry where
  package : Package
  request : Gen2.DeriveRequest
  answer : Option Gen2.Result

def DeriveInquiry.made (q : DeriveInquiry) (item : Item) : Generated :=
  q.answer.elim {} fun r => (PluginJob.onItem item).conclude q.package r

namespace Workspace

variable {σ κ : Type}

/-- One inquiry after the other, and nothing is done in between but tracing. -/
inductive Inquires (call : Caller σ κ) : Workspace σ κ → List DeriveInquiry → Workspace σ κ → Prop
  | done (w) : Inquires call w [] w
  | ask {w w' p r rest} (trace)
      (hrest : Inquires call { (w.expand call p.generation (.derive r)).1 with trace } rest w') :
      Inquires call w (⟨p, r, (w.expand call p.generation (.derive r)).2⟩ :: rest) w'

/-- The server gets the request of each inquiry in this order, unless a cache has the answer, and nothing
else. -/
inductive Posts (call : Caller σ κ) : Workspace σ κ → List DeriveInquiry → Workspace σ κ → Prop
  | done (w) : Posts call w [] w
  | post {w w₁ w' q rest} (hpost : Posted call w q.package.generation (.derive q.request) w₁ q.answer)
      (hrest : Posts call w₁ rest w') : Posts call w (q :: rest) w'

/-- Those of the packages that have a derive the item names have asked, each once and in this order. -/
structure Polled (call : Caller σ κ) (c : PluginContext) (item : Item) (packages : List Package)
    (w : Workspace σ κ) (inquiries : List DeriveInquiry) (w' : Workspace σ κ) : Prop where
  packages : inquiries.map (·.package) = packages.filter item.wants
  requests : ∀ q ∈ inquiries, q.request.IsFor c item q.package
  run : Inquires call w inquiries w'

end Workspace

theorem DiagnosticCode.ofMacro_ne_unknownDerive (s : Severity) : ofMacro s ≠ unknownDerive := by
  unfold ofMacro
  split
  · decide
  · split <;> decide

theorem Generated.ofAnswer_known {name : Text} {r : Gen2.Result} {site : CallSite} :
    ∀ d ∈ (ofAnswer name r site).1.diagnostics, d.code ≠ .unknownDerive := by
  intro d hd
  rw [ofAnswer_diagnostics] at hd
  rcases List.mem_append.mp hd with hd | hd
  · obtain ⟨sent, -, rfl⟩ := List.mem_map.mp hd
    exact DiagnosticCode.ofMacro_ne_unknownDerive _
  · rw [eq_of_mem_warnings hd]
    exact (by decide : DiagnosticCode.malformedResult ≠ .unknownDerive)

theorem DeriveInquiry.made_known (q : DeriveInquiry) (item : Item) :
    ∀ d ∈ (q.made item).diagnostics, d.code ≠ .unknownDerive := by
  intro d hd
  rw [made] at hd
  cases hanswer : q.answer with
  | none => simp [hanswer] at hd
  | some r =>
    rw [hanswer, Option.elim_some] at hd
    simp only [PluginJob.conclude] at hd
    split at hd
    · exact Generated.ofAnswer_known d hd
    · split at hd
      · exact Generated.ofAnswer_known d hd
      · cases hd

namespace Workspace

variable {σ κ : Type} {call : Caller σ κ} {c : PluginContext} {item : Item} {packages : List Package}
  {p : Package} {w w' : Workspace σ κ} {inquiries : List DeriveInquiry} {g : Generation} {e : Expansion}
  {answer : Option Gen2.Result}

theorem Polled.skip (h : Polled call c item packages w inquiries w') (hp : item.wants p = false) :
    Polled call c item (p :: packages) w inquiries w' where
  packages := by rw [h.packages, List.filter_cons_of_neg (by simp [hp])]
  requests := h.requests
  run := h.run

theorem Polled.ask {r : Gen2.DeriveRequest} {trace}
    (h : Polled call c item packages { (w.expand call p.generation (.derive r)).1 with trace } inquiries w')
    (hp : item.wants p) (hr : r.IsFor c item p) :
    Polled call c item (p :: packages) w
      (⟨p, r, (w.expand call p.generation (.derive r)).2⟩ :: inquiries) w' where
  packages := by rw [List.map_cons, h.packages, List.filter_cons_of_pos hp]
  requests := List.forall_mem_cons.mpr ⟨hr, h.requests⟩
  run := .ask trace h.run

theorem Inquires.posts (h : Inquires call w inquiries w')
    (he : ∀ q ∈ inquiries, (Expansion.derive q.request).Sendable) : Posts call w inquiries w' := by
  induction h with
  | done w => exact .done w
  | @ask w w' p r rest trace hrest ih =>
    obtain ⟨hr, he⟩ := List.forall_mem_cons.mp he
    exact .post ((expand_posted call w p.generation hr).traced trace) (ih he)

theorem performAll_polled (call : Caller σ κ) (c : PluginContext) (hfree : item.Free packages)
    (w : Workspace σ κ) :
    let out := performAll call c (packages.map fun p => (p, .onItem item)) w
    ∃ inquiries, Polled call c item packages w inquiries out.1 ∧
      (∀ q ∈ inquiries, (PluginJob.onItem item).request? q.package c = some (.derive q.request)) ∧
      out.2.filterMap (·.code) = inquiries.filterMap (fun q => (q.made item).code) ∧
      out.2.flatMap (·.diagnostics) = inquiries.flatMap fun q => (q.made item).diagnostics := by
  induction packages generalizing w with
  | nil => exact ⟨[], ⟨rfl, by simp, .done w⟩, by simp, rfl, rfl⟩
  | cons p rest ih =>
    obtain ⟨hp, hrest⟩ := Item.free_cons.mp hfree
    simp only [List.map_cons, performAll]
    cases hwants : item.wants p with
    | false =>
      obtain ⟨inquiries, hpolled, hrequests, hcode, hdiagnostics⟩ := ih hrest w
      rw [perform_of_none (Item.request?_of_not_wants hp hwants)]
      refine ⟨inquiries, hpolled.skip hwants, hrequests, ?_, ?_⟩
      · rw [List.filterMap_cons_none rfl, hcode]
      · rw [List.flatMap_cons, hdiagnostics]
        exact List.nil_append _
    | true =>
      obtain ⟨r, hrequest, hr⟩ := Item.request?_of_wants (c := c) hp hwants
      obtain ⟨trace, hperform⟩ := perform_of_some call hrequest w
      rw [hperform]
      obtain ⟨inquiries, hpolled, hrequests, hcode, hdiagnostics⟩ :=
        ih hrest { (w.expand call p.generation (.derive r)).1 with trace }
      refine ⟨_, hpolled.ask hwants hr, List.forall_mem_cons.mpr ⟨hrequest, hrequests⟩, ?_, ?_⟩
      · rw [List.filterMap_cons, List.filterMap_cons, hcode]
        rfl
      · rw [List.flatMap_cons, List.flatMap_cons, hdiagnostics]
        rfl

theorem Polled.sendable {file : FileId} {base : Offset} {text : Text}
    (h : Polled call c item packages w inquiries w')
    (hrequests : ∀ q ∈ inquiries, (PluginJob.onItem item).request? q.package c = some (.derive q.request))
    (hparse : Item.parse file base text = .ok item) (htext : text.length < 2 ^ 32)
    (hfits : ∀ p ∈ packages, c.Fits p) : ∀ q ∈ inquiries, (Expansion.derive q.request).Sendable := by
  intro q hq
  have hasked : q.package ∈ packages.filter item.wants := h.packages ▸ List.mem_map_of_mem hq
  have hread : (PluginJob.onItem item).ReadFrom file base text := hparse
  exact PluginJob.sendable_of_request hread htext (hfits _ (List.mem_of_mem_filter hasked))
    (hrequests q hq)

theorem Polled.sent (h : Polled call c item packages w inquiries w') {o : Attribute × Text}
    (ho : o ∈ item.namings) (hp : p ∈ packages) (hprovides : o.2 ∈ p.derives.items) :
    ∃ q ∈ inquiries, q.package = p ∧ o.2 ∈ q.request.derives.items := by
  have hname : o.2 ∈ item.derives := List.mem_map_of_mem ho
  have hasked : p ∈ inquiries.map (·.package) := by
    rw [h.packages]
    exact List.mem_filter.mpr ⟨hp, Item.wants_iff.mpr ⟨o.2, hname, hprovides⟩⟩
  obtain ⟨q, hq, rfl⟩ := List.mem_map.mp hasked
  exact ⟨q, hq, rfl, ((h.requests q hq).derives o.2).mpr ⟨hname, hprovides⟩⟩

theorem Polled.sent_iff (h : Polled call c item packages w inquiries w') {o : Attribute × Text}
    (ho : o ∈ item.namings) :
    (∃ q ∈ inquiries, o.2 ∈ q.request.derives.items) ↔ o ∉ item.unknownTo packages := by
  have hunknown : o ∉ item.unknownTo packages ↔ ∃ p ∈ packages, o.2 ∈ p.derives.items := by
    simp [Item.unknownTo, ho]
  rw [hunknown]
  constructor
  · rintro ⟨q, hq, hsent⟩
    have hasked : q.package ∈ packages.filter item.wants := h.packages ▸ List.mem_map_of_mem hq
    exact ⟨q.package, List.mem_of_mem_filter hasked, (((h.requests q hq).derives o.2).mp hsent).2⟩
  · rintro ⟨p, hp, hprovides⟩
    obtain ⟨q, hq, -, hsent⟩ := h.sent ho hp hprovides
    exact ⟨q, hq, hsent⟩

theorem Polled.nobody_iff (h : Polled call c item packages w inquiries w') :
    inquiries = [] ↔ ∀ p ∈ packages, item.wants p = false := by
  rw [← List.map_eq_nil_iff (f := (·.package)), h.packages, List.filter_eq_nil_iff]
  simp only [Bool.not_eq_true]

/-- How often a session was asked, a failed call counted twice. -/
def tally (w : Workspace σ κ) : Nat :=
  w.session.stats.calls + w.session.stats.memoHits + w.session.stats.diskHits + w.session.stats.degraded

theorem Way.tally_lt (h : Way call w g e w' answer) : w.tally < w'.tally := by
  cases h with
  | remembered trace client s r hclient hmemo =>
    obtain ⟨-, memo, -, -, rfl⟩ := Session.lookUp_eq_some hmemo
    simp [tally]
  | _ => simp [tally] <;> omega

theorem Inquires.tally_le (h : Inquires call w inquiries w') :
    w.tally + inquiries.length ≤ w'.tally := by
  induction h with
  | done w => rfl
  | @ask w w' p r rest trace hrest ih =>
    have hstep := (expand_way call w p.generation (.derive r)).tally_lt
    have hrest : (w.expand call p.generation (.derive r)).1.tally + rest.length ≤ w'.tally := ih
    rw [List.length_cons]
    omega

theorem Inquires.unchanged (h : Inquires call w [] w') : w' = w := by
  cases h
  rfl

theorem Inquires.quiet_iff (h : Inquires call w inquiries w') :
    inquiries = [] ↔ w'.session.stats = w.session.stats := by
  constructor
  · rintro rfl
    rw [h.unchanged]
  · intro hstats
    have hle := h.tally_le
    rw [tally, tally, hstats] at hle
    exact List.length_eq_zero_iff.mp (by omega)

end Workspace

-- ---------------------------------------------------------------------------
-- Derives of an item, and items that are turned away
-- ---------------------------------------------------------------------------

namespace Relay

variable {σ κ : Type} {packages front : List Package} {item : Item} {p : Package} {a : Attribute}

theorem expandDerives_free (h : item.Free packages) (call : Caller σ κ) (ctx : PluginContext)
    (w : Workspace σ κ) :
    expandDerives call (packages.map Package.installed) ctx item w =
      (Workspace.performAll call ctx (packages.map fun p => (p, .onItem item)) w).map id fun made =>
        .ok (made ++
          [{ diagnostics := (item.unknownTo packages).map fun o => .unknownDerive o.1 o.2 }]) := by
  rw [expandDerives_eq, Plan.ofDerives_free h]
  rfl

theorem expandDerives_refused (h : item.RefusedAt packages front p a) (call : Caller σ κ)
    (ctx : PluginContext) (w : Workspace σ κ) :
    expandDerives call (packages.map Package.installed) ctx item w =
      (Workspace.performAll call ctx (front.map fun p => (p, .onItem item)) w).map id fun _ =>
        .error (.carriesAttribute a.name) := by
  rw [expandDerives_eq, Plan.ofDerives_refused h]
  rfl

variable {entries : List Gen2.PackageEntry} {c : Catalogue} {filter : Text}

/-- Every name that an item derives is sent to all packages that provide it, and reported if there are
none. The server gets these requests, and nothing else. -/
theorem expandDerives_accounts (hc : Catalogue.ofEntries entries = .ok c) (hfilter : c.Knows filter) :
    ∃ suites chosen, c.suites = .ok suites ∧ consulted suites filter = .ok chosen ∧
      Catalogue.InOrder (c.consulted filter) ∧
      ∀ (call : Caller σ κ) (ctx : PluginContext) (item : Item) (w : Workspace σ κ),
        let out := expandDerives call chosen ctx item w
        ((∃ e, out.2 = .error e) ↔
          ∃ a ∈ item.attributes, ∃ p ∈ c.consulted filter, p.Declares a.name) ∧
        ∀ made, out.2 = .ok made → ∃ inquiries,
          Workspace.Polled call ctx item (c.consulted filter) w inquiries out.1 ∧
          (∀ file base text, Item.parse file base text = .ok item → text.length < 2 ^ 32 →
            (∀ p ∈ c.consulted filter, ctx.Fits p) → Workspace.Posts call w inquiries out.1) ∧
          made.filterMap (·.code) = inquiries.filterMap (fun q => (q.made item).code) ∧
          made.flatMap (·.diagnostics) = (inquiries.flatMap fun q => (q.made item).diagnostics) ++
            (item.unknownTo (c.consulted filter)).map (fun o => .unknownDerive o.1 o.2) ∧
          (∀ q ∈ inquiries, ∀ d ∈ (q.made item).diagnostics, d.code ≠ .unknownDerive) ∧
          ∀ o ∈ item.namings,
            (∀ p ∈ c.consulted filter, o.2 ∈ p.derives.items →
              ∃ q ∈ inquiries, q.package = p ∧ o.2 ∈ q.request.derives.items) ∧
            ((∃ q ∈ inquiries, o.2 ∈ q.request.derives.items) ↔
              o ∉ item.unknownTo (c.consulted filter)) := by
  refine ⟨_, _, c.suites_eq, Catalogue.consulted_suites hfilter,
    (Catalogue.inOrder_of_ofEntries hc).consulted filter, fun call ctx item w => ?_⟩
  rcases item.free_or_refused (c.consulted filter) with hfree | ⟨front, p, a, hrefused⟩
  · obtain ⟨inquiries, hpolled, hrequests, hcode, hdiagnostics⟩ :=
      Workspace.performAll_polled call ctx hfree w
    rw [expandDerives_free hfree]
    refine ⟨iff_of_false nofun fun ⟨a, ha, p, hp, hdeclares⟩ => hfree p hp a ha hdeclares, ?_⟩
    rintro _ ⟨⟩
    refine ⟨inquiries, hpolled, ?_, ?_, ?_, fun q _ => q.made_known item, fun o ho =>
      ⟨fun p => hpolled.sent ho, hpolled.sent_iff ho⟩⟩
    · intro file base text hparse htext hfits
      exact hpolled.run.posts (hpolled.sendable hrequests hparse htext hfits)
    · rw [List.filterMap_append, hcode]
      exact List.append_nil _
    · rw [List.flatMap_append, hdiagnostics]
      exact congrArg _ (List.append_nil _)
  · obtain ⟨behind, hsplit⟩ := hrefused.split
    rw [expandDerives_refused hrefused]
    refine ⟨iff_of_true ⟨_, rfl⟩ ⟨a, List.mem_of_find?_eq_some hrefused.find?, p, ?_, hrefused.declares⟩,
      nofun⟩
    simp [hsplit]

def serPackage : Package := ⟨"alpha", none, some ["Ser", "Eq", "Eq"], none, none, .second⟩

def toolPackage : Package := ⟨"beta", some ["tool"], some ["Eq", "Hash"], none, none, .second⟩

def toolEntries : List Gen2.PackageEntry :=
  [{ package := "beta", attributes := some ["tool"], derives := some ["Eq", "Hash"] },
    { package := "alpha", derives := some ["Ser", "Eq", "Eq"] }]

def derivingText : Text := "#[derive(Eq, Ser, Eq)] #[derive(Nope, Hash, Nope)] struct A;"

def derivingItem : Item :=
  (Item.parse 0 0 derivingText).toOption.getD default

/-- Both packages are given the whole item, and each its own names. -/
theorem expandDerives_accounts_shared :
    ∃ suites chosen made, ∃ inquiries : List DeriveInquiry,
      Catalogue.suites ⟨[serPackage, toolPackage]⟩ = .ok suites ∧ consulted suites [] = .ok chosen ∧
      let out := expandDerives (speaking repeating .second) chosen Fleet.replaceContext derivingItem
        Workspace.bare
      out.2 = .ok made ∧ out.1.session.stats = { calls := 2 } ∧
      inquiries.map (·.package) = [serPackage, toolPackage] ∧
      Workspace.Posts (speaking repeating .second) Workspace.bare inquiries out.1 ∧
      made.filterMap (·.code) = inquiries.filterMap (fun q => (q.made derivingItem).code) ∧
      made.filterMap (·.code.map (·.content)) = ["Eq Ser " ++ derivingText, "Eq Hash " ++ derivingText] ∧
      (made.flatMap (·.diagnostics)).map (·.message) =
        [Text.ofString "derive Nope is not provided by any macro package",
          "derive Nope is not provided by any macro package"] := by
  have hc : Catalogue.ofEntries toolEntries = .ok ⟨[serPackage, toolPackage]⟩ := by decide +kernel
  have hparse : Item.parse 0 0 derivingText = .ok derivingItem := by decide +kernel
  obtain ⟨suites, chosen, hsuites, hchosen, -, haccounts⟩ :=
    expandDerives_accounts (σ := Nat) (κ := Unit) hc (.inl rfl)
  obtain ⟨-, haccounts⟩ :=
    haccounts (speaking repeating .second) Fleet.replaceContext derivingItem Workspace.bare
  have hfree : derivingItem.Free [serPackage, toolPackage] := by
    intro p hp
    have hnone : ∀ p ∈ [serPackage, toolPackage], derivingItem.attributes.find? p.handlesAttribute = none := by
      decide +kernel
    exact Item.declared?_eq_none.mp (hnone p hp)
  have hinstalled : chosen = [serPackage, toolPackage].map Package.installed :=
    Catalogue.chosen_eq (.inl rfl) hsuites hchosen
  have hout :
      let out := expandDerives (speaking repeating .second) chosen Fleet.replaceContext derivingItem
        Workspace.bare
      out.1.session.stats = { calls := 2 } ∧
        out.2.toOption.map (fun made => (made.filterMap (·.code.map (·.content)),
          (made.flatMap (·.diagnostics)).map (·.message))) =
          some (["Eq Ser " ++ derivingText, "Eq Hash " ++ derivingText],
            [Text.ofString "derive Nope is not provided by any macro package",
              "derive Nope is not provided by any macro package"]) := by
    rw [hinstalled, expandDerives_free hfree]
    decide +kernel
  have hfits : ∀ p ∈ Catalogue.consulted ⟨[serPackage, toolPackage]⟩ [], Fleet.replaceContext.Fits p := by
    have hnames : ∀ p ∈ Catalogue.consulted ⟨[serPackage, toolPackage]⟩ [], p.name.length < 2 ^ 32 := by
      decide +kernel
    exact fun p hp => PluginContext.fits_of_no_files (hnames p hp) (by decide)
  refine ⟨suites, chosen, ?_⟩
  generalize expandDerives (speaking repeating .second) chosen Fleet.replaceContext derivingItem
    Workspace.bare = out at haccounts hout ⊢
  obtain ⟨w, e | made⟩ := out
  · cases hout.2
  · obtain ⟨inquiries, hpolled, hposts, hcode, -⟩ := haccounts made rfl
    obtain ⟨hstats, hmade⟩ := hout
    obtain ⟨hcontents, hmessages⟩ := Prod.mk.inj (Option.some.inj hmade)
    refine ⟨made, inquiries, hsuites, hchosen, rfl, hstats, ?_,
      hposts 0 0 derivingText hparse (by decide) hfits, hcode, hcontents, hmessages⟩
    rw [hpolled.packages]
    decide +kernel

/-- An item is turned away without an effect only if no package in front of the one that declares its
attribute provides a derive of it. All others have asked by then. -/
theorem expandDerives_refuses (c : Catalogue) (filter : Text) :
    ∃ suites, c.suites = .ok suites ∧
      (¬ c.Knows filter → consulted suites filter = .error (.unknownPackage filter)) ∧
      (c.Knows filter → ∃ chosen, consulted suites filter = .ok chosen ∧
        ∀ (call : Caller σ κ) (ctx : PluginContext) (item : Item) (w : Workspace σ κ) (e : ExpandError),
          let out := expandDerives call chosen ctx item w
          out.2 = .error e → ∃ front p a inquiries,
            item.RefusedAt (c.consulted filter) front p a ∧ e = .carriesAttribute a.name ∧
            Workspace.Polled call ctx item front w inquiries out.1 ∧
            ((∀ q ∈ front, item.wants q = false) → inquiries = [] ∧ out.1 = w) ∧
            ((∃ q ∈ front, item.wants q) →
              inquiries ≠ [] ∧ out.1.session.stats ≠ w.session.stats)) := by
  refine ⟨_, c.suites_eq, Catalogue.consulted_suites_unknown, fun hfilter =>
    ⟨_, Catalogue.consulted_suites hfilter, fun call ctx item w e => ?_⟩⟩
  rcases item.free_or_refused (c.consulted filter) with hfree | ⟨front, p, a, hrefused⟩
  · rw [expandDerives_free hfree]
    nofun
  · obtain ⟨inquiries, hpolled, -, -⟩ := Workspace.performAll_polled call ctx hrefused.free w
    rw [expandDerives_refused hrefused]
    intro out hout
    cases hout
    have hnobody : inquiries = [] ↔ ∀ q ∈ front, item.wants q = false := hpolled.nobody_iff
    refine ⟨front, p, a, inquiries, hrefused, rfl, hpolled, fun hquiet => ?_, fun ⟨q, hq, hwants⟩ => ?_⟩
    · obtain rfl := hnobody.mpr hquiet
      exact ⟨rfl, hpolled.run.unchanged⟩
    · have hsome : inquiries ≠ [] := fun hnone => by simp [hnobody.mp hnone q hq] at hwants
      exact ⟨hsome, mt hpolled.run.quiet_iff.mpr hsome⟩

def sharedAnswer : Gen2.Result := { stream := { tokens := some [⟨"fn g;", ⟨0, 5⟩⟩] } }

def toolItem : Item :=
  (Item.parse 0 0 "#[tool]\n#[derive(Ser)]\nstruct A {}").toOption.getD default

theorem expandDerives_refuses_tool :
    ∃ suites chosen, Catalogue.suites ⟨[serPackage, toolPackage]⟩ = .ok suites ∧
      consulted suites [] = .ok chosen ∧
      let out := expandDerives (Workspace.replying sharedAnswer) chosen Fleet.replaceContext toolItem
        Workspace.bare
      out.2 = .error (.carriesAttribute "tool") ∧ out.1.session.stats = { calls := 1 } ∧
        ∃ front inquiries, Workspace.Polled (Workspace.replying sharedAnswer) Fleet.replaceContext toolItem
          front Workspace.bare inquiries out.1 ∧ inquiries ≠ [] := by
  obtain ⟨suites, hsuites, -, hrefuses⟩ :=
    expandDerives_refuses (σ := Nat) (κ := Unit) ⟨[serPackage, toolPackage]⟩ []
  obtain ⟨chosen, hchosen, hrefuses⟩ := hrefuses (.inl rfl)
  have hinstalled : chosen = [serPackage, toolPackage].map Package.installed :=
    Catalogue.chosen_eq (.inl rfl) hsuites hchosen
  obtain ⟨a, hfind, hname⟩ : ∃ a, toolItem.attributes.find? toolPackage.handlesAttribute = some a ∧
      a.name = Text.ofString "tool" := Option.map_eq_some_iff.mp (by decide +kernel)
  have hfree : toolItem.Free [serPackage] :=
    Item.free_cons.mpr ⟨Item.declared?_eq_none.mp (by decide +kernel), Item.free_nil⟩
  have hout := expandDerives_refused (Item.refusedAt_of_find? hfree hfind [])
    (Workspace.replying sharedAnswer) Fleet.replaceContext Workspace.bare
  rw [List.singleton_append, ← hinstalled, hname] at hout
  have hstats : (expandDerives (Workspace.replying sharedAnswer) chosen Fleet.replaceContext toolItem
      Workspace.bare).1.session.stats = { calls := 1 } := by
    rw [hout]
    decide +kernel
  obtain ⟨front, -, -, inquiries, -, -, hpolled, -⟩ :=
    hrefuses (Workspace.replying sharedAnswer) Fleet.replaceContext toolItem Workspace.bare _
      (congrArg Prod.snd hout)
  refine ⟨suites, chosen, hsuites, hchosen, congrArg Prod.snd hout, hstats, front, inquiries, hpolled, ?_⟩
  intro hnone
  rw [hpolled.run.quiet_iff.mp hnone] at hstats
  exact absurd hstats (by decide)

end Relay

end MacroRelay
