import MacroRelay.Proofs.Relay.Attributes
import Mathlib.Data.List.Induction

/-!
# The derives of an item

What a package is asked about the derives of an item, and which packages are asked: all of them, or those
in front of the first that declares an attribute of the item.
-/

namespace MacroRelay

-- ---------------------------------------------------------------------------
-- What an item names
-- ---------------------------------------------------------------------------

/-- The names in a `derive` list: what is written between commas, without blanks. -/
def Attribute.listed (a : Attribute) : List Text :=
  match a.args with
  | none => []
  | some args =>
    if a.name = Text.ofString "derive" then
      ((args.tokens.tail.dropLast.splitOnP (·.isPunct ",")).map Token.bareText).filter (· ≠ [])
    else []

namespace Item

/-- Every name in a derive list with its attribute, as often as it occurs, in the order of the text. -/
def namings (item : Item) : List (Attribute × Text) :=
  item.attributes.flatMap fun a => a.listed.map fun name => (a, name)

def derives (item : Item) : List Text :=
  item.namings.map (·.2)

/-- The item names a derive of the package. -/
def wants (item : Item) (p : Package) : Bool :=
  item.derives.any fun name => p.derives.items.contains name

def FirstNaming (item : Item) (p : Package) (a : Attribute) : Prop :=
  ∃ front behind, item.attributes = front ++ a :: behind ∧ (∃ name ∈ a.listed, name ∈ p.derives.items) ∧
    ∀ b ∈ front, ∀ name ∈ b.listed, name ∉ p.derives.items

end Item

/-- The request is for the derives of the package that the item names, each once and in the order of
their first occurrences, and comes with the whole item. -/
structure Gen2.DeriveRequest.IsFor (r : Gen2.DeriveRequest) (c : PluginContext) (item : Item)
    (p : Package) : Prop where
  context : r.context = c.scope item.node.file p.name
  derives : ∀ name, name ∈ r.derives.items ↔ name ∈ item.derives ∧ name ∈ p.derives.items
  ordered : r.derives.items.Pairwise fun a b => item.derives.idxOf a < item.derives.idxOf b
  callSite : ∃ a, item.FirstNaming p a ∧ r.callSite = (CallSite.of a.node).span
  item : r.item = c.stream item.node

namespace Attribute

theorem entriesOnto_eq (names : List Text) (current : Text) (ts : List Token) :
    entriesOnto names current ts = names.reverse ++
      (((ts.splitOnP (·.isPunct ",")).map Token.bareText).modifyHead (current ++ ·)).filter (· ≠ []) := by
  induction ts generalizing names current with
  | nil => by_cases h : current = [] <;> simp [entriesOnto, Token.bareText, h]
  | cons t rest ih =>
    rw [entriesOnto, List.splitOnP_cons_eq_if_modifyHead, ih, ih]
    by_cases hcomma : t.isPunct ","
    · by_cases h : current = [] <;> cases rest.splitOnP (·.isPunct ",") <;>
        simp [Token.bareText, h, hcomma]
    · cases rest.splitOnP (·.isPunct ",") <;> simp [Token.bareText, hcomma]

theorem deriveNames_eq (a : Attribute) : a.deriveNames = a.listed := by
  have hentries (ts : List Token) : entriesOnto [] [] ts =
      ((ts.splitOnP (·.isPunct ",")).map Token.bareText).filter (· ≠ []) := by
    rw [entriesOnto_eq]
    cases ts.splitOnP (·.isPunct ",") <;> simp
  unfold deriveNames listed
  cases a.args with
  | none => rfl
  | some args =>
    by_cases hname : a.name = Text.ofString "derive"
    · -- Without both parentheses there is nothing in between.
      match htokens : args.tokens with
      | [] => simp [htokens, Token.bareText]
      | [t] => simp [htokens, Token.bareText]
      | t :: next :: rest => simp [hname, htokens, hentries]
    · simp [hname]

end Attribute

namespace Package

/-- What is kept stands in the order of its first occurrences, also if some of the names are left out. -/
theorem firsts_filter_ordered (q : Text → Bool) (names : List Text) :
    (firsts (names.filter q)).Pairwise fun a b => names.idxOf a < names.idxOf b := by
  induction names using List.reverseRecOn with
  | nil => exact .nil
  | append_singleton names name ih =>
    have hmem {a : Text} (ha : a ∈ firsts (names.filter q)) : a ∈ names :=
      List.mem_of_mem_filter (mem_firsts.mp ha)
    have hold : (firsts (names.filter q)).Pairwise fun a b =>
        (names ++ [name]).idxOf a < (names ++ [name]).idxOf b := by
      refine ih.imp_of_mem fun ha hb hlt => ?_
      rwa [List.idxOf_append_of_mem (hmem ha), List.idxOf_append_of_mem (hmem hb)]
    rw [List.filter_append]
    by_cases hq : q name
    · rw [List.filter_singleton, hq, cond_true, firsts_concat]
      split
      · exact hold
      · rename_i hnew
        have hfresh : name ∉ names := fun h => hnew (List.mem_filter.mpr ⟨h, hq⟩)
        refine List.pairwise_append.mpr ⟨hold, List.pairwise_singleton _ _, fun a ha b hb => ?_⟩
        rw [List.mem_singleton.mp hb, List.idxOf_append_of_mem (hmem ha), List.idxOf_append_of_notMem hfresh]
        exact Nat.lt_add_right _ (List.idxOf_lt_length_of_mem (hmem ha))
    · simpa [List.filter_singleton, hq] using hold

variable {item : Item} {p : Package} {name : Text}

theorem derivesOn_eq (p : Package) (item : Item) : p.derivesOn item =
    (firsts (item.derives.filter p.derives.items.contains),
      (item.namings.find? fun o => p.derives.items.contains o.2).map (·.1)) := by
  have hnamed : (item.attributes.flatMap fun a => a.deriveNames.map fun name => (name, a)) =
      item.namings.map fun o => (o.2, o.1) := by
    simp [Item.namings, Attribute.deriveNames_eq, List.map_flatMap, Function.comp_def]
  simp [derivesOn, hnamed, Item.derives, List.filter_map, List.head?_filter, Function.comp_def]

end Package

namespace Item

variable {item : Item} {p : Package} {c : PluginContext} {name : Text}

theorem wants_iff : item.wants p ↔ ∃ name ∈ item.derives, name ∈ p.derives.items := by
  simp [wants]

theorem namings_find?_isSome :
    (item.namings.find? fun o => p.derives.items.contains o.2).isSome = item.wants p := by
  simp [wants, derives, List.isSome_find?, List.any_map, Function.comp_def]

theorem firstNaming_of_find? {o : Attribute × Text}
    (h : item.namings.find? (fun o => p.derives.items.contains o.2) = some o) :
    item.FirstNaming p o.1 := by
  rw [namings, List.find?_flatMap] at h
  obtain ⟨front, a, behind, hattributes, hfind, hfront⟩ := List.findSome?_eq_some_iff.mp h
  rw [List.find?_map] at hfind
  obtain ⟨name, hname, rfl⟩ := Option.map_eq_some_iff.mp hfind
  refine ⟨front, behind, hattributes, ⟨name, List.mem_of_find?_eq_some hname, ?_⟩, ?_⟩
  · exact List.contains_iff_mem.mp (List.find?_some hname)
  · intro b hb name hname hmine
    refine List.find?_eq_none.mp (hfront b hb) _ (List.mem_map_of_mem hname) ?_
    exact List.contains_iff_mem.mpr hmine

theorem deriveRequest_isFor {o : Attribute × Text}
    (h : item.namings.find? (fun o => p.derives.items.contains o.2) = some o) (c : PluginContext) :
    (p.deriveRequest c item (p.derivesOn item).1 o.1).IsFor c item p where
  context := rfl
  derives name := by
    rw [Package.derivesOn_eq]
    exact Package.mem_firsts.trans (by simp)
  ordered := by
    rw [Package.derivesOn_eq]
    exact Package.firsts_filter_ordered _ _
  callSite := ⟨o.1, firstNaming_of_find? h, rfl⟩
  item := rfl

def Free (item : Item) (packages : List Package) : Prop :=
  ∀ p ∈ packages, ∀ a ∈ item.attributes, ¬ p.Declares a.name

theorem declared?_eq_none :
    item.attributes.find? p.handlesAttribute = none ↔ ∀ a ∈ item.attributes, ¬ p.Declares a.name := by
  simp only [List.find?_eq_none, Package.handlesAttribute_iff]

theorem request?_of_not_wants (hfree : ∀ a ∈ item.attributes, ¬ p.Declares a.name)
    (h : item.wants p = false) : (PluginJob.onItem item).request? p c = none := by
  rw [← namings_find?_isSome, Option.isSome_eq_false_iff, Option.isNone_iff_eq_none] at h
  simp only [PluginJob.request?, declared?_eq_none.mpr hfree, Package.derivesOn_eq, h, Option.map_none]

theorem request?_of_wants (hfree : ∀ a ∈ item.attributes, ¬ p.Declares a.name)
    (h : item.wants p) : ∃ r : Gen2.DeriveRequest,
      (PluginJob.onItem item).request? p c = some (.derive r) ∧ r.IsFor c item p := by
  rw [← namings_find?_isSome] at h
  obtain ⟨o, ho⟩ := Option.isSome_iff_exists.mp h
  refine ⟨_, ?_, deriveRequest_isFor ho c⟩
  simp only [PluginJob.request?, declared?_eq_none.mpr hfree, Package.derivesOn_eq, ho, Option.map_some]

end Item

-- ---------------------------------------------------------------------------
-- Whom an item is sent to
-- ---------------------------------------------------------------------------

namespace Item

def unknownTo (item : Item) (packages : List Package) : List (Attribute × Text) :=
  item.namings.filter fun o => ∀ p ∈ packages, o.2 ∉ p.derives.items

/-- The first package that declares an attribute of the item, the first such attribute, and the packages
in front. -/
structure RefusedAt (item : Item) (packages front : List Package) (p : Package) (a : Attribute) : Prop where
  split : ∃ behind, packages = front ++ p :: behind
  free : item.Free front
  declares : p.Declares a.name
  first : ∃ before after, item.attributes = before ++ a :: after ∧ ∀ b ∈ before, ¬ p.Declares b.name

variable {item : Item} {packages front : List Package} {p : Package} {a : Attribute}

theorem free_nil : item.Free [] := by simp [Free]

theorem free_cons : item.Free (p :: packages) ↔
    (∀ a ∈ item.attributes, ¬ p.Declares a.name) ∧ item.Free packages :=
  List.forall_mem_cons

theorem refusedAt_of_find? (hfree : item.Free front)
    (hfind : item.attributes.find? p.handlesAttribute = some a) (behind : List Package) :
    item.RefusedAt (front ++ p :: behind) front p a := by
  obtain ⟨hdeclares, before, after, hattributes, hbefore⟩ := List.find?_eq_some_iff_append.mp hfind
  refine ⟨⟨behind, rfl⟩, hfree, Package.handlesAttribute_iff.mp hdeclares, before, after, hattributes,
    fun b hb hb' => ?_⟩
  simpa [Package.handlesAttribute_iff.mpr hb'] using hbefore b hb

theorem free_or_refused (item : Item) (packages : List Package) :
    item.Free packages ∨ ∃ front p a, item.RefusedAt packages front p a := by
  induction packages with
  | nil => exact .inl free_nil
  | cons p rest ih =>
    cases hfind : item.attributes.find? p.handlesAttribute with
    | some a => exact .inr ⟨[], p, a, refusedAt_of_find? free_nil hfind rest⟩
    | none =>
      have hp := declared?_eq_none.mp hfind
      rcases ih with hfree | ⟨front, q, a, ⟨behind, rfl⟩, hfree, hdeclares, hfirst⟩
      · exact .inl (free_cons.mpr ⟨hp, hfree⟩)
      · exact .inr ⟨p :: front, q, a, ⟨behind, rfl⟩, free_cons.mpr ⟨hp, hfree⟩, hdeclares, hfirst⟩

theorem RefusedAt.find? (h : item.RefusedAt packages front p a) :
    item.attributes.find? p.handlesAttribute = some a := by
  obtain ⟨before, after, hattributes, hbefore⟩ := h.first
  refine List.find?_eq_some_iff_append.mpr
    ⟨Package.handlesAttribute_iff.mpr h.declares, before, after, hattributes, fun b hb => ?_⟩
  rw [Bool.not_eq_true', ← Bool.not_eq_true]
  exact mt Package.handlesAttribute_iff.mp (hbefore b hb)

end Item

namespace Plan

variable {item : Item} {packages front : List Package} {p : Package} {a : Attribute}

theorem declared?_installed (item : Item) (p : Package) :
    declared? item p.installed = item.attributes.find? p.handlesAttribute := by
  have hrecognizes (a : Attribute) : p.installed.recognizes a.name = p.handlesAttribute a := by
    rw [Bool.eq_iff_iff, Package.recognizes_installed, Package.handlesAttribute_iff]
  simp only [declared?, hrecognizes]

theorem jobsOf_installed (item : Item) (p : Package) : jobsOf item p.installed = [(p, .onItem item)] :=
  rfl

theorem derivesUnknownTo_installed (packages : List Package) (item : Item) :
    Relay.derivesUnknownTo (packages.map Package.installed) item =
      (item.unknownTo packages).map fun o => .unknownDerive o.1 o.2 := by
  have hunknown (name : Text) :
      (!(packages.map Package.installed).any (·.declaredDerives.contains name)) =
        decide (∀ p ∈ packages, name ∉ p.derives.items) := by
    rw [Bool.eq_iff_iff]
    simp [Package.mem_declaredDerives_installed]
  simp only [Relay.derivesUnknownTo, hunknown, Attribute.deriveNames_eq, Item.unknownTo, Item.namings,
    List.filter_flatMap, List.map_flatMap, List.filter_map, List.map_map, Function.comp_def]

theorem declared?_of_free (h : item.Free front) (hp : p ∈ front) : declared? item p.installed = none := by
  rw [declared?_installed, Item.declared?_eq_none.mpr (h p hp)]

theorem findSome?_of_free (h : item.Free front) :
    (front.map Package.installed).findSome? (declared? item) = none := by
  simpa [List.findSome?_eq_none_iff] using fun p => declared?_of_free h

theorem ofDerives_jobs (h : item.Free front) (rest : List Package) :
    (ofDerives ((front ++ rest).map Package.installed) item).jobs =
      front.map (fun p => (p, .onItem item)) ++ (ofDerives (rest.map Package.installed) item).jobs := by
  simp only [ofDerives]
  rw [List.map_append, List.takeWhile_append_of_pos, List.flatMap_append, List.flatMap_map]
  · simp only [jobsOf_installed, List.map_eq_flatMap]
  · simpa using fun p => declared?_of_free h

theorem ofDerives_free (h : item.Free packages) : ofDerives (packages.map Package.installed) item =
    { jobs := packages.map fun p => (p, .onItem item)
      ending := .ok [{ diagnostics := (item.unknownTo packages).map fun o => .unknownDerive o.1 o.2 }] } := by
  have hjobs := ofDerives_jobs h []
  rw [List.append_nil] at hjobs
  rw [← derivesUnknownTo_installed]
  refine (mk.injEq ..).mpr ⟨hjobs.trans (List.append_nil _), ?_⟩
  rw [findSome?_of_free h]

theorem ofDerives_refused (h : item.RefusedAt packages front p a) :
    ofDerives (packages.map Package.installed) item =
      { jobs := front.map fun p => (p, .onItem item), ending := .error (.carriesAttribute a.name) } := by
  obtain ⟨behind, rfl⟩ := h.split
  have hdeclared : declared? item p.installed = some a := (declared?_installed item p).trans h.find?
  have hjobs := ofDerives_jobs h.free (p :: behind)
  refine (mk.injEq ..).mpr ⟨hjobs.trans ?_, ?_⟩
  · simp [ofDerives, hdeclared]
  · simp [findSome?_of_free h.free, hdeclared]

end Plan

end MacroRelay
