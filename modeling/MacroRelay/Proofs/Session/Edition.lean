import MacroRelay.Proofs.Session.Fleet
import MacroRelay.Session.Adapter

/-!
# Editions and caches

A plugin writes the edition of the language into the streams of a request, and the server may
answer by it. The key of a request does not hold the edition. So every answer is right for the
edition of its request exactly if the server does not tell editions apart.
-/

namespace MacroRelay

inductive Expansion.FromPlugin : Expansion → Prop
  | attribute (p : Package) (c : PluginContext) (item : Item) (a : Attribute) :
    FromPlugin (.attribute (p.attributeRequest c item a))
  | derive (p : Package) (c : PluginContext) (item : Item) (names : List Text) (a : Attribute) :
    FromPlugin (.derive (p.deriveRequest c item names a))
  | inline (p : Package) (c : PluginContext) (call : InlineCall) :
    FromPlugin (.inline (p.inlineRequest c call))

namespace Expansion.FromPlugin

theorem streams_edition {e : Expansion} (h : e.FromPlugin) :
    ∀ s ∈ e.streams, s.metadata.edition = e.edition := by
  cases h with
  | «attribute» p c item a =>
    simp [streams, edition, Package.attributeRequest, PluginContext.stream, Gen2.Stream.ofNode]
  | «derive» p c item names a => simp [streams, edition]
  | «inline» p c call => simp [streams, edition]

theorem withEdition {e : Expansion} (h : e.FromPlugin) (edition : Text) :
    (e.withEdition edition).FromPlugin := by
  cases h with
  | «attribute» p c item a => exact .attribute p { c with edition } item a
  | «derive» p c item names a => exact .derive p { c with edition } item names a
  | «inline» p c call => exact .inline p { c with edition } call

end Expansion.FromPlugin

namespace Fleet

variable {σ κ : Type}

/-- The server answers the requests of plugins by generation, key, edition and fingerprint, or
refuses them by these. -/
def ServesEditions (serve : Text → Caller σ κ)
    (S : Generation → Key → Text → Text → Option Gen2.Result) : Prop :=
  ∀ f remote client g e, e.Fits → e.FromPlugin →
    Workspace.served? (serve f) remote client g e = S g e.key e.edition f

/-- Whatever plugins have asked, the answer to a request is the server's answer for its edition. -/
def RespectsEditions (serve : Text → Caller σ κ)
    (S : Generation → Key → Text → Text → Option Gen2.Result) (first : Fleet σ κ) : Prop :=
  ∀ (history : List (Move σ κ)) (i : Nat) (m : Member κ) (g : Generation) (e : Expansion),
    (first.run serve history).members[i]? = some m →
    ToldApart (⟨g, e, m.fingerprint⟩ :: (first.run serve history).asked) →
    (∀ q ∈ ⟨g, e, m.fingerprint⟩ :: (first.run serve history).asked, q.expansion.FromPlugin) →
    ∀ r, (((first.run serve history).workspace m).expand (serve m.fingerprint) g e).2 = some r →
      ∃ r', S g e.key e.edition m.fingerprint = some r' ∧ r.Alike r'

def IgnoresEditions (S : Generation → Key → Text → Text → Option Gen2.Result) : Prop :=
  ∀ (g : Generation) (e : Expansion) (edition f : Text) (r : Gen2.Result), e.Fits → e.FromPlugin →
    edition.length < 2 ^ 32 → S g e.key edition f = some r →
      ∃ r', S g e.key e.edition f = some r' ∧ r.Alike r'

variable {serve : Text → Caller σ κ} {S : Generation → Key → Text → Text → Option Gen2.Result}

theorem ServesEditions.serves (h : ServesEditions serve S) :
    Serves (fun e => e.Fits ∧ e.FromPlugin) serve
      fun q => S q.generation q.expansion.key q.expansion.edition q.fingerprint :=
  fun f remote client g e _ he hr => (h f remote client g e he.1 he.2).symm.trans hr

theorem expand_first (hserve : ServesEditions serve S) {fleet : Fleet σ κ}
    (hsound : fleet.Sound (fun e => e.Fits ∧ e.FromPlugin)
      fun q => S q.generation q.expansion.key q.expansion.edition q.fingerprint)
    (hasked : fleet.asked = []) {m : Member κ} (hm : m ∈ fleet.members) {client : κ}
    (hclient : m.cell.load.client? = some client) {g : Generation} {e : Expansion} (he : e.Fits)
    (hplugin : e.FromPlugin) {r : Gen2.Result} (hr : S g e.key e.edition m.fingerprint = some r) :
    ∃ w r', (fleet.workspace m).expand (serve m.fingerprint) g e = (w, some r') ∧ r'.Alike r := by
  generalize hw : (fleet.workspace m).expand (serve m.fingerprint) g e = out
  obtain ⟨w, answer⟩ := out
  obtain ⟨-, hadmits, hnone⟩ := expand_sound hserve.serves hsound hm hw
  cases answer with
  | none =>
    rcases hnone rfl with hnone | ⟨client, -, -, hserved⟩
    · cases hnone.symm.trans hclient
    · rw [hserve _ _ _ _ _ he hplugin, hr] at hserved
      cases hserved
  | some r' =>
    obtain ⟨q, hq, -, hT⟩ := hadmits r' rfl
    rw [hasked, List.mem_singleton] at hq
    subst hq
    obtain ⟨r'', hr'', halike⟩ := hT ⟨he, hplugin⟩
    cases hr''.symm.trans hr
    exact ⟨w, r', rfl, halike⟩

theorem expand_again {fleet : Fleet σ κ} {i : Nat} {m : Member κ}
    (hm : fleet.members[i]? = some m) {memo : Memo Digest Gen2.Result}
    (hmemo : m.session.memo = some memo) (hc : 0 < memo.capacity) {client : κ}
    (hclient : m.cell.load.client? = some client) {g : Generation} {e e' : Expansion}
    (hkey : e.key = e'.key) {w : Workspace σ κ} {r : Gen2.Result}
    (hw : (fleet.workspace m).expand (serve m.fingerprint) g e = (w, some r)) :
    ∃ m', (fleet.step serve (.expand i g e)).members[i]? = some m' ∧
      m'.fingerprint = m.fingerprint ∧
      (((fleet.step serve (.expand i g e)).workspace m').expand (serve m.fingerprint) g e').2 =
        some r := by
  have hlt := (List.getElem?_eq_some_iff.mp hm).1
  have hremembers := Workspace.expand_remembers hmemo hc hw
  refine ⟨{ m with session := w.session, trace := w.trace }, ?_, rfl, ?_⟩
  · simp only [step, hm, hw]
    exact List.getElem?_set_self hlt
  · refine (Workspace.expand_remembered hclient ?_).1
    simp only [Workspace.digest, workspace, ← hkey] at hremembers ⊢
    exact hremembers

/-- Editions are respected exactly as far as the server does not tell them apart. -/
theorem respectsEditions_iff (hserve : ServesEditions serve S) {disk : DiskCache}
    {files : FileTree} (hsettled : files.Settled) (hempty : ∀ d, disk.stored? files d = none)
    (remote : σ) (client : κ) :
    RespectsEditions serve S (start disk files remote) ↔ IgnoresEditions S := by
  constructor
  · intro h g e edition f r he hplugin hlen hr
    -- one session asks under the other edition first, and then under the edition of the request
    let joined : Fleet σ κ :=
      (start disk files remote).step serve (.join 0 (some (.connected client)) f)
    let m : Member κ := ⟨Session.ofOptions 0 (some disk), some (.connected client), f, {}⟩
    have hm : joined.members[0]? = some m := rfl
    have hsound : joined.Sound _ _ := step_sound hserve.serves (.start hsettled hempty remote) _
    obtain ⟨w, r₀, hw, hr₀⟩ := expand_first hserve hsound rfl (List.mem_of_getElem? hm) rfl
      (he.withEdition hlen) (hplugin.withEdition edition)
      (by rwa [Expansion.key_withEdition, Expansion.edition_withEdition])
    obtain ⟨m', hm', hf, hagain⟩ :=
      expand_again hm rfl (by decide) rfl (e.key_withEdition edition) hw
    have hasked : ToldApart [⟨g, e, m'.fingerprint⟩, ⟨g, e.withEdition edition, f⟩] := by
      rw [hf]
      exact .of_same_key he (he.withEdition hlen) (e.key_withEdition edition).symm
    have hplugins : ∀ q ∈ [Query.mk g e m'.fingerprint, ⟨g, e.withEdition edition, f⟩],
        q.expansion.FromPlugin := by
      simp [hplugin, hplugin.withEdition edition]
    rw [← hf] at hagain
    obtain ⟨r', hr', halike⟩ :=
      h [.join 0 (some (.connected client)) f, .expand 0 g (e.withEdition edition)]
        0 m' g e hm' hasked hplugins r₀ hagain
    rw [hf] at hr'
    exact ⟨r', hr', hr₀.symm.trans halike⟩
  · intro h history i m g e hm hasked hplugin r hr
    have hsound := run_sound hserve.serves (.start hsettled hempty remote) history
    obtain ⟨q, hq, hg, hkey, hf, r', hT, hr'⟩ := answer_asked hserve.serves hsound
      (List.mem_of_getElem? hm) hasked (fun q hq => ⟨hasked.fits q hq, hplugin q hq⟩) hr
    rw [hg, hkey, hf] at hT
    obtain ⟨r'', hr'', halike⟩ := h g e q.expansion.edition m.fingerprint r'
      (hasked.fits _ List.mem_cons_self) (hplugin _ List.mem_cons_self)
      (hasked.fits q hq).edition hT
    exact ⟨r'', hr'', hr'.trans halike⟩

def repeatedEdition (g : Generation) (k : Key) (edition f : Text) : Option Gen2.Result :=
  match g, k with
  | .second, .attribute _ => Gen2.Result.codec.decode? (spoken [edition, f])
  | _, _ => none

def editionRequest (edition : Text) : Expansion :=
  .attribute (Package.attributeRequest ⟨"pkg", some ["memoize"], none, none, none, .second⟩
    ⟨.empty, .byPackage, edition⟩ ⟨⟨⟨.item, 0, 0, 1⟩, [{ (default : Token) with text := "f" }]⟩, []⟩
    { (default : Attribute) with name := "memoize" })

/-- A server that repeats the edition is heard wrongly. -/
theorem respectsEditions_iff_repeating :
    ServesEditions (repeating (fun _ => false) fun r => [r.item.metadata.edition]) repeatedEdition ∧
      ¬ RespectsEditions (repeating (fun _ => false) fun r => [r.item.metadata.edition])
        repeatedEdition (start ⟨"/c"⟩ (FileTree.empty "/") 0) := by
  have hserve : ServesEditions (repeating (fun _ => false) fun r => [r.item.metadata.edition])
      repeatedEdition := by
    intro f n client g e he _
    rw [served_repeating _ _ f n g he, if_neg Bool.false_ne_true]
    cases g with
    | first => cases e <;> rfl
    | second => cases e <;> rfl
  refine ⟨hserve, fun h => ?_⟩
  have hignores :=
    (respectsEditions_iff hserve (by decide) (DiskCache.stored_empty ⟨"/c"⟩ "/") 0 ()).mp h
  let answer (edition : Text) : Gen2.Result :=
    { stream := { tokens := some [⟨edition, ⟨0, 0⟩⟩, ⟨"f", ⟨0, 0⟩⟩] } }
  have hother : repeatedEdition .second (editionRequest "2024_07").key "2023_10" "f" =
      some (answer "2023_10") := by decide
  have hown :
      repeatedEdition .second (editionRequest "2024_07").key (editionRequest "2024_07").edition
        "f" = some (answer "2024_07") := by decide
  obtain ⟨r, hr, halike⟩ := hignores .second (editionRequest "2024_07") "2023_10" "f" _ (by decide)
    (.attribute _ _ _ _) (by decide) hother
  cases hown.symm.trans hr
  exact absurd halike.tokens (by decide)

end Fleet

end MacroRelay
