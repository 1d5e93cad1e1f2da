import MacroRelay.Proofs.Expansion.Request
import MacroRelay.Proofs.Session.Stores

/-!
# Sessions over one disk cache

A fleet is any number of sessions that share a disk cache and a world. Its history is any
sequence of moves: sessions join, ask, are purged, get another fingerprint or another status,
the disk is cleared, and the world changes between the calls. Every answer of a session, from
wherever it comes, is the answer that the server gave to some request with the same generation,
key and fingerprint.

Requests are assumed to fit the wire, as every request for source text does, and the hash not to
collide on what was asked.
-/

namespace MacroRelay

def Query.salted (q : Query) : Text :=
  q.expansion.key.digest.salted [q.generation.name, q.fingerprint]

/-- Requests that fit, and no collision of the hash among them. -/
structure ToldApart (qs : List Query) : Prop where
  fits : ∀ q ∈ qs, q.expansion.Fits
  tagged : ∀ q ∈ qs, ∀ q' ∈ qs, Sha256.Separates q.expansion.key.tagged q'.expansion.key.tagged
  salted : ∀ q ∈ qs, ∀ q' ∈ qs, Sha256.Separates q.salted q'.salted

theorem ToldApart.digest_inj {qs : List Query} (h : ToldApart qs) {q q' : Query} (hq : q ∈ qs)
    (hq' : q' ∈ qs) (heq : q.digest = q'.digest) : q.generation = q'.generation ∧
      q.expansion.key = q'.expansion.key ∧ q.fingerprint = q'.fingerprint := by
  have hlength : q.expansion.key.digest.length = q'.expansion.key.digest.length := by
    rw [Key.digest, Key.digest, Sha256.length_hash, Sha256.length_hash]
  obtain ⟨hdigest, hg, hf⟩ := Digest.salted_inj hlength (h.salted q hq q' hq' heq)
  exact ⟨hg, Key.tagged_inj (h.fits q hq).key (h.fits q' hq').key (h.tagged q hq q' hq' hdigest),
    hf⟩

theorem ToldApart.of_same {qs : List Query} {g : Generation} {k : Key} {f : Text}
    (h : ∀ q ∈ qs, q.expansion.Fits ∧ q.generation = g ∧ q.expansion.key = k ∧ q.fingerprint = f) :
    ToldApart qs := by
  refine ⟨fun q hq => (h q hq).1, fun q hq q' hq' _ => ?_, fun q hq q' hq' _ => ?_⟩
  · rw [(h q hq).2.2.1, (h q' hq').2.2.1]
  · obtain ⟨-, hg, hk, hf⟩ := h q hq
    obtain ⟨-, hg', hk', hf'⟩ := h q' hq'
    rw [Query.salted, Query.salted, hg, hk, hf, hg', hk', hf']

theorem ToldApart.of_same_key {g : Generation} {e e' : Expansion} {f : Text} (h : e.Fits)
    (h' : e'.Fits) (hkey : e.key = e'.key) : ToldApart [⟨g, e, f⟩, ⟨g, e', f⟩] :=
  .of_same (by simp [h, h', hkey] : ∀ q ∈ [Query.mk g e f, ⟨g, e', f⟩],
    q.expansion.Fits ∧ q.generation = g ∧ q.expansion.key = e.key ∧ q.fingerprint = f)

/-- Answers like the one that `T` has for some query with the digest, unless its request is none
that `C` is about. -/
def Admission.ofAsked (C : Expansion → Prop) (T : Query → Option Gen2.Result) (asked : List Query) :
    Admission where
  admits d r := ∃ q ∈ asked, q.digest = d ∧ (C q.expansion → ∃ r', T q = some r' ∧ r.Alike r')
  alike := fun halike ⟨q, hq, hd, hr⟩ => ⟨q, hq, hd, fun hC =>
    have ⟨r', hT, hr'⟩ := hr hC
    ⟨r', hT, halike.trans hr'⟩⟩

/-- Which answers a query may get, whatever lists are absent or empty in them. -/
structure Rule where
  allows : Query → Gen2.Result → Prop
  alike : ∀ {q r r'}, r'.Alike r → allows q r → allows q r'

def Rule.ofTable (C : Expansion → Prop) (T : Query → Option Gen2.Result) : Rule where
  allows q r := C q.expansion → ∃ r', T q = some r' ∧ r.Alike r'
  alike := fun halike h hC =>
    have ⟨r', hT, hr'⟩ := h hC
    ⟨r', hT, halike.trans hr'⟩

def Admission.ofRule (R : Rule) (asked : List Query) : Admission where
  admits d r := ∃ q ∈ asked, q.digest = d ∧ R.allows q r
  alike := fun halike ⟨q, hq, hd, hr⟩ => ⟨q, hq, hd, R.alike halike hr⟩

structure Member (κ : Type) where
  session : Session
  cell : StatusCell κ
  fingerprint : Text
  trace : Trace.Recorder := {}

structure Fleet (σ κ : Type) where
  disk : DiskCache
  files : FileTree
  remote : σ
  members : List (Member κ) := []
  /-- Every request that was made, the latest first. -/
  asked : List Query := []

namespace Fleet

inductive Move (σ κ : Type) where
  | join (memoSize : Int) (cell : StatusCell κ) (fingerprint : Text)
  | expand (member : Nat) (g : Generation) (e : Expansion)
  | purge (member : Nat)
  | clearDisk
  | reload (member : Nat) (fingerprint : Text)
  | setStatus (member : Nat) (status : Status κ)
  | drift (remote : σ)

variable {σ κ : Type}

def start (disk : DiskCache) (files : FileTree) (remote : σ) : Fleet σ κ :=
  { disk, files, remote }

def workspace (fleet : Fleet σ κ) (m : Member κ) : Workspace σ κ where
  session := m.session
  cell := m.cell
  files := fleet.files
  trace := m.trace
  fingerprint := m.fingerprint
  remote := fleet.remote

/-- `serve` carries out calls while the server has the fingerprint. -/
def step (serve : Text → Caller σ κ) (fleet : Fleet σ κ) : Move σ κ → Fleet σ κ
  | .join memoSize cell fingerprint =>
    { fleet with
      members := fleet.members ++
        [⟨Session.ofOptions memoSize (some fleet.disk), cell, fingerprint, {}⟩] }
  | .expand i g e =>
    match fleet.members[i]? with
    | none => fleet
    | some m =>
      let w := ((fleet.workspace m).expand (serve m.fingerprint) g e).1
      { fleet with
        files := w.files
        remote := w.remote
        members := fleet.members.set i { m with session := w.session, trace := w.trace }
        asked := ⟨g, e, m.fingerprint⟩ :: fleet.asked }
  | .purge i =>
    { fleet with
      members := fleet.members.modify i fun m => { m with session := m.session.clear } }
  | .clearDisk =>
    match fleet.disk.clear fleet.files with
    | .ok files => { fleet with files }
    | .error _ => fleet
  | .reload i fingerprint =>
    { fleet with members := fleet.members.modify i fun m => { m with fingerprint } }
  | .setStatus i status =>
    { fleet with
      members := fleet.members.modify i fun m => { m with cell := (m.cell.set status).1 } }
  | .drift remote => { fleet with remote }

def run (serve : Text → Caller σ κ) (fleet : Fleet σ κ) (history : List (Move σ κ)) : Fleet σ κ :=
  history.foldl (step serve) fleet

/-- What the server answers to a request that `C` is about is what `T` has for it. Any call may
fail. -/
def Serves (C : Expansion → Prop) (serve : Text → Caller σ κ) (T : Query → Option Gen2.Result) :
    Prop :=
  ∀ f remote client g e r, C e → Workspace.served? (serve f) remote client g e = some r →
    T ⟨g, e, f⟩ = some r

/-- All that is kept was answered to something asked. -/
structure Sound (C : Expansion → Prop) (T : Query → Option Gen2.Result) (fleet : Fleet σ κ) :
    Prop where
  settled : fleet.files.Settled
  disk : Workspace.DiskKeeps (.ofAsked C T fleet.asked) fleet.disk fleet.files
  members : ∀ m ∈ fleet.members, m.session.disk = some fleet.disk ∧
    Workspace.MemoKeeps (.ofAsked C T fleet.asked) m.session

/-- All that is kept was allowed for something asked. -/
structure Obeys (R : Rule) (fleet : Fleet σ κ) : Prop where
  settled : fleet.files.Settled
  disk : Workspace.DiskKeeps (.ofRule R fleet.asked) fleet.disk fleet.files
  members : ∀ m ∈ fleet.members, m.session.disk = some fleet.disk ∧
    Workspace.MemoKeeps (.ofRule R fleet.asked) m.session

def Follows (R : Rule) (serve : Text → Caller σ κ) : Prop :=
  ∀ f remote client g e r, Workspace.served? (serve f) remote client g e = some r →
    R.allows ⟨g, e, f⟩ r

variable {R : Rule} {C : Expansion → Prop} {T : Query → Option Gen2.Result}
  {serve : Text → Caller σ κ} {fleet : Fleet σ κ}

theorem Obeys.start {disk : DiskCache} {files : FileTree} (hsettled : files.Settled)
    (hempty : ∀ d, disk.stored? files d = none) (remote : σ) :
    (Fleet.start disk files remote : Fleet σ κ).Obeys R := by
  refine ⟨hsettled, fun d r h => ?_, fun m hm => nomatch hm⟩
  cases (hempty d).symm.trans h

theorem Obeys.keeps (h : fleet.Obeys R) {m : Member κ}
    (hm : m ∈ fleet.members) : (fleet.workspace m).Keeps (.ofRule R fleet.asked) := by
  obtain ⟨hdisk, hmemo⟩ := h.members m hm
  refine ⟨h.settled, hmemo, fun disk hd => ?_⟩
  cases hdisk.symm.trans hd
  exact h.disk

-- ---------------------------------------------------------------------------
-- Moves
-- ---------------------------------------------------------------------------

theorem forall_mem_modify {P : Member κ → Prop} {members : List (Member κ)}
    {f : Member κ → Member κ} (h : ∀ m ∈ members, P m) (hf : ∀ m, P m → P (f m)) (i : Nat) :
    ∀ m ∈ members.modify i f, P m := by
  intro m hm
  obtain ⟨j, hj⟩ := List.getElem?_of_mem hm
  rw [List.getElem?_modify] at hj
  obtain ⟨m0, hm0, rfl⟩ := Option.map_eq_some_iff.mp hj
  have hP := h m0 (List.mem_of_getElem? hm0)
  split
  · exact hf m0 hP
  · exact hP

theorem admits_mono {asked : List Query} {d : Digest} {r : Gen2.Result}
    (h : (Admission.ofRule R asked).admits d r) (q : Query) :
    (Admission.ofRule R (q :: asked)).admits d r := by
  obtain ⟨q', hq', hd⟩ := h
  exact ⟨q', List.mem_cons_of_mem _ hq', hd⟩

theorem Obeys.asking (h : fleet.Obeys R) (q : Query) :
    ({ fleet with asked := q :: fleet.asked } : Fleet σ κ).Obeys R where
  settled := h.settled
  disk d r hr := admits_mono (h.disk d r hr) q
  members m hm := ⟨(h.members m hm).1, fun memo hmemo p hp =>
    admits_mono ((h.members m hm).2 memo hmemo p hp) q⟩

/-- A member's request keeps all stores obedient, and its answer was allowed for something asked. -/
theorem expand_obeys (hserve : Follows R serve)
    (h : fleet.Obeys R) {m : Member κ} (hm : m ∈ fleet.members) {g : Generation}
    {e : Expansion} {w : Workspace σ κ} {answer : Option Gen2.Result}
    (hw : (fleet.workspace m).expand (serve m.fingerprint) g e = (w, answer)) :
    Workspace.Kept (.ofRule R (⟨g, e, m.fingerprint⟩ :: fleet.asked)) (fleet.workspace m) w ∧
      (∀ r, answer = some r → (Admission.ofRule R (⟨g, e, m.fingerprint⟩ :: fleet.asked)).admits
        (Query.digest ⟨g, e, m.fingerprint⟩) r) ∧
      (answer = none → m.cell.load.client? = none ∨ ∃ client, m.cell.load.client? = some client ∧
        Workspace.CallFailed (serve m.fingerprint) client g e (fleet.workspace m) w) := by
  refine Workspace.expand_kept ((h.asking ⟨g, e, m.fingerprint⟩).keeps hm)
    (fun client r hr => ?_) hw
  exact ⟨_, List.mem_cons_self, rfl, hserve _ _ _ _ _ _ hr⟩

theorem step_obeys (hserve : Follows R serve)
    (h : fleet.Obeys R) (move : Move σ κ) : (fleet.step serve move).Obeys R := by
  cases move with
  | join memoSize cell fingerprint =>
    refine ⟨h.settled, h.disk, fun m hm => ?_⟩
    rcases List.mem_append.mp hm with hm | hm
    · exact h.members m hm
    · rw [List.mem_singleton.mp hm]
      exact ⟨rfl, Workspace.memoKeeps_ofOptions memoSize _⟩
  | expand i g e =>
    simp only [step]
    split
    · exact h
    · rename_i m hi
      have hm := List.mem_of_getElem? hi
      obtain ⟨hkept, -⟩ := expand_obeys hserve h hm
        (Prod.eta ((fleet.workspace m).expand (serve m.fingerprint) g e)).symm
      have hasked := h.asking ⟨g, e, m.fingerprint⟩
      have hdisk := hkept.disk.trans (h.members m hm).1
      refine ⟨hkept.keeps.settled, hkept.keeps.disk _ hdisk, fun m' hm' => ?_⟩
      rcases List.mem_or_eq_of_mem_set hm' with hm' | rfl
      · exact hasked.members m' hm'
      · exact ⟨hdisk, hkept.keeps.memo⟩
  | purge i =>
    refine ⟨h.settled, h.disk, forall_mem_modify h.members ?_ i⟩
    exact fun m hm => ⟨hm.1, Workspace.memoKeeps_clear m.session⟩
  | clearDisk =>
    simp only [step]
    split
    · rename_i files hclear
      obtain ⟨hsettled, hdisk⟩ := h.disk.clear h.settled hclear
      exact ⟨hsettled, hdisk, h.members⟩
    · exact h
  | reload i fingerprint =>
    refine ⟨h.settled, h.disk, forall_mem_modify h.members ?_ i⟩
    exact fun m hm => hm
  | setStatus i status =>
    refine ⟨h.settled, h.disk, forall_mem_modify h.members ?_ i⟩
    exact fun m hm => hm
  | drift remote => exact ⟨h.settled, h.disk, h.members⟩

theorem run_obeys (hserve : Follows R serve)
    (h : fleet.Obeys R) (history : List (Move σ κ)) : (fleet.run serve history).Obeys R := by
  induction history generalizing fleet with
  | nil => exact h
  | cons move history ih => exact ih (step_obeys hserve h move)

theorem answer_allowed (hserve : Follows R serve) (h : fleet.Obeys R) {m : Member κ}
    (hm : m ∈ fleet.members) {g : Generation} {e : Expansion}
    (hasked : ToldApart (⟨g, e, m.fingerprint⟩ :: fleet.asked)) {r : Gen2.Result}
    (hr : ((fleet.workspace m).expand (serve m.fingerprint) g e).2 = some r) :
    ∃ q ∈ ⟨g, e, m.fingerprint⟩ :: fleet.asked, q.generation = g ∧ q.expansion.key = e.key ∧
      q.fingerprint = m.fingerprint ∧ R.allows q r := by
  obtain ⟨-, hadmits, -⟩ := expand_obeys hserve h hm
    (Prod.eta ((fleet.workspace m).expand (serve m.fingerprint) g e)).symm
  obtain ⟨q, hq, hdigest, hallows⟩ := hadmits r hr
  obtain ⟨hg, hkey, hf⟩ := hasked.digest_inj hq List.mem_cons_self hdigest
  exact ⟨q, hq, hg, hkey, hf, hallows⟩

-- ---------------------------------------------------------------------------
-- Answers by a table
-- ---------------------------------------------------------------------------

theorem sound_iff_obeys : fleet.Sound C T ↔ fleet.Obeys (.ofTable C T) :=
  ⟨fun h => ⟨h.settled, h.disk, h.members⟩, fun h => ⟨h.settled, h.disk, h.members⟩⟩

theorem Serves.follows (h : Serves C serve T) : Follows (.ofTable C T) serve :=
  fun _ _ _ _ _ r hr hC => ⟨r, h _ _ _ _ _ _ hC hr, .refl r⟩

theorem Sound.start {disk : DiskCache} {files : FileTree}
    (hsettled : files.Settled) (hempty : ∀ d, disk.stored? files d = none) (remote : σ) :
    Sound C T (Fleet.start disk files remote : Fleet σ κ) :=
  sound_iff_obeys.mpr (.start hsettled hempty remote)

theorem expand_sound (hserve : Serves C serve T)
    (h : fleet.Sound C T) {m : Member κ} (hm : m ∈ fleet.members) {g : Generation}
    {e : Expansion} {w : Workspace σ κ} {answer : Option Gen2.Result}
    (hw : (fleet.workspace m).expand (serve m.fingerprint) g e = (w, answer)) :
    Workspace.Kept (.ofAsked C T (⟨g, e, m.fingerprint⟩ :: fleet.asked)) (fleet.workspace m) w ∧
      (∀ r, answer = some r → (Admission.ofAsked C T (⟨g, e, m.fingerprint⟩ :: fleet.asked)).admits
        (Query.digest ⟨g, e, m.fingerprint⟩) r) ∧
      (answer = none → m.cell.load.client? = none ∨ ∃ client, m.cell.load.client? = some client ∧
        Workspace.CallFailed (serve m.fingerprint) client g e (fleet.workspace m) w) :=
  expand_obeys hserve.follows (sound_iff_obeys.mp h) hm hw

theorem step_sound (hserve : Serves C serve T)
    (h : fleet.Sound C T) (move : Move σ κ) : (fleet.step serve move).Sound C T :=
  sound_iff_obeys.mpr (step_obeys hserve.follows (sound_iff_obeys.mp h) move)

theorem run_sound (hserve : Serves C serve T)
    (h : fleet.Sound C T) (history : List (Move σ κ)) : (fleet.run serve history).Sound C T :=
  sound_iff_obeys.mpr (run_obeys hserve.follows (sound_iff_obeys.mp h) history)

theorem answer_asked (hserve : Serves C serve T)
    (h : fleet.Sound C T) {m : Member κ} (hm : m ∈ fleet.members) {g : Generation}
    {e : Expansion} (hasked : ToldApart (⟨g, e, m.fingerprint⟩ :: fleet.asked))
    (hC : ∀ q ∈ ⟨g, e, m.fingerprint⟩ :: fleet.asked, C q.expansion) {r : Gen2.Result}
    (hr : ((fleet.workspace m).expand (serve m.fingerprint) g e).2 = some r) :
    ∃ q ∈ ⟨g, e, m.fingerprint⟩ :: fleet.asked, q.generation = g ∧ q.expansion.key = e.key ∧
      q.fingerprint = m.fingerprint ∧ ∃ r', T q = some r' ∧ r.Alike r' := by
  obtain ⟨q, hq, hg, hkey, hf, hallows⟩ :=
    answer_allowed hserve.follows (sound_iff_obeys.mp h) hm hasked hr
  exact ⟨q, hq, hg, hkey, hf, hallows (hC q hq)⟩

/-- Caching cannot be seen. Over any history from an empty disk, a server that answers by
generation, key and fingerprint is heard as it is, whoever remembers the answer; and there is no
answer only without a connection, or when the call made for this very request failed. -/
theorem expand_transparent {S : Generation → Key → Text → Gen2.Result}
    (hserve : Serves Expansion.Fits serve
      fun q => some (S q.generation q.expansion.key q.fingerprint)) {disk : DiskCache}
    {files : FileTree} {remote : σ} (hsettled : files.Settled)
    (hempty : ∀ d, disk.stored? files d = none) (history : List (Move σ κ))
    (hfleet : fleet = (start disk files remote).run serve history) {i : Nat} {m : Member κ}
    (hm : fleet.members[i]? = some m) {g : Generation} {e : Expansion}
    (hasked : ToldApart (⟨g, e, m.fingerprint⟩ :: fleet.asked)) {w : Workspace σ κ}
    {answer : Option Gen2.Result}
    (hw : (fleet.workspace m).expand (serve m.fingerprint) g e = (w, answer)) :
    (∀ r, answer = some r → r.Alike (S g e.key m.fingerprint)) ∧
      (answer = none → m.cell.load.client? = none ∨ ∃ client, m.cell.load.client? = some client ∧
        Workspace.CallFailed (serve m.fingerprint) client g e (fleet.workspace m) w) := by
  have hsound : fleet.Sound _ _ := hfleet ▸ run_sound hserve (.start hsettled hempty remote) history
  have hmem := List.mem_of_getElem? hm
  obtain ⟨-, -, hnone⟩ := expand_sound hserve hsound hmem hw
  refine ⟨fun r hr => ?_, hnone⟩
  obtain ⟨q, -, hg, hkey, hf, r', hT, hr'⟩ := answer_asked hserve hsound hmem hasked
    hasked.fits ((congrArg Prod.snd hw).trans hr)
  cases hT
  rwa [hg, hkey, hf] at hr'

-- ---------------------------------------------------------------------------
-- A server that repeats what it is told
-- ---------------------------------------------------------------------------

def spoken (texts : List Text) : Text :=
  Gen2.Result.codec.write { stream := { tokens := some (texts.map fun t => ⟨t, ⟨0, 0⟩⟩) } }

/-- Expands attributes of the second generation to texts taken from the request and to its own
fingerprint. Its calls are numbered, and some of them fail. -/
def repeating (fails : Nat → Bool) (said : Gen2.AttributeRequest → List Text) (f : Text) :
    Caller Nat Unit :=
  fun n _ method params =>
    (n + 1,
      if fails n ∨ method ≠ (Method.expand .second .attribute).name then
        .error (.remote method "refused")
      else match Gen2.AttributeRequest.codec.decode? params with
        | some r => .ok (some (spoken (said r ++ [f])))
        | none => .error (.undecodable method))

def repeated? (said : Gen2.AttributeRequest → List Text) (q : Query) : Option Gen2.Result :=
  match q.generation, q.expansion with
  | .second, .attribute r => Gen2.Result.codec.decode? (spoken (said r ++ [q.fingerprint]))
  | _, _ => none

theorem served_repeating (fails : Nat → Bool) (said : Gen2.AttributeRequest → List Text)
    (f : Text) (n : Nat) (g : Generation) {e : Expansion} (he : e.Fits) :
    Workspace.served? (repeating fails said f) n () g e =
      if fails n then none else repeated? said ⟨g, e, f⟩ := by
  unfold Workspace.served? repeating repeated?
  cases hn : fails n with
  | true => simp
  | false =>
    cases g with
    | first => cases e <;> rfl
    | second =>
      cases e with
      | «attribute» r =>
        have hback := (Gen2.AttributeRequest.codec_returns he).decode
        simp [Expansion.method, Expansion.shape, Expansion.key, Key.shape, Expansion.params, hback,
          Expansion.answer?]
      | «derive» r => rfl
      | «inline» r => rfl

theorem repeating_serves (fails : Nat → Bool) (said : Gen2.AttributeRequest → List Text) :
    Serves Expansion.Fits (repeating fails said) (repeated? said) := by
  intro f n client g e r he hr
  rw [served_repeating fails said f n g he] at hr
  split at hr
  · cases hr
  · exact hr

/-- A request and the same one with its item split otherwise. -/
def wholeRequest : Gen2.AttributeRequest :=
  { attr := "memoize", item := { tokens := some [⟨"fn f() \x7b\x7d", ⟨0, 9⟩⟩] } }

def splitRequest : Gen2.AttributeRequest :=
  { wholeRequest with item := { tokens := some [⟨"fn", ⟨0, 2⟩⟩, ⟨" f() \x7b\x7d", ⟨2, 9⟩⟩] } }

theorem splitRequest_key : splitRequest.key = wholeRequest.key := by decide

def repeatedOf (g : Generation) (k : Key) (f : Text) : Gen2.Result :=
  match g, k with
  | .second, .attribute k => (Gen2.Result.codec.decode? (spoken [k.attr, k.item, f])).getD {}
  | _, _ => {}

/-- One session asks, and another one without a memo asks the same in other tokens, of a server
that fails every third call. The disk answers. -/
theorem expand_transparent_resplit :
    let serve := repeating (fun n => n % 3 == 2) fun r => [r.attr, r.item.text]
    let history : List (Move Nat Unit) := [.join 1 (some (.connected ())) "f",
      .expand 0 .second (.attribute wholeRequest), .purge 0, .join (-1) (some (.connected ())) "f"]
    let fleet := (start ⟨"/c"⟩ (FileTree.empty "/") 0).run serve history
    ∃ m w r, fleet.members[1]? = some m ∧
      (fleet.workspace m).expand (serve m.fingerprint) .second (.attribute splitRequest) =
        (w, some r) ∧ w.session.stats.diskHits = 1 ∧
      r.Alike (repeatedOf .second (.attribute wholeRequest.key) "f") := by
  intro serve history fleet
  have hserve : Serves Expansion.Fits serve
      fun q => some (repeatedOf q.generation q.expansion.key q.fingerprint) := by
    intro f n client g e r he hr
    have hT := repeating_serves _ _ f n client g e r he hr
    cases g with
    | first => cases hT
    | second =>
      cases e with
      | «attribute» r0 =>
        have hsaid : Gen2.Result.codec.decode? (spoken [r0.attr, r0.item.text, f]) = some r := hT
        simp [repeatedOf, Expansion.key, Gen2.AttributeRequest.key, hsaid]
      | «derive» r0 => cases hT
      | «inline» r0 => cases hT
  let m : Member Unit := ⟨Session.ofOptions (-1) (some ⟨"/c"⟩), some (.connected ()), "f", {}⟩
  have hm : fleet.members[1]? = some m := rfl
  have hasked : ToldApart (⟨.second, .attribute splitRequest, m.fingerprint⟩ :: fleet.asked) :=
    .of_same_key (by decide) (by decide) (congrArg Key.attribute splitRequest_key)
  have hsettled : (FileTree.empty "/").Settled := by decide
  have hfleet : fleet = (start ⟨"/c"⟩ (FileTree.empty "/") 0).run serve history := rfl
  have hdisk :
      let out := (fleet.workspace m).expand (serve m.fingerprint) .second (.attribute splitRequest)
      out.2.isSome ∧ out.1.session.stats.diskHits = 1 := by decide +kernel
  refine ⟨m, ?_⟩
  generalize hout : (fleet.workspace m).expand _ _ _ = out at hdisk ⊢
  obtain ⟨w, answer⟩ := out
  obtain ⟨r, rfl⟩ := Option.isSome_iff_exists.mp hdisk.1
  refine ⟨w, r, hm, rfl, hdisk.2, ?_⟩
  rw [← splitRequest_key]
  exact (expand_transparent hserve hsettled (DiskCache.stored_empty ⟨"/c"⟩ "/") history hfleet hm
    hasked hout).1 r rfl

end Fleet

end MacroRelay
