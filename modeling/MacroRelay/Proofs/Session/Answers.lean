import MacroRelay.Proofs.Session.Plugins

/-!
# Answers do not depend on what was asked before

A request changes the memo, the entries of the disk cache and the world, and nothing else that
matters. If the server answers by generation and key alone, and the stores hold nothing but its
answers, then every job gets the server's answer, whatever was asked before it.
-/

namespace MacroRelay

namespace Workspace

variable {σ κ : Type} {call : Caller σ κ} {w w' w'' : Workspace σ κ}

-- ---------------------------------------------------------------------------
-- What a request leaves alone
-- ---------------------------------------------------------------------------

def Placed (w : Workspace σ κ) : Prop :=
  ∀ c ∈ w.session.disk, c.Placed w.files

def Spares (w : Workspace σ κ) (path : Text) : Prop :=
  ∀ c ∈ w.session.disk, c.Spares w.files path

/-- Connected alike, over the same disk cache, with the same files but for its entries. -/
structure Aside (w w' : Workspace σ κ) : Prop where
  cell : w'.cell = w.cell
  fingerprint : w'.fingerprint = w.fingerprint
  disk : w'.session.disk = w.session.disk
  uncached : w.session.disk = none → w'.files = w.files
  cached : ∀ c ∈ w.session.disk, c.Aside w.files w'.files

namespace Aside

theorem of_files (hcell : w'.cell = w.cell) (hfingerprint : w'.fingerprint = w.fingerprint)
    (hdisk : w'.session.disk = w.session.disk) (hfiles : w'.files = w.files) : Aside w w' :=
  ⟨hcell, hfingerprint, hdisk, fun _ => hfiles, fun c _ => hfiles ▸ .refl c _⟩

theorem refl (w : Workspace σ κ) : Aside w w := of_files rfl rfl rfl rfl

theorem trans (h : Aside w w') (h' : Aside w' w'') : Aside w w'' where
  cell := h'.cell.trans h.cell
  fingerprint := h'.fingerprint.trans h.fingerprint
  disk := h'.disk.trans h.disk
  uncached hnone := (h'.uncached (h.disk.trans hnone)).trans (h.uncached hnone)
  cached c hc := (h.cached c hc).trans (h'.cached c (h.disk ▸ hc))

theorem placed (h : Aside w w') (hw : w.Placed) : w'.Placed := fun c hc =>
  have hc : c ∈ w.session.disk := h.disk ▸ hc
  (h.cached c hc).placed (hw c hc)

theorem spares (h : Aside w w') {path : Text} (hpath : w.Spares path) : w'.Spares path := fun c hc =>
  have hc : c ∈ w.session.disk := h.disk ▸ hc
  (h.cached c hc).spares.mpr (hpath c hc)

theorem read (h : Aside w w') (hw : w.Placed) {path : Text} (hpath : w.Spares path) :
    w'.files.read path = w.files.read path := by
  cases hdisk : w.session.disk with
  | none => rw [h.uncached hdisk]
  | some c => exact (h.cached c hdisk).read (hw c hdisk).settled (hpath c hdisk)

end Aside

theorem lookUp_disk {s s' : Session} {d : Digest} {found : Option Gen2.Result}
    (h : s.lookUp d = (s', found)) : s'.disk = s.disk := by
  unfold Session.lookUp at h
  split at h <;> cases h <;> rfl

theorem store_aside (hw : w.Placed) (d : Digest) (r : Gen2.Result) : Aside w (w.store d r) := by
  unfold store
  split
  · exact .refl w
  · rename_i c hdisk
    split
    · rename_i files hput
      refine ⟨rfl, rfl, rfl, fun hnone => ?_, fun c' hc' => ?_⟩
      · cases hdisk.symm.trans hnone
      · cases hdisk.symm.trans hc'
        exact DiskCache.put_aside (hw c hdisk) hput
    · exact .of_files rfl rfl rfl rfl

theorem request_aside (call : Caller σ κ) (w : Workspace σ κ) (client : κ) (g : Generation)
    (e : Expansion) :
    Aside w (w.request call client g e).1 :=
  .of_files rfl rfl rfl rfl

theorem flight_aside (call : Caller σ κ) (hw : w.Placed) (client : κ) (d : Digest) (g : Generation)
    (e : Expansion) :
    Aside w (w.flight call client d g e).1 := by
  unfold flight
  split
  · rename_i session r hl
    exact .of_files rfl rfl (lookUp_disk hl) rfl
  · split
    · rename_i w1 r hf
      obtain ⟨trace, rfl⟩ := fetch_eq hf
      exact .of_files rfl rfl rfl rfl
    · rename_i w1 hf
      obtain ⟨trace, rfl⟩ := fetch_eq hf
      have hw1 : Aside w { w with trace } := .of_files rfl rfl rfl rfl
      have hw2 := hw1.trans (request_aside call _ client g e)
      split
      · rename_i w2 fault hq
        rw [hq] at hw2
        exact hw2
      · rename_i w2 r hq
        rw [hq] at hw2
        have hw3 : Aside w { w2 with session := w2.session.remember d r } :=
          hw2.trans (.of_files rfl rfl rfl rfl)
        exact hw3.trans (store_aside (hw3.placed hw) d r)

theorem expand_aside (call : Caller σ κ) (hw : w.Placed) (g : Generation) (e : Expansion) :
    Aside w (w.expand call g e).1 := by
  simp only [expand]
  generalize Trace.Recorder.attach _ _ _ _ = started
  obtain ⟨trace, work⟩ := started
  have hw0 : Aside w { w with trace } := .of_files rfl rfl rfl rfl
  split
  · exact .of_files rfl rfl rfl rfl
  · rename_i client hclient
    split
    · rename_i session r hl
      have hdisk := lookUp_disk hl
      exact .of_files rfl rfl hdisk rfl
    · have hw1 := hw0.trans (flight_aside call (hw0.placed hw) client
        (({ w with trace } : Workspace σ κ).digest g e) g e)
      split
      · rename_i w1 r hf
        rw [hf] at hw1
        exact hw1.trans (.of_files rfl rfl rfl rfl)
      · rename_i w1 fault hf
        rw [hf] at hw1
        exact hw1.trans (.of_files rfl rfl rfl rfl)

end Workspace

-- ---------------------------------------------------------------------------
-- A server that answers by generation and key
-- ---------------------------------------------------------------------------

/-- Every request that fits is answered, as its generation and key say. -/
def AnswersBy {σ κ : Type} (S : Generation → Key → Gen2.Result) (call : Caller σ κ) : Prop :=
  ∀ remote client g (e : Expansion), e.Fits →
    Workspace.served? call remote client g e = some (S g e.key)

def Admission.answers (S : Generation → Key → Gen2.Result) (asked : List Query) : Admission where
  admits d r := ∀ q ∈ asked, q.digest = d → r.Alike (S q.generation q.expansion.key)
  alike := fun halike h q hq hd => halike.trans (h q hq hd)

def Workspace.Asks {σ κ : Type} (asked : List Query) (w : Workspace σ κ) (g : Generation)
    (e : Expansion) : Prop :=
  ∃ q ∈ asked, q.generation = g ∧ q.expansion.key = e.key ∧ q.fingerprint = w.fingerprint

namespace Workspace

variable {σ κ : Type} {call : Caller σ κ} {w : Workspace σ κ} {S : Generation → Key → Gen2.Result}
  {asked : List Query} {g : Generation} {e : Expansion}

theorem expand_answers (hcall : AnswersBy S call) (hw : w.Keeps (.answers S asked))
    (htold : ToldApart asked) (hasked : w.Asks asked g e) (hfits : e.Fits) :
    Kept (.answers S asked) w (w.expand call g e).1 ∧
      match w.cell.load.client? with
      | none => (w.expand call g e).2 = none
      | some _ => ∃ r, (w.expand call g e).2 = some r ∧ r.Alike (S g e.key) := by
  obtain ⟨q, hq, hg, hkey, hf⟩ := hasked
  have hdigest : q.digest = w.digest g e := by
    rw [Query.digest, digest, hg, hkey, hf]
  have hadmits : (Admission.answers S asked).admits (w.digest g e) (S g e.key) := by
    intro q' hq' hd
    obtain ⟨hg', hkey', -⟩ := htold.digest_inj hq' hq (hd.trans hdigest.symm)
    rw [hg', hkey', hg, hkey]
    exact .refl _
  generalize hout : w.expand call g e = out
  obtain ⟨w', answer⟩ := out
  obtain ⟨hkept, hsome, hnone⟩ := expand_kept hw (fun client r hr => by
    cases (hcall _ _ _ _ hfits).symm.trans hr
    exact hadmits) hout
  refine ⟨hkept, ?_⟩
  split
  · rename_i hclient
    simp only [expand, hclient] at hout
    cases hout
    rfl
  · rename_i client hclient
    cases answer with
    | none =>
      rcases hnone rfl with hoff | ⟨client', -, -, hfailed⟩
      · cases hoff.symm.trans hclient
      · cases (hcall _ _ _ _ hfits).symm.trans hfailed
    | some r =>
      have hr := hsome r rfl q hq hdigest
      rw [hg, hkey] at hr
      exact ⟨r, rfl, hr⟩

-- ---------------------------------------------------------------------------
-- Jobs
-- ---------------------------------------------------------------------------

/-- The stores hold nothing but the server's answers, and those on disk are in their place. -/
structure Ready (S : Generation → Key → Gen2.Result) (asked : List Query) (w : Workspace σ κ) :
    Prop where
  keeps : w.Keeps (.answers S asked)
  placed : w.Placed

def outcome (S : Generation → Key → Gen2.Result) (w : Workspace σ κ) (p : Package)
    (c : PluginContext) (job : PluginJob) : Generated :=
  match job.request? p c with
  | none => {}
  | some e => if w.cell.load.client?.isSome then job.conclude p (S p.generation e.key) else {}

theorem Aside.outcome {w' : Workspace σ κ} (h : Aside w w') : w'.outcome S = w.outcome S := by
  funext p c job
  rw [Workspace.outcome, Workspace.outcome, h.cell]

def Expects (asked : List Query) (w : Workspace σ κ) (c : PluginContext) (p : Package)
    (job : PluginJob) : Prop :=
  ∀ e ∈ job.request? p c, e.Fits ∧ w.Asks asked p.generation e

theorem Aside.expects {w' : Workspace σ κ} {c : PluginContext} {p : Package} {job : PluginJob}
    (h : Aside w w') (hw : w.Expects asked c p job) : w'.Expects asked c p job := by
  unfold Expects Asks
  rw [h.fingerprint]
  exact hw

theorem outcome_into {job : PluginJob} (h : job.Whole) (w : Workspace σ κ) (p : Package)
    (files files' : FileSet) (edition : Text) (file : FileId) :
    w.outcome S p (PluginJob.context files' edition) (job.relabel (.into file)) =
      (w.outcome S p (PluginJob.context files edition) job).inFile file := by
  unfold outcome
  rw [PluginJob.request_into h p files files']
  cases job.request? p (PluginJob.context files edition) with
  | none => rfl
  | some e =>
    simp only [Option.map_some, Expansion.key_elsewhere, PluginJob.conclude_into h]
    split <;> rfl

theorem Expects.into {job : PluginJob} (h : job.Whole) {p : Package} {files files' : FileSet}
    {edition : Text} {file : FileId}
    (hw : w.Expects asked (PluginJob.context files edition) p job)
    (hpath : ∀ e ∈ job.request? p (PluginJob.context files edition),
      (files'.filePath file).length < 2 ^ 32) :
    w.Expects asked (PluginJob.context files' edition) p (job.relabel (.into file)) := by
  intro e he
  rw [Option.mem_def, PluginJob.request_into h p files files'] at he
  obtain ⟨e, hrequest, rfl⟩ := Option.map_eq_some_iff.mp he
  obtain ⟨hfits, hasks⟩ := hw e hrequest
  refine ⟨hfits.elsewhere (hpath e hrequest), ?_⟩
  rw [Asks, Expansion.key_elsewhere]
  exact hasks

theorem perform_answers {p : Package} {c : PluginContext} {job : PluginJob}
    (hcall : AnswersBy S call) (htold : ToldApart asked) (hw : w.Ready S asked)
    (hasked : w.Expects asked c p job) :
    (w.perform call p c job).1.Ready S asked ∧ Aside w (w.perform call p c job).1 ∧
      (w.perform call p c job).2 = w.outcome S p c job := by
  cases hrequest : job.request? p c with
  | none =>
    rw [perform_of_none hrequest, outcome, hrequest]
    exact ⟨hw, .refl w, rfl⟩
  | some e =>
    obtain ⟨hfits, hasks⟩ := hasked e hrequest
    obtain ⟨hkept, hanswer⟩ := expand_answers hcall hw.keeps htold hasks hfits
    have haside := expand_aside call hw.placed p.generation e
    obtain ⟨trace, hperform⟩ := perform_of_some call hrequest w
    rw [hperform, outcome, hrequest]
    generalize w.expand call p.generation e = out at hkept hanswer haside ⊢
    obtain ⟨w', answer⟩ := out
    have haside' : Aside w { w' with trace } := haside.trans (.of_files rfl rfl rfl rfl)
    refine ⟨⟨⟨hkept.keeps.settled, hkept.keeps.memo, hkept.keeps.disk⟩, haside'.placed hw.placed⟩,
      haside', ?_⟩
    cases hclient : w.cell.load.client? with
    | none =>
      rw [hclient] at hanswer
      rw [hanswer]
      rfl
    | some client =>
      rw [hclient] at hanswer
      obtain ⟨r, hr, halike⟩ := hanswer
      rw [hr]
      exact PluginJob.conclude_alike halike p job

def performAll (call : Caller σ κ) (c : PluginContext) :
    List (Package × PluginJob) → Workspace σ κ → Workspace σ κ × List Generated
  | [], w => (w, [])
  | (p, job) :: jobs, w =>
    let (w, g) := w.perform call p c job
    let (w, made) := performAll call c jobs w
    (w, g :: made)

theorem performAll_answers {c : PluginContext} {jobs : List (Package × PluginJob)}
    (hcall : AnswersBy S call) (htold : ToldApart asked) (hw : w.Ready S asked)
    (hasked : ∀ job ∈ jobs, w.Expects asked c job.1 job.2) :
    (performAll call c jobs w).1.Ready S asked ∧ Aside w (performAll call c jobs w).1 ∧
      (performAll call c jobs w).2 = jobs.map fun job => w.outcome S job.1 c job.2 := by
  induction jobs generalizing w with
  | nil => exact ⟨hw, .refl w, rfl⟩
  | cons job jobs ih =>
    obtain ⟨hjob, hjobs⟩ := List.forall_mem_cons.mp hasked
    obtain ⟨hready, haside, hmade⟩ := perform_answers hcall htold hw hjob
    obtain ⟨hready', haside', hmore⟩ := ih hready fun job hj => haside.expects (hjobs job hj)
    refine ⟨hready', haside.trans haside', ?_⟩
    rw [List.map_cons, ← hmade, ← haside.outcome, ← hmore]
    rfl

end Workspace

end MacroRelay
