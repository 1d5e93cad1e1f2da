import MacroRelay.Proofs.Relay.Plan
import MacroRelay.Proofs.Source.FileSet
import Mathlib.Data.List.Nodup

/-!
# Files in any order

The files of a batch can be expanded in any order. Every file gets what it gets on its own, in a file
of its own: answers come from the server or are what the server would answer, and the entries of the
disk cache are no sources.
-/

namespace MacroRelay

-- ---------------------------------------------------------------------------
-- Reports
-- ---------------------------------------------------------------------------

namespace FileReport

def of (path : Text) (file : FileId) (made : List Generated) : FileReport :=
  ⟨path, file, made.filterMap (·.code), made.flatMap (·.diagnostics)⟩

def inFile (file : FileId) (report : FileReport) : FileReport :=
  { report with file, diagnostics := report.diagnostics.map (Diagnostic.inFile file) }

theorem of_inFile (path : Text) (file file' : FileId) (made : List Generated) :
    of path file' (made.map (Generated.inFile file')) = (of path file made).inFile file' := by
  simp [of, inFile, Generated.inFile, List.filterMap_map, List.flatMap_map, List.map_flatMap,
    Function.comp_def]

/-- A report says of its file, which is among the sources, what another one says of its own among
other sources. Both files have the same path and the same lines. -/
structure SameAs (sources sources' : FileSet) (solo report : FileReport) : Prop where
  renamed : report = solo.inFile report.file
  own : ∀ d ∈ solo.diagnostics, d.primary.file = solo.file
  known : ∃ f, sources'.get? report.file = some f
  path : sources'.filePath report.file = sources.filePath solo.file
  resolve : ∀ span, sources'.resolve ⟨report.file, span⟩ = sources.resolve ⟨solo.file, span⟩

theorem SameAs.grown {sources sources' sources'' : FileSet} {solo report : FileReport}
    (h : SameAs sources sources' solo report) (hgrown : sources'.Grown sources'') :
    SameAs sources sources'' solo report := by
  obtain ⟨f, hf⟩ := h.known
  have hget : sources''.get? report.file = sources'.get? report.file :=
    (hgrown.keeps _ f hf).trans hf.symm
  refine ⟨h.renamed, h.own, ⟨f, hget.trans hf⟩, ?_, fun span => ?_⟩
  · rw [FileSet.filePath, hget, ← FileSet.filePath, h.path]
  · rw [FileSet.resolve, hget, ← h.resolve]
    rfl

end FileReport

-- ---------------------------------------------------------------------------
-- Single files
-- ---------------------------------------------------------------------------

namespace Relay

variable {σ κ : Type} {call : Caller σ κ} {o : ExpandOptions} {path : Text}

def opened (r : Relay σ κ) (path : Text) : Except FileFault (FileSet × FileId × Text) :=
  (r.workspace.files.read path).map fun raw =>
    let (content, flags) := FileSet.normalize raw
    let (sources, file) := r.sources.add path content flags
    (sources, file, content)

theorem expandFile_eq {r : Relay σ κ} (h : r.sources.files.size < 2 ^ 32) :
    expandFile call o r path =
      match r.opened path with
      | .error fault => (r, .error (.unreadable fault))
      | .ok (sources, file, text) =>
        let (workspace, made) := follow call (PluginJob.context sources o.edition)
          (.ofText o r.suites file text) r.workspace
        ({ r with sources, workspace }, made.map (FileReport.of path file)) := by
  unfold expandFile opened FileSet.load
  cases r.workspace.files.read path with
  | error fault => rfl
  | ok raw =>
    simp only [bind, Except.bind, pure, Except.pure, Except.map, FileSet.get?_add h, Option.map_some,
      Option.getD_some, expandText_eq]
    generalize follow call _ _ r.workspace = out
    obtain ⟨w, made⟩ := out
    cases made <;> rfl

def queries (o : ExpandOptions) (r : Relay σ κ) (path : Text) : List Query :=
  match r.opened path with
  | .error _ => []
  | .ok (sources, file, text) =>
    (Plan.ofText o r.suites file text).jobs.filterMap fun (p, job) =>
      (job.request? p (PluginJob.context sources o.edition)).map
        (⟨p.generation, ·, r.workspace.fingerprint⟩)

variable {S : Generation → Key → Gen2.Result} {asked : List Query}

structure Underway (S : Generation → Key → Gen2.Result) (asked : List Query) (r r' : Relay σ κ) :
    Prop where
  suites : r'.suites = r.suites
  grown : r.sources.Grown r'.sources
  ready : r'.workspace.Ready S asked
  aside : Workspace.Aside r.workspace r'.workspace

/-- Both fail, or both report the same. The second report is about the file that was added last. -/
def Agree (sources : FileSet) (solo : Relay σ κ × Except ExpandError FileReport)
    (out : Relay σ κ × Except ExpandError FileReport) : Prop :=
  (∃ e e', solo.2 = .error e ∧ out.2 = .error e') ∨
    ∃ report report', solo.2 = .ok report ∧ out.2 = .ok report' ∧
      FileReport.SameAs solo.1.sources out.1.sources report report' ∧
      report'.file.toNat = sources.files.size ∧ out.1.sources.files.size = sources.files.size + 1

section Opened

variable {r r' : Relay σ κ} {sources sources' : FileSet} {file file' : FileId} {text : Text}

theorem opened_ok (h : r.opened path = .ok (sources, file, text))
    (hroom : r.sources.files.size < 2 ^ 32) :
    (∃ flags, sources.get? file =
        some ⟨file, Path.clean path, text, flags, lineFeedsFrom 0 #[] text⟩) ∧
      file.toNat = r.sources.files.size ∧ r.sources.Grown sources ∧
      sources.files.size = r.sources.files.size + 1 := by
  unfold opened at h
  cases hraw : r.workspace.files.read path with
  | error fault => simp [hraw, Except.map] at h
  | ok raw =>
    simp only [hraw, Except.map, Except.ok.injEq, Prod.mk.injEq] at h
    obtain ⟨rfl, rfl, rfl⟩ := h
    exact ⟨⟨_, FileSet.get?_add hroom ..⟩, FileSet.toNat_add hroom .., FileSet.grown_add ..,
      FileSet.size_add ..⟩

theorem opened_cases (h : r'.workspace.files.read path = r.workspace.files.read path) :
    (∃ fault, r.opened path = .error fault ∧ r'.opened path = .error fault) ∨
      ∃ sources file sources' file' text, r.opened path = .ok (sources, file, text) ∧
        r'.opened path = .ok (sources', file', text) := by
  unfold opened
  rw [h]
  cases r.workspace.files.read path with
  | error fault => exact .inl ⟨fault, rfl, rfl⟩
  | ok raw => exact .inr ⟨_, _, _, _, _, rfl, rfl⟩

theorem expects_of_queries (hopened : r.opened path = .ok (sources, file, text))
    (htold : ToldApart asked) (hasked : ∀ q ∈ r.queries o path, q ∈ asked) :
    ∀ job ∈ (Plan.ofText o r.suites file text).jobs,
      r.workspace.Expects asked (PluginJob.context sources o.edition) job.1 job.2 := by
  intro job hjob e he
  have hquery : ⟨job.1.generation, e, r.workspace.fingerprint⟩ ∈ asked := by
    refine hasked _ ?_
    rw [queries, hopened]
    exact List.mem_filterMap.mpr ⟨job, hjob, congrArg (Option.map _) he⟩
  exact ⟨htold.fits _ hquery, _, hquery, rfl, rfl, rfl⟩

end Opened

theorem expandFile_underway {r r' : Relay σ κ} (hcall : AnswersBy S call) (htold : ToldApart asked)
    (hr : r.workspace.Ready S asked) (h : Underway S asked r r') (hpath : r.workspace.Spares path)
    (hasked : ∀ q ∈ r.queries o path, q ∈ asked) (hroom' : r'.sources.files.size < 2 ^ 32) :
    Underway S asked r (expandFile call o r' path).1 ∧
      r'.sources.Grown (expandFile call o r' path).1.sources ∧
      Agree r'.sources (expandFile call o r path) (expandFile call o r' path) := by
  have hroom := Nat.lt_of_le_of_lt h.grown.size hroom'
  rw [expandFile_eq hroom, expandFile_eq hroom']
  rcases opened_cases (h.aside.read hr.placed hpath) with ⟨fault, hopened, hopened'⟩ |
      ⟨sources, file, sources', file', text, hopened, hopened'⟩
  · rw [hopened, hopened']
    exact ⟨h, .refl _, .inl ⟨_, _, rfl, rfl⟩⟩
  · obtain ⟨⟨flags, hfile⟩, -⟩ := opened_ok hopened hroom
    obtain ⟨⟨flags', hfile'⟩, hnumber, hgrown, hsize⟩ := opened_ok hopened' hroom'
    have hsamePath : sources'.filePath file' = sources.filePath file := by
      rw [FileSet.filePath, FileSet.filePath, hfile, hfile']
      rfl
    have hexpects := expects_of_queries hopened htold hasked
    have hexpects' := Plan.ofText_expected hsamePath fun job hjob =>
      h.aside.expects (hexpects job hjob)
    obtain ⟨-, -, hsolo⟩ := follow_answers hcall htold hr hexpects
    obtain ⟨hready, haside, hout⟩ := follow_answers hcall htold h.ready hexpects'
    have hsame := Plan.ofText_outcome (S := S) o r.suites text file file' sources sources' o.edition
      r.workspace
    have hown := Plan.ofText_outcome (S := S) o r.suites text file file sources sources o.edition
      r.workspace
    rw [Plan.outcome, h.aside.outcome, ← Plan.outcome, hsame] at hout
    rw [hopened, hopened', h.suites]
    dsimp only
    refine ⟨⟨rfl, h.grown.trans hgrown, hready, h.aside.trans haside⟩, hgrown, ?_⟩
    rw [hsolo, hout]
    generalize (Plan.ofText o r.suites file text).outcome S r.workspace _ = outcome at hown ⊢
    cases outcome with
    | error e => exact .inl ⟨_, _, rfl, rfl⟩
    | ok made =>
      refine .inr ⟨_, _, rfl, rfl, ⟨?_, ?_, ⟨_, hfile'⟩, hsamePath, fun span => ?_⟩, hnumber, hsize⟩
      · exact FileReport.of_inFile path file file' made
      · have hmade : made = made.map (Generated.inFile file) := Except.ok.inj hown
        intro d hd
        obtain ⟨g, hg, hd⟩ := List.mem_flatMap.mp hd
        rw [hmade] at hg
        obtain ⟨g, -, rfl⟩ := List.mem_map.mp hg
        obtain ⟨d, -, rfl⟩ := List.mem_map.mp hd
        rfl
      · change sources'.resolve ⟨file', span⟩ = sources.resolve ⟨file, span⟩
        simp only [FileSet.resolve, hfile, hfile']
        rfl

-- ---------------------------------------------------------------------------
-- Files one after the other
-- ---------------------------------------------------------------------------

/-- Expands files in the order given and puts every report in its place among the results. The first
file that fails ends the run. -/
def expandJobs (call : Caller σ κ) (o : ExpandOptions) : List (Text × Nat) → List FileReport →
    Relay σ κ → Relay σ κ × Except BatchError (List FileReport)
  | [], results, r => (r, .ok results)
  | (path, place) :: jobs, results, r =>
    let (timer, handle) := r.timer.start ("expand " ++ path) 0
    let (r, done) := expandFile call o { r with timer } path
    let r := { r with timer := r.timer.finish handle o.mode.name 0 }
    match done with
    | .error cause => (r, .error ⟨path, cause⟩)
    | .ok report => expandJobs call o jobs (results.set place report) r

def blank (n : Nat) : List FileReport := List.replicate n ⟨[], 0, [], []⟩

theorem expandJobs_zipIdx (paths : List Text) (done : List FileReport) (r : Relay σ κ) :
    expandJobs call o (paths.zipIdx done.length) (done ++ blank paths.length) r =
      ((expandFiles call o paths r).1, (expandFiles call o paths r).2.map (done ++ ·)) := by
  induction paths generalizing done r with
  | nil => simp [expandJobs, expandFiles, blank, Except.map]
  | cons path paths ih =>
    rw [List.zipIdx_cons, expandJobs, expandFiles]
    generalize r.timer.start ("expand " ++ path) 0 = started
    obtain ⟨timer, handle⟩ := started
    dsimp only
    generalize expandFile call o { r with timer } path = out
    obtain ⟨r', done' | report⟩ := out
    · rfl
    · have hset : (done ++ blank (path :: paths).length).set done.length report =
          done ++ [report] ++ blank paths.length := by
        rw [blank, List.length_cons, List.replicate_succ, List.set_append_right _ _ (Nat.le_refl _),
          Nat.sub_self, List.set_cons_zero, List.append_assoc]
        rfl
      have hrest := ih (done ++ [report])
        { r' with timer := r'.timer.finish handle o.mode.name 0 }
      rw [List.length_append] at hrest
      dsimp only
      rw [hset]
      refine Eq.trans hrest ?_
      generalize expandFiles call o paths _ = out
      obtain ⟨r'', e | reports⟩ := out
      · rfl
      · simp [Except.map]

theorem expandFiles_eq (paths : List Text) (r : Relay σ κ) :
    expandFiles call o paths r = expandJobs call o paths.zipIdx (blank paths.length) r := by
  have h : expandJobs call o paths.zipIdx (blank paths.length) r = _ := expandJobs_zipIdx paths [] r
  rw [h]
  generalize expandFiles call o paths r = out
  obtain ⟨r', e | reports⟩ := out <;> rfl

/-- What a run has put among the results, and the sources that it has added. -/
structure Filled (call : Caller σ κ) (o : ExpandOptions) (r : Relay σ κ) (jobs : List (Text × Nat))
    (sources sources' : FileSet) (results results' : List FileReport) : Prop where
  grown : sources.Grown sources'
  length : results'.length = results.length
  others : ∀ place, place ∉ jobs.map (·.2) → results'[place]? = results[place]?
  reports : ∀ job ∈ jobs, ∃ solo report, (expandFile call o r job.1).2 = .ok solo ∧
    results'[job.2]? = some report ∧
    FileReport.SameAs (expandFile call o r job.1).1.sources sources' solo report ∧
    sources.files.size ≤ report.file.toNat
  apart : ∀ job ∈ jobs, ∀ job' ∈ jobs, ∀ report report', results'[job.2]? = some report →
    results'[job'.2]? = some report' → report.file = report'.file → job.2 = job'.2

theorem Filled.cons {r : Relay σ κ} {jobs : List (Text × Nat)} {place : Nat}
    {sources sources' sources'' : FileSet} {results results' : List FileReport}
    {solo report : FileReport}
    (h : Filled call o r jobs sources' sources'' (results.set place report) results')
    (hfresh : place ∉ jobs.map (·.2)) (hplace : place < results.length)
    (hsolo : (expandFile call o r path).2 = .ok solo)
    (hsame : FileReport.SameAs (expandFile call o r path).1.sources sources' solo report)
    (hgrown : sources.Grown sources') (hnumber : report.file.toNat = sources.files.size)
    (hsize : sources'.files.size = sources.files.size + 1) :
    Filled call o r ((path, place) :: jobs) sources sources'' results results' := by
  have hreport : results'[place]? = some report := by
    rw [h.others place hfresh, List.getElem?_set_self hplace]
  -- later reports are about files added later
  have hlater : ∀ job ∈ jobs, ∀ report', results'[job.2]? = some report' →
      report.file ≠ report'.file := by
    rintro job hjob report' hreport' heq
    obtain ⟨-, found, -, hfound, -, hle⟩ := h.reports job hjob
    cases hreport'.symm.trans hfound
    rw [← heq] at hle
    omega
  refine ⟨hgrown.trans h.grown, by rw [h.length, List.length_set], fun k hk => ?_, ?_, ?_⟩
  · rw [List.map_cons, List.mem_cons, not_or] at hk
    rw [h.others k hk.2, List.getElem?_set_ne (Ne.symm hk.1)]
  · refine List.forall_mem_cons.mpr ⟨?_, fun job hjob => ?_⟩
    · exact ⟨solo, report, hsolo, hreport, hsame.grown h.grown, Nat.le_of_eq hnumber.symm⟩
    · obtain ⟨solo', report', hsolo', hreport', hsame', hle⟩ := h.reports job hjob
      exact ⟨solo', report', hsolo', hreport', hsame', by omega⟩
  · intro job hjob job' hjob' first second hfirst hsecond heq
    rcases List.mem_cons.mp hjob with rfl | hjob <;> rcases List.mem_cons.mp hjob' with rfl | hjob'
    · rfl
    · cases hreport.symm.trans hfirst
      exact absurd heq (hlater job' hjob' second hsecond)
    · cases hreport.symm.trans hsecond
      exact absurd heq.symm (hlater job hjob first hfirst)
    · exact h.apart job hjob job' hjob' first second hfirst hsecond heq

theorem Filled.nodup_files {r : Relay σ κ} {jobs : List (Text × Nat)} {sources sources' : FileSet}
    {results results' : List FileReport}
    (h : Filled call o r jobs sources sources' results results')
    (hall : ∀ place < results'.length, ∃ job ∈ jobs, job.2 = place) :
    (results'.map (·.file)).Nodup := by
  rw [List.nodup_iff_getElem?_ne_getElem?]
  intro i j hij hj heq
  rw [List.length_map] at hj
  obtain ⟨job, hjob, rfl⟩ := hall i (Nat.lt_trans hij hj)
  obtain ⟨job', hjob', rfl⟩ := hall j hj
  obtain ⟨-, first, -, hfirst, -⟩ := h.reports job hjob
  obtain ⟨-, second, -, hsecond, -⟩ := h.reports job' hjob'
  rw [List.getElem?_map, List.getElem?_map, hfirst, hsecond] at heq
  have hsame := h.apart job hjob job' hjob' first second hfirst hsecond (Option.some.inj heq)
  exact Nat.ne_of_lt hij hsame

theorem expandJobs_underway {r r' : Relay σ κ} {jobs : List (Text × Nat)} {results : List FileReport}
    (hcall : AnswersBy S call) (htold : ToldApart asked) (hr : r.workspace.Ready S asked)
    (h : Underway S asked r r') (hpaths : ∀ job ∈ jobs, r.workspace.Spares job.1)
    (hasked : ∀ job ∈ jobs, ∀ q ∈ r.queries o job.1, q ∈ asked)
    (hplaces : (jobs.map (·.2)).Nodup) (hlt : ∀ job ∈ jobs, job.2 < results.length)
    (hroom : r'.sources.files.size + jobs.length ≤ 2 ^ 32) :
    ((∃ e, (expandJobs call o jobs results r').2 = .error e) ∧
        ∃ job ∈ jobs, ∃ cause, (expandFile call o r job.1).2 = .error cause) ∨
      ∃ results', (expandJobs call o jobs results r').2 = .ok results' ∧
        Filled call o r jobs r'.sources (expandJobs call o jobs results r').1.sources results
          results' := by
  induction jobs generalizing r' results with
  | nil => exact .inr ⟨results, rfl, .refl _, rfl, fun _ _ => rfl, nofun, nofun⟩
  | cons job jobs ih =>
    obtain ⟨path, place⟩ := job
    obtain ⟨hpath, hpaths⟩ := List.forall_mem_cons.mp hpaths
    obtain ⟨hask, hasked⟩ := List.forall_mem_cons.mp hasked
    obtain ⟨hplace, hlt⟩ := List.forall_mem_cons.mp hlt
    obtain ⟨hfresh, hplaces⟩ := List.nodup_cons.mp hplaces
    rw [expandJobs]
    generalize r'.timer.start ("expand " ++ path) 0 = started
    obtain ⟨timer, handle⟩ := started
    rw [List.length_cons] at hroom
    have hlt32 : r'.sources.files.size < 2 ^ 32 := by omega
    have hunder : Underway S asked r { r' with timer } := ⟨h.suites, h.grown, h.ready, h.aside⟩
    have hstep := expandFile_underway hcall htold hr hunder hpath hask hlt32
    dsimp only at hstep ⊢
    generalize expandFile call o { r' with timer } path = out at hstep ⊢
    obtain ⟨r'', outcome⟩ := out
    obtain ⟨hunder, hgrown, hagree⟩ := hstep
    rcases hagree with ⟨e, e', hsolo, heq⟩ | ⟨solo, report, hsolo, heq, hsame, hnumber, hsize⟩
    · cases heq
      exact .inl ⟨⟨_, rfl⟩, _, List.mem_cons_self, e, hsolo⟩
    · cases heq
      dsimp only at hsame hnumber hsize hgrown ⊢
      have hroom' : r''.sources.files.size + jobs.length ≤ 2 ^ 32 := by omega
      have hunder' : Underway S asked r
          { r'' with timer := r''.timer.finish handle o.mode.name 0 } :=
        ⟨hunder.suites, hunder.grown, hunder.ready, hunder.aside⟩
      have hlt' : ∀ job ∈ jobs, job.2 < (results.set place report).length := by
        rw [List.length_set]
        exact hlt
      rcases ih hunder' hpaths hasked hplaces hlt' hroom' with
        ⟨herror, job, hjob, hcause⟩ | ⟨results', hok, hfilled⟩
      · exact .inl ⟨herror, job, List.mem_cons_of_mem _ hjob, hcause⟩
      · exact .inr ⟨results', hok, hfilled.cons hfresh hplace hsolo hsame hgrown hnumber hsize⟩

-- ---------------------------------------------------------------------------
-- Any order
-- ---------------------------------------------------------------------------

/-- Nothing keeps the relay from expanding the files. Its stores hold nothing but what the server
answers, no path leads to the entries of the disk cache or through them, requests fit and are told
apart, and there are numbers enough. -/
structure Fresh (o : ExpandOptions) (S : Generation → Key → Gen2.Result) (paths : List Text)
    (r : Relay σ κ) : Prop where
  ready : r.workspace.Ready S (paths.flatMap (r.queries o))
  spares : ∀ path ∈ paths, r.workspace.Spares path
  toldApart : ToldApart (paths.flatMap (r.queries o))
  room : r.sources.files.size + paths.length ≤ 2 ^ 32

/-- Files can be expanded in any order. A run fails if and only if some file fails on its own. The
results of a run are, place by place, what the files come to on their own in the same relay, each in a
file of its own with the same path and lines. -/
theorem expandJobs_any_order {r : Relay σ κ} {paths : List Text} {jobs : List (Text × Nat)}
    (hcall : AnswersBy S call) (hr : r.Fresh o S paths) (hjobs : jobs.Perm paths.zipIdx) :
    let run := expandJobs call o jobs (blank paths.length) r
    expandFiles call o paths r = expandJobs call o paths.zipIdx (blank paths.length) r ∧
      ((∃ e, run.2 = .error e) ↔ ∃ path ∈ paths, ∃ e, (expandFile call o r path).2 = .error e) ∧
      ∀ reports, run.2 = .ok reports →
        reports.length = paths.length ∧ (reports.map (·.file)).Nodup ∧
        ∀ (place : Nat) (path : Text), paths[place]? = some path → ∃ solo report,
          (expandFile call o r path).2 = .ok solo ∧ reports[place]? = some report ∧
          FileReport.SameAs (expandFile call o r path).1.sources run.1.sources solo report := by
  intro run
  refine ⟨expandFiles_eq paths r, ?_⟩
  have hmem {path : Text} {place : Nat} : (path, place) ∈ jobs ↔ paths[place]? = some path := by
    rw [hjobs.mem_iff, List.mk_mem_zipIdx_iff_getElem?]
  have hpath {job : Text × Nat} (hjob : job ∈ jobs) : job.1 ∈ paths :=
    List.mem_of_getElem? (hmem.mp hjob)
  have hplaces : (jobs.map (·.2)).Nodup := by
    rw [(hjobs.map (·.2)).nodup_iff, List.zipIdx_map_snd]
    exact List.nodup_range'
  have hlength : jobs.length = paths.length := by
    rw [hjobs.length_eq, List.length_zipIdx]
  have hunder : Underway S (paths.flatMap (r.queries o)) r r :=
    ⟨rfl, .refl _, hr.ready, .refl _⟩
  have hblank : ∀ job ∈ jobs, job.2 < (blank paths.length).length := fun job hjob => by
    rw [blank, List.length_replicate]
    exact (List.getElem?_eq_some_iff.mp (hmem.mp hjob)).1
  have hspares (job : Text × Nat) (hjob : job ∈ jobs) := hr.spares job.1 (hpath hjob)
  have hasked (job : Text × Nat) (hjob : job ∈ jobs) (q : Query) (hq : q ∈ r.queries o job.1) :=
    List.mem_flatMap.mpr ⟨job.1, hpath hjob, hq⟩
  have hroom : r.sources.files.size + jobs.length ≤ 2 ^ 32 := hlength ▸ hr.room
  rcases expandJobs_underway hcall hr.toldApart hr.ready hunder hspares hasked hplaces hblank hroom
    with ⟨herror, job, hjob, hcause⟩ | ⟨results, hok, hfilled⟩
  · refine ⟨⟨fun _ => ⟨job.1, hpath hjob, hcause⟩, fun _ => herror⟩, fun reports hreports => ?_⟩
    obtain ⟨e, he⟩ := herror
    cases he.symm.trans hreports
  · refine ⟨⟨?_, ?_⟩, fun reports hreports => ?_⟩
    · rintro ⟨e, he⟩
      cases hok.symm.trans he
    · rintro ⟨path, hmempath, e, he⟩
      obtain ⟨place, hplace⟩ := List.getElem?_of_mem hmempath
      obtain ⟨solo, -, hsolo, -⟩ := hfilled.reports (path, place) (hmem.mpr hplace)
      cases he.symm.trans hsolo
    · cases hok.symm.trans hreports
      have hsize : results.length = paths.length := by
        rw [hfilled.length, blank, List.length_replicate]
      refine ⟨hsize, hfilled.nodup_files fun place hplace => ?_, fun place path hplace => ?_⟩
      · rw [hsize] at hplace
        exact ⟨_, hmem.mpr (List.getElem?_eq_getElem hplace), rfl⟩
      · obtain ⟨solo, report, hsolo, hreport, hsame, -⟩ := hfilled.reports _ (hmem.mpr hplace)
        exact ⟨solo, report, hsolo, hreport, hsame⟩

/-- Says of everything that it was replaced. -/
def replacing : Caller Nat Unit := fun n _ method _ =>
  let isFirst := [Shape.attribute, .derive, .inline].any fun s =>
    (Method.expand .first s).name == method
  (n + 1, .ok (some (Fleet.replaced.written (if isFirst then .first else .second))))

def replacement (g : Generation) (_ : Key) : Gen2.Result :=
  (Expansion.answer? g (some (Fleet.replaced.written g))).getD {}

theorem replacing_answersBy : AnswersBy replacement replacing := by
  intro remote client g e _
  have hmethod : (replacing remote client (e.method g).name (e.params g)).2 =
      .ok (some (Fleet.replaced.written g)) := by
    rw [Expansion.method]
    cases g <;> cases e.shape <;> rfl
  have hfits : Fleet.replaced.Fits := ⟨by decide, by decide, by decide⟩
  obtain ⟨r, hr, -⟩ := (MacroOutput.saidIn_written hfits g).answer
  rw [Workspace.served?, hmethod, replacement, hr]
  exact hr

def sampleFiles (files : List (Text × Text)) : FileTree where
  workingDirectory := "/w"
  entries := files.map (fun (name, text) => (Text.ofString "/w/" ++ name, FileEntry.file text)) ++
    [(Text.ofString "/c", FileEntry.directory)]

def sampleRelay (files : List (Text × Text)) (p : Package) : Relay Nat Unit where
  workspace :=
    { session := Session.ofOptions 0 (some ⟨"/c"⟩)
      cell := some (.connected ())
      files := sampleFiles files
      remote := 0 }
  suites := [(p.name, p.suite.toOption.getD {})]

theorem sampleRelay_ready {files : List (Text × Text)} {p : Package} {asked : List Query}
    (hnames : ∀ entry ∈ (sampleFiles files).entries, ¬ Text.ofString ".mp" <:+ entry.1)
    (hplaced : ∀ path ∈ (sampleFiles files).places (Path.clean "/c"),
      (sampleFiles files).entryAt? path = some .directory)
    (hspares : DiskCache.Spares ⟨"/c"⟩ (sampleFiles files) (Path.clean "/c")) :
    (sampleRelay files p).workspace.Ready replacement asked := by
  have hworking : Path.clean "/w" = Text.ofString "/w" := by decide
  have hsettled : (sampleFiles files).Settled := ⟨rfl, hworking⟩
  refine ⟨⟨hsettled, Workspace.memoKeeps_ofOptions 0 _, fun disk _ d r hr => ?_⟩, ?_⟩
  · cases (DiskCache.stored_none hsettled hnames disk d).symm.trans hr
  · intro c hc
    obtain rfl : DiskCache.mk "/c" = c := Option.some.inj hc
    exact ⟨hsettled, hplaced, hspares⟩

/-- Two files with the same text. -/
def twinRelay : Relay Nat Unit :=
  sampleRelay [("a.cairo", "// twin\n#[replace] fn f;"), ("b.cairo", "// twin\n#[replace] fn f;")]
    Fleet.replacePackage

def twinPaths : List Text := ["a.cairo", "b.cairo"]

def twinOptions : ExpandOptions := { mode := .attr, edition := "2024_07" }

def twinKey : Key :=
  .attribute { context := ⟨"pkg"⟩, attr := "replace", item := " fn f;", callSite := ⟨8, 18⟩ }

theorem twinRelay_fresh : twinRelay.Fresh twinOptions replacement twinPaths where
  ready := sampleRelay_ready (by decide) (by decide +kernel) (by decide +kernel)
  spares := by
    intro path hpath c hc
    obtain rfl : DiskCache.mk "/c" = c := Option.some.inj hc
    revert path
    decide +kernel
  toldApart := by
    have hsame : ∀ q ∈ twinPaths.flatMap (twinRelay.queries twinOptions),
        q.expansion.Fits ∧ q.generation = .second ∧ q.expansion.key = twinKey ∧
          q.fingerprint = [] := by
      decide +kernel
    exact .of_same hsame
  room := by decide

def twinRun : Relay Nat Unit × Except BatchError (List FileReport) :=
  expandJobs replacing twinOptions [("b.cairo", 1), ("a.cairo", 0)] (blank twinPaths.length) twinRelay

/-- One answer serves both files, each in its own. -/
theorem expandJobs_any_order_twins :
    ∃ reports, twinRun.2 = .ok reports ∧ twinRun.1.workspace.remote = 1 ∧
      (reports.map fun report => (report.file, report.diagnostics.map (·.primary.file))) =
        [(1, [1]), (0, [0])] ∧
      ∀ (place : Nat) (path : Text), twinPaths[place]? = some path → ∃ solo report,
        (expandFile replacing twinOptions twinRelay path).2 = .ok solo ∧
        reports[place]? = some report ∧
        FileReport.SameAs (expandFile replacing twinOptions twinRelay path).1.sources
          twinRun.1.sources solo report := by
  have horder : [(Text.ofString "b.cairo", 1), ("a.cairo", 0)].Perm twinPaths.zipIdx := by decide
  have horders := expandJobs_any_order replacing_answersBy twinRelay_fresh horder
  rw [← twinRun] at horders
  have hsaid : twinRun.1.workspace.remote = 1 ∧ twinRun.2.toOption.map (·.map fun report =>
      (report.file, report.diagnostics.map (·.primary.file))) = some [(1, [1]), (0, [0])] := by
    decide +kernel
  obtain ⟨hcalls, hfiles⟩ := hsaid
  obtain ⟨reports, hreports, hfiles⟩ := Option.map_eq_some_iff.mp hfiles
  have hrun : twinRun.2 = .ok reports := by
    cases hout : twinRun.2 with
    | error e => rw [hout] at hreports; cases hreports
    | ok found => rw [hout] at hreports; cases hreports; rfl
  exact ⟨reports, hrun, hcalls, hfiles, (horders.2.2 reports hrun).2.2⟩

def derivingRelay : Relay Nat Unit :=
  sampleRelay [("a.cairo", "#[derive(Ser)] struct A {}")] { name := "pkg", derives := some ["Ser"] }

def derivingOptions : ExpandOptions := { mode := .derive, edition := "2024_07" }

def keptPath : Text :=
  "/c/expand/37/37f866e7fd36fbbf6db1cdf97d5aee844fbe66c79e1ecaba892fca84bfdc0e9f.mp"

/-- A path to an entry of the disk cache can be read only once the entry is there. The order of the
files then decides whether the run fails. -/
theorem expandFiles_reads_entries :
    AnswersBy replacement replacing ∧
      (∀ asked, derivingRelay.workspace.Ready replacement asked) ∧
      (expandFile replacing derivingOptions derivingRelay keptPath).2.isOk = false ∧
      (expandFiles replacing derivingOptions ["a.cairo", keptPath] derivingRelay).2.isOk = true ∧
      (expandFiles replacing derivingOptions [keptPath, "a.cairo"] derivingRelay).2.isOk = false := by
  refine ⟨replacing_answersBy, fun asked => ?_, ?_⟩
  · exact sampleRelay_ready (by decide) (by decide +kernel) (by decide +kernel)
  · decide +kernel

end Relay

end MacroRelay
