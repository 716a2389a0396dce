import UltraTorrent.Cleanup.CandidateDiscovery

/-! What a run's candidates have in common. Libraries, kinds and items are enforced by the
query; path prefixes are validated, count as a bound, and are read by nothing else. -/
namespace UltraTorrent.Cleanup.RunScope

open Library.EcmaScript Library.Kleene Library.PosixPath
open PolicyEvaluator FactAssembly PolicyDocument PolicyValidator CandidateDiscovery

/-- At or below a directory, by whole segments. -/
def Under (path dir : String) : Prop := normalize dir.toList <+: normalize path.toList

instance (path dir : String) : Decidable (Under path dir) := inferInstanceAs (Decidable (_ <+: _))

def UnderOneOf (prefixes : List String) (path : String) : Prop := ∃ p ∈ prefixes, Under path p

instance (prefixes : List String) (path : String) : Decidable (UnderOneOf prefixes path) :=
  inferInstanceAs (Decidable (∃ p ∈ prefixes, Under path p))

/-- What the policy was published to cover. -/
structure InScope (scope : PolicyScope) (itemIds : List String) (c : CleanupCandidate) : Prop where
  library : scope.libraryIds ≠ [] → c.mediaLibraryId ∈ scope.libraryIds
  kind : scope.libraryKinds ≠ [] → c.libraryKind ∈ scope.libraryKinds
  path : scope.pathPrefixes ≠ [] → UnderOneOf scope.pathPrefixes c.path
  item : itemIds ≠ [] → c.mediaItemId ∈ itemIds

variable {rt : Runtime} {run : CleanupRun} {conditions : PolicyConditionNode} {cap : Option ℕ}
  {admits : ItemRow → Bool} {read : PageRead} {row : ItemRow} {file : RawMediaFile} {scan : Scan}

/-! ### Where a candidate comes from -/

/-- The candidate of one file of a row the filter let through. -/
def Recorded (rt : Runtime) (run : CleanupRun) (conditions : PolicyConditionNode)
    (admits : ItemRow → Bool) (reads : List PageRead) (c : CleanupCandidate) : Prop :=
  ∃ read ∈ reads, ∃ row ∈ read.table, admits row = true ∧ ∃ file ∈ row.files,
    (verdictOf rt conditions read row file).outcome ≠ .no ∧
      c = candidateOf run row file (verdictOf rt conditions read row file)

theorem mem_findMany {cursor : Option String} {table : List ItemRow}
    (h : row ∈ findMany admits cursor table) : row ∈ table ∧ admits row = true := by
  unfold findMany at h
  split at h
  · exact List.mem_filter.1 (List.mem_of_mem_take h)
  · obtain ⟨hmem, hadmits⟩ := List.mem_filter.1 (List.mem_of_mem_drop (List.mem_of_mem_take h))
    exact ⟨(List.dropWhile_suffix _).mem hmem, hadmits⟩

theorem mem_scanFile {c : CleanupCandidate}
    (h : c ∈ (scanFile rt run conditions read row scan file).candidates) :
    c ∈ scan.candidates ∨ (verdictOf rt conditions read row file).outcome ≠ .no ∧
      c = candidateOf run row file (verdictOf rt conditions read row file) := by
  by_cases hno : (verdictOf rt conditions read row file).outcome = .no
  · exact .inl (by simpa only [scanFile, if_pos hno] using h)
  · simp only [scanFile, if_neg hno, List.mem_append, List.mem_singleton] at h
    exact h.imp_right fun hc => ⟨hno, hc⟩

theorem mem_scanFiles {c : CleanupCandidate} {files : List RawMediaFile} (scan : Scan)
    (h : c ∈ (scanFiles rt run conditions cap read row scan files).candidates) :
    c ∈ scan.candidates ∨ ∃ file ∈ files, (verdictOf rt conditions read row file).outcome ≠ .no ∧
      c = candidateOf run row file (verdictOf rt conditions read row file) := by
  induction files generalizing scan with
  | nil => exact .inl h
  | cons file files ih =>
    simp only [scanFiles] at h
    split_ifs at h with hcap
    · exact .inl h
    · rcases ih _ h with h | ⟨f, hf, hc⟩
      · rcases mem_scanFile h with h | hc
        · exact .inl h
        · exact .inr ⟨file, List.mem_cons_self, hc⟩
      · exact .inr ⟨f, List.mem_cons_of_mem _ hf, hc⟩

theorem mem_scanItems {c : CleanupCandidate} {items : List ItemRow} (scan : Scan)
    (h : c ∈ (items.foldl (fun scan row =>
      scanFiles rt run conditions cap read row scan row.files) scan).candidates) :
    c ∈ scan.candidates ∨ ∃ row ∈ items, ∃ file ∈ row.files,
      (verdictOf rt conditions read row file).outcome ≠ .no ∧
        c = candidateOf run row file (verdictOf rt conditions read row file) := by
  induction items generalizing scan with
  | nil => exact .inl h
  | cons row items ih =>
    rcases ih _ h with h | ⟨r, hr, hc⟩
    · rcases mem_scanFiles _ h with h | hc
      · exact .inl h
      · exact .inr ⟨row, List.mem_cons_self, hc⟩
    · exact .inr ⟨r, List.mem_cons_of_mem _ hr, hc⟩

@[simp] theorem finish_candidates (scan : Scan) : (finish cap scan).scan.candidates = scan.candidates := by
  unfold finish
  split_ifs <;> rfl

/-- What one page adds. -/
theorem mem_scanPage {c : CleanupCandidate}
    (h : c ∈ (scanPage rt run conditions cap admits read scan).scan.candidates) :
    c ∈ scan.candidates ∨ Recorded rt run conditions admits [read] c := by
  have hitems : c ∈ ((findMany admits scan.cursor read.table).foldl (fun scan row =>
      scanFiles rt run conditions cap read row scan row.files)
        { scan with cursor := ((findMany admits scan.cursor read.table).getLast?).map (·.id) }).candidates →
      c ∈ scan.candidates ∨ Recorded rt run conditions admits [read] c := by
    intro hmem
    rcases mem_scanItems _ hmem with hold | ⟨row, hrow, file, hfile, hc⟩
    · exact .inl hold
    · obtain ⟨hin, hadmits⟩ := mem_findMany hrow
      exact .inr ⟨read, List.mem_singleton_self read, row, hin, hadmits, file, hfile, hc⟩
  cases hlast : (findMany admits scan.cursor read.table).getLast? with
  | none => exact .inl (by simpa only [scanPage, hlast, finish_candidates] using h)
  | some last =>
    rw [hlast] at hitems
    simp only [scanPage, hlast] at h
    split_ifs at h
    · exact .inl h
    · exact hitems (by simpa using h)
    · exact hitems (by simpa using h)
    · exact hitems h

theorem mem_scanPages {c : CleanupCandidate} {reads : List PageRead} (scan : Scan)
    (h : c ∈ (scanPages rt run conditions cap admits reads scan).scan.candidates) :
    c ∈ scan.candidates ∨ Recorded rt run conditions admits reads c := by
  induction reads generalizing scan with
  | nil => exact .inl h
  | cons read reads ih =>
    have hfirst : ∀ s, (scanPage rt run conditions cap admits read scan).scan = s → c ∈ s.candidates →
        c ∈ scan.candidates ∨ Recorded rt run conditions admits (read :: reads) c := by
      rintro s rfl hmem
      refine (mem_scanPage hmem).imp_right ?_
      rintro ⟨r, hr, hc⟩
      exact ⟨r, List.mem_cons.2 (.inl (List.mem_singleton.1 hr)), hc⟩
    simp only [scanPages] at h
    cases hpage : scanPage rt run conditions cap admits read scan with
    | finished status reason s =>
      rw [hpage] at h
      exact hfirst s (by rw [hpage]; rfl) h
    | scanning s =>
      rw [hpage] at h
      rcases ih s h with hold | ⟨r, hr, hc⟩
      · exact hfirst s (by rw [hpage]; rfl) hold
      · exact .inr ⟨r, List.mem_cons_of_mem _ hr, hc⟩

/-! ### Recording without a cap -/

theorem subset_scanFile :
    scan.candidates ⊆ (scanFile rt run conditions read row scan file).candidates := by
  by_cases hno : (verdictOf rt conditions read row file).outcome = .no
  · simp only [scanFile, if_pos hno]
    exact fun _ h => h
  · simp only [scanFile, if_neg hno]
    exact List.subset_append_left _ _

theorem mem_scanFile_self (hfile : (verdictOf rt conditions read row file).outcome ≠ .no) :
    candidateOf run row file (verdictOf rt conditions read row file) ∈
      (scanFile rt run conditions read row scan file).candidates := by
  simp only [scanFile, if_neg hfile]
  exact List.mem_append_right _ List.mem_cons_self

theorem scanFiles_cons (scan : Scan) (file : RawMediaFile) (files : List RawMediaFile) :
    scanFiles rt run conditions none read row scan (file :: files) =
      scanFiles rt run conditions none read row
        (scanFile rt run conditions read row { scan with scanned := scan.scanned + 1 } file) files := by
  simp [scanFiles, capReached]

theorem subset_scanFiles {files : List RawMediaFile} (scan : Scan) :
    scan.candidates ⊆ (scanFiles rt run conditions none read row scan files).candidates := by
  induction files generalizing scan with
  | nil => exact fun _ h => h
  | cons file files ih =>
    rw [scanFiles_cons]
    intro c hc
    apply ih
    exact @subset_scanFile rt run conditions read row file { scan with scanned := scan.scanned + 1 } c hc

theorem mem_scanFiles_self {files : List RawMediaFile} (scan : Scan) (hmem : file ∈ files)
    (hfile : (verdictOf rt conditions read row file).outcome ≠ .no) :
    candidateOf run row file (verdictOf rt conditions read row file) ∈
      (scanFiles rt run conditions none read row scan files).candidates := by
  induction files generalizing scan with
  | nil => cases hmem
  | cons f files ih =>
    rw [scanFiles_cons]
    rcases List.mem_cons.1 hmem with rfl | hmem
    · exact subset_scanFiles _ (mem_scanFile_self hfile)
    · exact ih _ hmem

theorem scanPages_singleton (scan : Scan) :
    scanPages rt run conditions cap admits [read] scan =
      scanPage rt run conditions cap admits read scan := by
  rw [scanPages]
  cases scanPage rt run conditions cap admits read scan <;> rfl

theorem mem_candidates_single {document : CleanupPolicyDocument} {startedAt : Instant}
    (hconditions : document.conditions = some conditions) (hstatus : run.status = .queued)
    (hcap : run.simulate = false) (hread : read.table = [row]) (hrunning : read.status = .running)
    (hadmitted : admitted document run.scopeItemIds startedAt row = true) (hmem : file ∈ row.files)
    (hfile : (verdictOf rt conditions read row file).outcome ≠ .no) :
    candidateOf run row file (verdictOf rt conditions read row file) ∈
      candidates (scanRun rt run (some document) none startedAt [read]) := by
  have hpage : findMany (admitted document run.scopeItemIds startedAt) none read.table = [row] := by
    simp [findMany, hread, hadmitted, pageSize]
  have hcap' : evaluationCap run none = none := by simp [evaluationCap, hcap]
  have hscan : scanPage rt run conditions none (admitted document run.scopeItemIds startedAt) read {} =
      finish none (scanFiles rt run conditions none read row { cursor := some row.id } row.files) := by
    simp [scanPage, hpage, hrunning, pageSize]
  have hrun : scanRun rt run (some document) none startedAt [read] =
      some (finish none (scanFiles rt run conditions none read row { cursor := some row.id } row.files)) := by
    simp only [scanRun, hstatus, hconditions, hcap', scanPages_singleton, hscan, Option.map_some,
      ne_eq, not_true_eq_false, false_and, if_false]
  rw [hrun]
  simpa [candidates] using mem_scanFiles_self _ hmem hfile

/-! ### The policy's scope -/

theorem inList_all {values : List String} {a : String} (h : (inList values).all (·.contains a) = true)
    (hne : values ≠ []) : a ∈ values := by
  simpa [inList, hne] using h

theorem conditions_of_valid {bytes : ℕ} {now : Instant} {document : CleanupPolicyDocument}
    (h : (validatePolicyDocument rt bytes now document).valid = true) :
    ∃ conditions, document.conditions = some conditions := by
  cases hconditions : document.conditions with
  | some conditions => exact ⟨conditions, rfl⟩
  | none =>
    simp [validatePolicyDocument, documentIssues, hconditions, validateConditions, err] at h

/-- Whatever else the database and the clock say, the conditions leave the file alone. -/
def Dismisses (rt : Runtime) (document : CleanupPolicyDocument) (row : ItemRow)
    (file : RawMediaFile) : Prop :=
  ∀ conditions, document.conditions = some conditions → ∀ clock ctx,
    (evaluatePolicy rt conditions
      (assembleEvaluationFacts rt clock file row.toRawMediaItem ctx)).outcome = .no

/-- Every candidate of every run over these rows, however far it gets and whatever its cap. -/
def RunsStayInScope (rt : Runtime) (document : CleanupPolicyDocument)
    (itemIds : Option (List String)) (startedAt : Instant) (rows : Set ItemRow) : Prop :=
  ∀ run, run.scopeItemIds = itemIds → ∀ limit reads, (∀ read ∈ reads, ∀ row ∈ read.table, row ∈ rows) →
    ∀ c ∈ candidates (scanRun rt run (some document) limit startedAt reads),
      InScope document.scope (itemIds.getD []) c

theorem recorded_of_mem_candidates {document : CleanupPolicyDocument} {limit : Option ℕ}
    {startedAt : Instant} {reads : List PageRead} {c : CleanupCandidate}
    (hconditions : document.conditions = some conditions)
    (h : c ∈ candidates (scanRun rt run (some document) limit startedAt reads)) :
    Recorded rt run conditions (admitted document run.scopeItemIds startedAt) reads c := by
  unfold scanRun at h
  split_ifs at h
  · simp [candidates] at h
  · simp only [Option.map_some, hconditions, candidates, Option.getD_some] at h
    rcases mem_scanPages _ h with hnil | hc
    · cases hnil
    · exact hc

/-- An accepted policy stays inside its scope exactly when it names no path prefix, or no
file of the items its query admits lies outside the prefixes unless the conditions dismiss
it. -/
theorem runsStayInScope_iff (bytes : ℕ) (now : Instant) (document : CleanupPolicyDocument)
    (itemIds : Option (List String)) (startedAt : Instant) (rows : Set ItemRow)
    (haccepted : (validatePolicyDocument rt bytes now document).valid = true) :
    RunsStayInScope rt document itemIds startedAt rows ↔
      (document.scope.pathPrefixes = [] ∨
        ∀ row ∈ rows, admitted document itemIds startedAt row = true → ∀ file ∈ row.files,
          Dismisses rt document row file ∨ UnderOneOf document.scope.pathPrefixes file.path) := by
  obtain ⟨conditions, hconditions⟩ := conditions_of_valid haccepted
  constructor
  · intro h
    refine or_iff_not_imp_left.2 fun hprefixes row hrow hadmitted file hfile => ?_
    refine or_iff_not_imp_left.2 fun hkept => ?_
    simp only [Dismisses, not_forall] at hkept
    obtain ⟨_, hc, clock, ctx, hkept⟩ := hkept
    cases hconditions.symm.trans hc
    let read : PageRead := ⟨[row], .running, fun _ _ => ctx, clock⟩
    let run : CleanupRun := ⟨"", "", .queued, false, itemIds⟩
    have hmem := @mem_candidates_single rt run conditions read row file document startedAt
      hconditions rfl rfl rfl rfl hadmitted hfile hkept
    refine (h run rfl none [read] ?_ _ hmem).path hprefixes
    simpa [read] using hrow
  · rintro h run rfl limit reads hrows c hc
    obtain ⟨read, hread, row, hrow, hadmitted, file, hfile, hkept, rfl⟩ :=
      recorded_of_mem_candidates hconditions hc
    have hadmits := hadmitted
    simp only [admitted, ScopeWhere.admits, scopeWhere, Bool.and_eq_true] at hadmits
    obtain ⟨⟨⟨hlibrary, hkind⟩, hitem⟩, -⟩ := hadmits
    refine ⟨inList_all hlibrary, inList_all hkind, fun hprefixes => ?_, inList_all hitem⟩
    rcases h.resolve_left hprefixes row (hrows read hread row hrow) hadmitted file hfile with
      hdismissed | hunder
    · exact absurd (hdismissed conditions hconditions _ _) hkept
    · exact hunder

def oldOnly : CleanupPolicyDocument where
  schemaVersion := 1
  scope := { pathPrefixes := ["/media/old"] }
  conditions := some (.leaf ⟨"storage.fileSizeBytes", .gt, .number (.fin 0), false⟩)
  exclusions := some { addedWithinDays := some 1 }
  action := some { mode := .autoTrash, destination := .trash, maxItemsPerRun := some 10 }

def newFilm : ItemRow where
  id := "i"
  libraryId := "l"
  library := ⟨"movie", "/media"⟩
  files := [{ id := "f", path := "/media/new/a.mkv", size := 1 }]

/-- An unattended policy for `/media/old`, accepted because a path prefix counts as a bound,
takes a file of `/media/new`. -/
theorem prefix_ignored :
    (validatePolicyDocument .ascii 500 0 oldOnly).valid = true ∧
      ¬ RunsStayInScope .ascii oldOnly none 0 {newFilm} := by
  refine ⟨by decide +kernel, fun h => ?_⟩
  let read : PageRead := ⟨[newFilm], .running, fun _ _ => {}, 0⟩
  have hmem := @mem_candidates_single .ascii ⟨"", "", .queued, false, none⟩ _ read newFilm
    { id := "f", path := "/media/new/a.mkv", size := 1 } oldOnly 0 rfl rfl rfl rfl rfl
    (by decide +kernel) List.mem_cons_self (by decide +kernel)
  have hscope := h _ rfl none [read] (by simp [read]) _ hmem
  have hunder : UnderOneOf ["/media/old"] "/media/new/a.mkv" := hscope.path (by decide)
  exact absurd hunder (by decide +kernel)

/-- The same policy over a film of `/media/old`. -/
theorem prefix_respected :
    RunsStayInScope .ascii oldOnly none 0
      {{ newFilm with files := [{ id := "f", path := "/media/old/a.mkv", size := 1 }] }} := by
  refine (runsStayInScope_iff 500 0 oldOnly none 0 _ (by decide +kernel)).2 (.inr ?_)
  rintro _ rfl - file hfile
  rw [List.mem_singleton] at hfile
  rw [hfile]
  exact .inr (by decide +kernel)

end UltraTorrent.Cleanup.RunScope
