import UltraTorrent.Cleanup.PolicyValidator

/-! Candidate discovery: a run pages through the items its policy's scope admits, evaluates
every file and records a candidate for each one the conditions do not dismiss. What a
candidate carries for the report (its exclusion, fingerprint and rank) does not decide
whether it is recorded and is left out. -/
namespace UltraTorrent.Cleanup.CandidateDiscovery

open Library.EcmaScript Library.Kleene Library.Sql
open PolicyEvaluator ConditionPushdown FactAssembly PolicyDocument

def pageSize : ℕ := 500

structure LibraryRow where
  kind : String
  path : String

structure ItemRow extends RawMediaItem where
  library : LibraryRow
  files : List RawMediaFile

inductive RunStatus where
  | queued
  | running
  | cancelling
  | cancelled
  | completed
  | partly
  | failed
  deriving DecidableEq

structure CleanupRun where
  id : String
  policyVersionId : String
  status : RunStatus
  simulate : Bool
  scopeItemIds : Option (List String)

/-- The filter on the item's own row: each part is there only when the scope names it. -/
structure ScopeWhere where
  libraryId : Option (List String)
  libraryKind : Option (List String)
  id : Option (List String)

/-- A list that restricts, or nothing. -/
def inList (values : List String) : Option (List String) := if values = [] then none else some values

/-- Narrowed to the given items on top of the policy's own scope. -/
def scopeWhere (document : CleanupPolicyDocument) (itemIds : Option (List String)) : ScopeWhere where
  libraryId := inList document.scope.libraryIds
  libraryKind := inList document.scope.libraryKinds
  id := inList (itemIds.getD [])

def ScopeWhere.admits (w : ScopeWhere) (row : ItemRow) : Bool :=
  w.libraryId.all (·.contains row.libraryId) && w.libraryKind.all (·.contains row.library.kind)
    && w.id.all (·.contains row.id)

/-- The scope intersected with what the conditions let the database decide. -/
def admitted (document : CleanupPolicyDocument) (itemIds : Option (List String)) (startedAt : Instant)
    (row : ItemRow) : Bool :=
  (scopeWhere document itemIds).admits row
    && decide (Satisfies (rowOf row.toRawMediaItem) (buildPushdownWhere document.conditions startedAt))

structure CleanupCandidate where
  runId : String
  policyVersionId : String
  mediaItemId : String
  mediaFileId : String
  mediaLibraryId : String
  /-- The kind of that library when the candidate was recorded. -/
  libraryKind : String
  path : String
  fileSizeBytes : ℤ
  outcome : Verdict
  matchedConditions : List String
  unmeasuredConditions : List String

/-- The database and the host while one page is worked through. The table is in id order. -/
structure PageRead where
  table : List ItemRow
  status : RunStatus
  buildContext : ItemRow → RawMediaFile → RawContext
  clock : Instant

/-- One page of the admitted rows. The cursor is the last row of the page before, and a
cursor whose row has gone finds nothing. -/
def findMany (admits : ItemRow → Bool) (cursor : Option String) (table : List ItemRow) :
    List ItemRow :=
  match cursor with
  | none => (table.filter admits).take pageSize
  | some cursor => (((table.dropWhile (·.id ≠ cursor)).filter admits).drop 1).take pageSize

structure Scan where
  cursor : Option String := none
  scanned : ℕ := 0
  evaluated : ℕ := 0
  matched : ℕ := 0
  truncated : Bool := false
  candidates : List CleanupCandidate := []

inductive Progress where
  | scanning (scan : Scan)
  | finished (status : RunStatus) (reason : Option String) (scan : Scan)

def Progress.scan : Progress → Scan
  | .scanning scan | .finished _ _ scan => scan

section Loop

variable (rt : Runtime) (run : CleanupRun) (conditions : PolicyConditionNode) (cap : Option ℕ)

/-- A cap of zero is none. -/
def capReached (evaluated : ℕ) : Bool := cap.any fun c => c ≠ 0 && decide (c ≤ evaluated)

def candidateOf (row : ItemRow) (file : RawMediaFile) (verdict : EvaluationResult) :
    CleanupCandidate where
  runId := run.id
  policyVersionId := run.policyVersionId
  mediaItemId := row.id
  mediaFileId := file.id
  mediaLibraryId := row.libraryId
  libraryKind := row.library.kind
  path := file.path
  fileSizeBytes := file.size
  outcome := verdict.outcome
  matchedConditions := verdict.matchedConditions
  unmeasuredConditions := verdict.unmeasuredConditions

def verdictOf (read : PageRead) (row : ItemRow) (file : RawMediaFile) : EvaluationResult :=
  evaluatePolicy rt conditions (assembleEvaluationFacts rt read.clock file row.toRawMediaItem
    (read.buildContext row file))

/-- An unmeasured verdict is recorded too, so that the operator sees it. -/
def scanFile (read : PageRead) (row : ItemRow) (scan : Scan) (file : RawMediaFile) : Scan :=
  let verdict := verdictOf rt conditions read row file
  let scan := { scan with evaluated := scan.evaluated + 1 }
  if verdict.outcome = .no then scan
  else
    { scan with
      matched := scan.matched + if verdict.outcome = .yes then 1 else 0
      candidates := scan.candidates ++ [candidateOf run row file verdict] }

/-- The cap ends the files of this item; the next item counts its first file again. -/
def scanFiles (read : PageRead) (row : ItemRow) : Scan → List RawMediaFile → Scan
  | scan, [] => scan
  | scan, file :: files =>
    let scan := { scan with scanned := scan.scanned + 1 }
    if capReached cap scan.evaluated then { scan with truncated := true }
    else scanFiles read row (scanFile rt run conditions read row scan file) files

def finish (scan : Scan) : Progress :=
  if scan.truncated then
    .finished .partly (some ("evaluation_cap_reached:" ++ toString (cap.getD 0))) scan
  else .finished .completed none scan

def scanPage (admits : ItemRow → Bool) (read : PageRead) (scan : Scan) : Progress :=
  let items := findMany admits scan.cursor read.table
  match items.getLast? with
  | none => finish cap scan
  | some last =>
    let scan := { scan with cursor := some last.id }
    if read.status = .cancelling then .finished .cancelled none scan
    else
      let scan := items.foldl (fun scan row => scanFiles rt run conditions cap read row scan row.files) scan
      if items.length < pageSize then finish cap scan
      else if capReached cap scan.evaluated then finish cap { scan with truncated := true }
      else .scanning scan

def scanPages (admits : ItemRow → Bool) : List PageRead → Scan → Progress
  | [], scan => .scanning scan
  | read :: reads, scan =>
    match scanPage rt run conditions cap admits read scan with
    | .scanning scan => scanPages admits reads scan
    | finished => finished

end Loop

/-- A simulation is capped unless the caller caps it otherwise. -/
def evaluationCap (run : CleanupRun) (limit : Option ℕ) : Option ℕ :=
  limit.or (if run.simulate then some 5000 else none)

/-- A run as far as the given reads take it; `none` when there was nothing to scan. -/
def scanRun (rt : Runtime) (run : CleanupRun) (document : Option CleanupPolicyDocument)
    (limit : Option ℕ) (startedAt : Instant) (reads : List PageRead) : Option Progress :=
  if run.status ≠ .queued ∧ run.status ≠ .running then none
  else
    match document.map fun document => (document, document.conditions) with
    | none => some (.finished .failed (some "missing_policy_version") {})
    | some (_, none) => some (.finished .failed (some "scan_error: Cannot read properties of undefined (reading 'type')") {})
    | some (document, some conditions) =>
      some (scanPages rt run conditions (evaluationCap run limit)
        (admitted document run.scopeItemIds startedAt) reads {})

def candidates (progress : Option Progress) : List CleanupCandidate :=
  (progress.map (·.scan.candidates)).getD []

end UltraTorrent.Cleanup.CandidateDiscovery
