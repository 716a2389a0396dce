import Mathlib.Data.List.Sort
import UltraTorrent.Cleanup.PlanStore
import UltraTorrent.Library.Interleaving

/-! Plans, decisions and execution, one database call at a time. What a call read stays with
it, as old as it may have become, until its next write. -/
namespace UltraTorrent.Cleanup.PlanService

open Library Library.EcmaScript Library.Interleaving PolicyDocument PlanContract PlanStore

structure User where
  permissions : List String
  superAdmin : Bool

structure CreatePlanRequest where
  runId : String
  candidateIds : List String
  destination : Option PlanAction
  retentionDays : Option ℚ
  expiresInHours : Option ℚ

/-- A request that passed every check of the run and of the candidates. -/
structure Draft where
  request : CreatePlanRequest
  run : RunRow
  document : PolicyAction
  destination : PlanAction
  candidates : List CandidateRow

/-- Actions that name media a live torrent still seeds; `unknown` when the engine could not
be asked. -/
structure SeedingGuard where
  unknown : Bool := false
  blocked : List String := []

structure Execution where
  plan : PlanRow
  guard : SeedingGuard
  todo : List ActionRow
  skipped : ℕ
  failed : ℕ

/-- Where an action stands once its row says `running`. -/
inductive Phase where
  | handing
  | moving
  | completing
  | mirroring
  | failing
  deriving DecidableEq

inductive Call where
  | returned
  | threw (message : String)
  | createPlan (request : CreatePlanRequest)
  | checking (draft : Draft)
  | committing (draft : Draft) (protectedNow : List String) (now : Instant)
  | approve (planId : String) (user : User)
  | refreshProtections (plan : PlanRow) (user : User) (now : Instant)
  | refreshing (plan : PlanRow) (user : User) (now : Instant) (todo : List ActionRow)
  | reject (planId : String)
  | cancel (planId : String)
  | sweepExpiry
  | transition (plan : PlanRow) (target : PlanStatus) (candidateCount : Option ℕ) (rest : List PlanRow)
  | affected (planId : String) (status : CandidateStatus) (rest : List PlanRow)
  | mirror (ids : List String) (status : CandidateStatus) (rest : List PlanRow)
  | execute (planId : String)
  | expire (plan : PlanRow)
  | start (plan : PlanRow)
  | listing (plan : PlanRow)
  | working (e : Execution)
  | acting (phase : Phase) (e : Execution) (a : ActionRow)

/-- What a call is answered from outside these tables. -/
structure Answer where
  now : Instant := 0
  /-- Why a file is left alone: its protection, or another check before the filesystem step. -/
  skipReason : Option String := none
  protectedNow : List String := []
  seeding : SeedingGuard := {}
  touches : Bool := true
  throws : Bool := false
  planId : String := ""
  actionIds : List String := []

/-! ### Creation -/

def planActionOf : PolicyDestination → Option PlanAction
  | .quarantine => some .quarantine
  | .trash => some .trash
  | .other _ => none

def destinationText : PolicyDestination → String
  | .quarantine => "quarantine"
  | .trash => "trash"
  | .other text => text

/-- The finished run a plan comes from, and what its policy version lets it do. -/
def sourceOf (db : Db) (request : CreatePlanRequest) :
    Except String (RunRow × PolicyAction × PlanAction) := do
  let some run := db.runs request.runId | throw "Cleanup run not found"
  if run.simulate then
    throw "A simulation cannot be planned from — run the policy for real first"
  if !(["completed", "partial"].contains run.status) then
    throw ("Run is " ++ run.status ++ "; plan from a finished run")
  let some document := db.versions run.policyVersionId | throw "The run's policy version is missing"
  let some action := document.action.filter (isPlannable ·.mode)
    | throw "A report-only policy exists to be read, not to remove anything"
  let some destination := (planActionOf action.destination).bind (resolveDestination · request.destination)
    | throw ("Cannot escalate to \"" ++ ((request.destination.map (·.text)).getD "undefined") ++
        "\" — the policy's destination is \"" ++ destinationText action.destination ++ "\"")
  pure (run, action, destination)

/-- The candidates as they stand, all of this run and all still to be acted on. -/
def candidatesOf (db : Db) (request : CreatePlanRequest) : Except String (List CandidateRow) :=
  let candidates := db.candidates.rows.filter fun c =>
    request.candidateIds.contains c.id && c.runId = request.runId
  let missing := request.candidateIds.filter fun id => !(candidates.map (·.id)).contains id
  if missing ≠ [] then
    .error (toString missing.length ++ " candidate(s) do not belong to this run: " ++
      ", ".intercalate (missing.take 5))
  else match candidates.filter (·.status ≠ .candidate) with
    | [] => .ok candidates
    | c :: rest => .error (toString (c :: rest).length ++ " candidate(s) are not actionable (e.g. \"" ++
        c.status.text ++ "\")")

/-- Everything checked before the open plans are looked at. -/
def draftOf (db : Db) (request : CreatePlanRequest) : Except String Draft := do
  let (run, action, destination) ← sourceOf db request
  let candidates ← candidatesOf db request
  pure { request := request, run := run, document := action, destination := destination
         candidates := candidates }

namespace Draft

def actionable (d : Draft) (protectedNow : List String) : List CandidateRow :=
  d.candidates.filter fun c => !protectedNow.contains c.id

def estimated (d : Draft) (protectedNow : List String) : ℕ :=
  ((d.actionable protectedNow).map (·.estimatedReclaimBytes)).sum

def overItemCap (d : Draft) (protectedNow : List String) : Bool :=
  d.document.maxItemsPerRun.any fun cap => decide (cap < ((d.actionable protectedNow).length : ℚ))

def overReclaimCap (d : Draft) (protectedNow : List String) : Bool :=
  d.document.maxReclaimBytesPerRun.any fun cap => decide (cap < (d.estimated protectedNow : ℚ))

def plan (d : Draft) (protectedNow : List String) (now : Instant) (id : String) : PlanRow where
  id := id
  runId := d.request.runId
  policyVersionId := d.run.policyVersionId
  status := .pendingApproval
  action := d.destination
  retentionDays := d.request.retentionDays.or d.document.retentionDays
  candidateCount := (d.actionable protectedNow).length
  estimatedReclaimBytes := d.estimated protectedNow
  expiresAt := some (resolveExpiry now d.request.expiresInHours)

/-- A candidate protected since discovery becomes a skipped action, so that the plan shows
the whole intent. -/
def action (d : Draft) (protectedNow : List String) (planId : String) (c : CandidateRow)
    (id : String) : ActionRow where
  id := id
  planId := planId
  candidateId := c.id
  mediaItemId := c.mediaItemId
  mediaFileId := c.mediaFileId
  actionType := d.destination.text
  status := if protectedNow.contains c.id then .skipped else .pending
  skipReason := if protectedNow.contains c.id then some "protected" else none
  sourcePath := c.path
  pinnedFingerprint := c.fingerprint

def create (d : Draft) (protectedNow : List String) (now : Instant) (planId : String)
    (actionIds : List String) : Write :=
  .create (d.plan protectedNow now planId)
    (List.zipWith (d.action protectedNow planId) d.candidates actionIds)
    ((d.actionable protectedNow).map (·.id))

end Draft

/-- The caps are whole numbers. -/
def capText (cap : Option ℚ) : String := (cap.map fun n => toString n.num).getD "undefined"

/-- One live plan per candidate, then the protections and the policy's own caps. -/
def check (db : Db) (d : Draft) (answer : Answer) : Call :=
  let planned := db.alreadyPlanned d.request.candidateIds
  if planned ≠ [] then
    .threw (toString planned.length ++ " candidate(s) are already in an open plan (e.g. plan " ++
      ((planned.head?.map (·.planId)).getD "") ++ ")")
  else if d.actionable answer.protectedNow = [] then
    .threw "Every selected candidate is now protected — nothing to plan"
  else if d.overItemCap answer.protectedNow then
    .threw ("Plan holds " ++ toString (d.actionable answer.protectedNow).length ++
      " files; the policy caps a run at " ++ capText d.document.maxItemsPerRun)
  else if d.overReclaimCap answer.protectedNow then
    .threw ("Plan reclaims " ++ toString (d.estimated answer.protectedNow) ++
      " bytes; the policy caps a run at " ++ capText d.document.maxReclaimBytesPerRun)
  else .committing d answer.protectedNow answer.now

/-! ### Decisions -/

def notFound : Call := .threw "Cleanup plan not found"

/-- The next plan the sweep found due; a single decision has none. -/
def sweep : List PlanRow → Call
  | [] => .returned
  | plan :: rest => .transition plan .expired none rest

def dueAt (db : Db) (now : Instant) : List PlanRow :=
  db.plans.rows.filter fun plan =>
    [PlanStatus.pendingApproval, .approved].contains plan.status &&
      plan.expiresAt.any fun t => decide (t ≤ now)

/-- A reject or a cancel, from the plan as it is loaded. -/
def decision (db : Db) (planId : String) (target : PlanStatus) : Call :=
  match db.plans.find planId with
  | none => notFound
  | some plan =>
    if canTransition plan.status target then .transition plan target none []
    else .threw ("Plan is " ++ plan.status.text ++ " and cannot be " ++ target.text)

def refusalText (plan : PlanRow) : Refusal → String
  | .missingPermission permission => "Approving a \"" ++ plan.action.text ++
      "\" plan additionally requires " ++ permission
  | .expired => "This plan expired; its snapshot is too old to act on. Re-run the policy."
  | .nothingToDo => "Nothing left to act on — every file is protected or already skipped"
  | .wrongStatus => "Plan is " ++ plan.status.text ++ " and cannot be approved"

/-- The verdict on the plan as it was loaded, over the actions counted now. -/
def approveVerdict (db : Db) (plan : PlanRow) (user : User) (now : Instant) : Call :=
  let count := (db.pending plan.id).length
  match checkApproval plan.status plan.action plan.expiresAt now user.permissions user.superAdmin
      count with
  | some refusal => .threw (refusalText plan refusal)
  | none => .transition plan .approved (some count) []

/-- The next pending action, skipped when protection now covers it; after the last one the
verdict. -/
def refresh (db : Db) (plan : PlanRow) (user : User) (now : Instant) (todo : List ActionRow)
    (answer : Answer) : Write × Call :=
  match todo with
  | [] => (.nothing, approveVerdict db plan user now)
  | a :: todo => (match answer.skipReason with
      | some reason => .action a.id .skipped (some reason)
      | none => .nothing, .refreshing plan user now todo)

/-- After a status was written: the candidates that mirror it, if any do. -/
def afterTransition (planId : String) (target : PlanStatus) (rest : List PlanRow) : Call :=
  match candidateStatusFor target with
  | some status => .affected planId status rest
  | none => sweep rest

/-- One place that writes a plan status. What it checks is the status the caller read. -/
def transition (plan : PlanRow) (target : PlanStatus) (count : Option ℕ) (rest : List PlanRow) :
    Write × Call :=
  if canTransition plan.status target then
    (.plan plan.id target count, afterTransition plan.id target rest)
  else (.nothing, .threw ("Cannot move a plan from " ++ plan.status.text ++ " to " ++ target.text))

/-! ### Execution -/

/-- A plan is executed from `approved`, and can expire between that and its run. -/
def loadExecution (db : Db) (planId : String) (now : Instant) : Call :=
  match db.plans.find planId with
  | none => notFound
  | some plan =>
    if !canTransition plan.status .executing then
      .threw ("Plan is " ++ plan.status.text ++ " and cannot be executed")
    else if plan.expiresAt.any fun t => decide (t ≤ now) then .expire plan
    else .start plan

def bySourcePath (actions : List ActionRow) : List ActionRow :=
  actions.insertionSort fun a b => a.sourcePath ≤ b.sourcePath

def Execution.finalStatus (e : Execution) : PlanStatus :=
  if 0 < e.failed ∨ 0 < e.skipped then .partly else .completed

def seedingReason (guard : SeedingGuard) (a : ActionRow) : Option String :=
  if guard.unknown then some "seeding_unknown"
  else if guard.blocked.contains a.id then some "seeding"
  else none

/-- The next action, skipped or marked `running`; after the last one the plan is closed. -/
def work (e : Execution) (answer : Answer) : Write × Call :=
  match e.todo with
  | [] => (.plan e.plan.id e.finalStatus none, .returned)
  | a :: todo =>
    let rest := { e with todo := todo }
    if answer.throws then (.nothing, .acting .failing rest a)
    else match (seedingReason e.guard a).or answer.skipReason with
      | some reason => (.action a.id .skipped (some reason), .working { rest with skipped := e.skipped + 1 })
      | none => (.action a.id .running none, .acting .handing rest a)

/-- The filesystem step and what is recorded of it. A failure is recorded and the run goes on. -/
def actOn (phase : Phase) (e : Execution) (a : ActionRow) (answer : Answer) : Write × Call :=
  let next := fun phase => if answer.throws then .acting .failing e a else .acting phase e a
  match phase with
  | .handing =>
    if ["quarantine", "trash"].contains a.actionType then (.hand a.id, .acting .moving e a)
    else (.nothing, .acting .failing e a)
  | .moving => (if answer.touches then .touch e.plan.id a.id else .nothing, next .completing)
  | .completing =>
    (if answer.throws then .nothing else .action a.id .completed none, next .mirroring)
  | .mirroring =>
    if answer.throws then (.nothing, .acting .failing e a)
    else (.candidates [a.candidateId]
        (if a.actionType = "quarantine" then .quarantined else .trashed), .working e)
  | .failing => (if answer.throws then .nothing else .action a.id .failed none,
      .working { e with failed := e.failed + 1 })

/-! ### One database call -/

def next (db : Db) (call : Call) (answer : Answer) : Option (Write × Call) :=
  match call with
  | .returned | .threw _ => none
  | .createPlan request => some (.nothing, match draftOf db request with
      | .ok draft => .checking draft
      | .error message => .threw message)
  | .checking draft => some (.nothing, check db draft answer)
  | .committing draft protectedNow now =>
    if answer.actionIds.length = draft.candidates.length then
      some (draft.create protectedNow now answer.planId answer.actionIds, .returned)
    else none
  | .approve planId user => some (.nothing, match db.plans.find planId with
      | none => notFound
      | some plan => .refreshProtections plan user answer.now)
  | .refreshProtections plan user now => some (.nothing,
      .refreshing plan user now (db.pending plan.id))
  | .refreshing plan user now todo => some (refresh db plan user now todo answer)
  | .reject planId => some (.nothing, decision db planId .rejected)
  | .cancel planId => some (.nothing, decision db planId .cancelled)
  | .sweepExpiry => some (.nothing, sweep (dueAt db answer.now))
  | .transition plan target count rest => some (transition plan target count rest)
  | .affected planId status rest => some (.nothing,
      .mirror ((db.pending planId).map (·.candidateId)) status rest)
  | .mirror ids status rest => some (.candidates ids status, sweep rest)
  | .execute planId => some (.nothing, loadExecution db planId answer.now)
  | .expire plan => some (.plan plan.id .expired none,
      .threw "This plan expired before it ran; re-run the policy.")
  | .start plan => some (.plan plan.id .executing none, .listing plan)
  | .listing plan => some (.nothing, .working
      { plan := plan, guard := answer.seeding, todo := bySourcePath (db.pending plan.id)
        skipped := 0, failed := 0 })
  | .working e => some (work e answer)
  | .acting phase e a => some (actOn phase e a answer)

def act (db : Db) (call : Call) (answer : Answer) : Option (Db × Call) :=
  (next db call answer).bind fun (write, call) => (db.apply write).map fun db => (db, call)

end UltraTorrent.Cleanup.PlanService
