import UltraTorrent.Intake.Jobs
import UltraTorrent.Library.EcmaScript
import UltraTorrent.Library.Interleaving

/-! The intake workflow, one database call at a time: what registers a job, what moves it, and
the loop that drives it through its stages. -/
namespace UltraTorrent.Intake.Pipeline

open Library.EcmaScript Library.Interleaving States Intake.Jobs

structure EnqueueInput where
  profileId : String
  sourcePath : String
  torrentHash : Option String
  engineId : Option String
  idempotencyKey : Option String

def keyFor (input : EnqueueInput) : String :=
  input.engineId.getD "none" ++ ":" ++ input.torrentHash.getD "manual" ++ ":" ++ input.sourcePath

structure StageContext where
  jobId : String
  sourcePath : String
  profileId : String
  torrentHash : Option String
  engineId : Option String

inductive StageResult where
  | done (message : Option String)
  | quarantine (reason : String)
  | throws (message : String)

/-- The stages there are, named by the state each produces, with their labels. -/
def stages : List (IntakeState × String) :=
  [(.verified, "Verify payload"), (.identified, "Identify release"),
   (.qualityScored, "Score quality"), (.readyToImport, "Plan the import"),
   (.importing, "Begin import"), (.imported, "Place into library"),
   (.metadataReady, "Fetch metadata"), (.artworkReady, "Fetch artwork"),
   (.subtitleReady, "Scan subtitles"), (.seeding, "Notify media server")]

def isRegistered (state : IntakeState) : Bool := (stages.map (·.1)).contains state

def labelOf (state : IntakeState) : String := (stages.lookup state).getD ""

/-- One drive through the stages, and the state it has reached by its own account. -/
structure Drive where
  ctx : StageContext
  state : IntakeState

/-- What a transition is for, which decides what follows it. -/
inductive Purpose where
  | advancing (drive : Drive) (want : IntakeState)
  | quarantining (drive : Drive) (want : IntakeState) (reason : String)
  | refusing (drive : Drive) (want : IntakeState)
  | failing (drive : Drive)
  | operator
  | archiving (live : List String) (rest : List JobRow)

inductive Call where
  | returned
  | threw (message : String)
  | enqueue (input : EnqueueInput)
  | creating (input : EnqueueInput) (key : String)
  | registering (jobId : String)
  | advance (jobId : String)
  | running (drive : Drive) (want : IntakeState)
  | staging (drive : Drive) (want : IntakeState)
  | transition (jobId : String) (target : IntakeState) (message : Option String) (purpose : Purpose)
  | writing (job : JobRow) (target : IntakeState) (message : Option String) (purpose : Purpose)
  | retry (jobId : String)
  | bumping (job : JobRow)
  | supersedeByHash (torrentHash reason : String)
  | superseding (job : JobRow) (rest : List JobRow) (reason : String)
  | recording (job : JobRow) (rest : List JobRow) (reason : String)
  | reconcile
  | surveying (jobs : List JobRow)

/-- What a call is answered from outside these tables. -/
structure Answer where
  stage : StageResult := .done none
  jobId : String := ""
  /-- The lower-cased hashes of the engine's listing, `none` when it could not be read. -/
  live : Option (List String) := none

def notFound : String := "Intake job not found"

/-! ### The calls an operator makes -/

def cancel (jobId : String) : Call :=
  .transition jobId .cancelled (some "Cancelled by operator") .operator

def release (jobId : String) (resumeAt : Option IntakeState) (note : Option String) : Call :=
  .transition jobId (resumeAt.getD .verified) (some (note.getD "Quarantine released")) .operator

/-! ### The drive -/

/-- The stage after the state reached; the drive ends at one that is not registered. -/
def proceed (drive : Drive) : Call :=
  match nextState drive.state with
  | none => .returned
  | some want => if isRegistered want then .running drive want else .returned

def beginDrive (job : JobRow) : Call :=
  proceed
    { ctx := { jobId := job.id, sourcePath := job.sourcePath, profileId := job.profileId
               torrentHash := job.torrentHash, engineId := job.engineId }
      state := job.state }

def afterStage (drive : Drive) (want : IntakeState) : StageResult → Call
  | .done message => .transition drive.ctx.jobId want (some (message.getD (labelOf want)))
      (.advancing drive want)
  | .quarantine reason => .transition drive.ctx.jobId .quarantined (some reason)
      (.quarantining drive want reason)
  | .throws message => .transition drive.ctx.jobId .failed (some (labelOf want ++ ": " ++ message))
      (.failing drive)

/-! ### The reconciler -/

/-- The first of the seeding jobs whose torrent the listing does not show. -/
def archiveNext (rt : Runtime) (live : List String) : List JobRow → Call
  | [] => .returned
  | job :: rest =>
    if job.torrentHash.all fun hash => hash = "" || live.contains (rt.toLowerCase hash) then
      archiveNext rt live rest
    else .transition job.id .archived (some "Archived: the torrent is no longer in the engine")
      (.archiving live rest)

/-! ### Transitions -/

def afterSuccess (rt : Runtime) : Purpose → Call
  | .advancing drive want => proceed { drive with state := want }
  | .archiving live rest => archiveNext rt live rest
  | .quarantining _ _ _ | .refusing _ _ | .failing _ | .operator => .returned

/-- A refused quarantine fails the job with the reason of the stage, and any other refusal on
the way through a stage fails it with the refusal. -/
def afterFailure (rt : Runtime) (error : String) : Purpose → Call
  | .advancing drive want | .refusing drive want =>
    .transition drive.ctx.jobId .failed (some (labelOf want ++ ": " ++ error)) (.failing drive)
  | .quarantining drive want reason =>
    .transition drive.ctx.jobId .failed (some (labelOf want ++ ": " ++ reason)) (.refusing drive want)
  | .archiving live rest => archiveNext rt live rest
  | .failing _ | .operator => .threw error

def check (rt : Runtime) (db : Db) (jobId : String) (target : IntakeState) (message : Option String)
    (purpose : Purpose) : Call :=
  match db.jobs.find jobId with
  | none => afterFailure rt notFound purpose
  | some job =>
    if canTransition job.state target then .writing job target message purpose
    else afterFailure rt
      ("Illegal intake transition " ++ job.state.text ++ " → " ++ target.text) purpose

/-! ### Registration, retry and supersession -/

/-- A job starts as `completed`: its payload is there already. -/
def jobOf (input : EnqueueInput) (key id : String) : JobRow where
  id := id
  profileId := input.profileId
  sourcePath := input.sourcePath
  torrentHash := input.torrentHash
  engineId := input.engineId
  idempotencyKey := key
  state := .completed
  resumeState := none
  lastError := none
  attempts := 0

/-- A duplicate trigger gets the first job back. -/
def lookup (db : Db) (input : EnqueueInput) : Call :=
  let key := input.idempotencyKey.getD (keyFor input)
  match db.jobs.rows.find? (·.idempotencyKey = key) with
  | some existing => .advance existing.id
  | none => .creating input key

def loadRetry (db : Db) (jobId : String) : Call :=
  match db.jobs.find jobId with
  | none => .threw notFound
  | some job =>
    if job.state = .failed then .bumping job
    else .threw ("Only a failed intake can be retried (this one is " ++ job.state.text ++ ").")

def resume (job : JobRow) : Call :=
  let target := job.resumeState.getD .completed
  .transition job.id target
    (some ("Retry #" ++ toString (job.attempts + 1) ++ " resuming at " ++ target.text)) .operator

def supersedeNext (reason : String) : List JobRow → Call
  | [] => .returned
  | job :: rest => .superseding job rest reason

def sameHash (rt : Runtime) (torrentHash : String) (job : JobRow) : Bool :=
  job.torrentHash.any fun hash => rt.toLowerCase hash = rt.toLowerCase torrentHash

/-! ### One database call -/

def writeOf (call : Call) (answer : Answer) : Write :=
  match call with
  | .creating input key => .create (jobOf input key answer.jobId)
  | .registering jobId =>
    .record ⟨jobId, none, .completed, some "Registered for intake; payload already present", false⟩
  | .running drive want => .start drive.ctx.jobId want
  | .writing job target message _ => .move job target message
  | .bumping job => .bump job.id
  | .superseding job _ _ => .supersede job.id (job.idempotencyKey ++ "::superseded:" ++ job.id)
  | .recording job _ reason => .record ⟨job.id, some job.state, .archived, some reason, true⟩
  | _ => .nothing

/-- Where it stands after that, from what it has read. -/
def follow (rt : Runtime) (db : Db) (call : Call) (answer : Answer) : Call :=
  match call with
  | .enqueue input => lookup db input
  | .creating _ _ => .registering answer.jobId
  | .registering jobId => .advance jobId
  | .advance jobId =>
    match db.jobs.find jobId with
    | none => .threw notFound
    | some job => beginDrive job
  | .running drive want => .staging drive want
  | .staging drive want => afterStage drive want answer.stage
  | .transition jobId target message purpose => check rt db jobId target message purpose
  | .writing _ _ _ purpose => afterSuccess rt purpose
  | .retry jobId => loadRetry db jobId
  | .bumping job => resume job
  | .supersedeByHash torrentHash reason => supersedeNext reason
      (db.jobs.rows.filter fun job => sameHash rt torrentHash job && job.state ≠ .archived)
  | .superseding job rest reason => .recording job rest reason
  | .recording _ rest reason => supersedeNext reason rest
  | .reconcile => .surveying (db.jobs.rows.filter (·.state = .seeding))
  | .surveying jobs =>
    match answer.live with
    | none => .returned
    | some live => archiveNext rt live jobs
  | .returned | .threw _ => call

def isOver : Call → Bool
  | .returned | .threw _ => true
  | _ => false

def act (rt : Runtime) (db : Db) (call : Call) (answer : Answer) : Option (Db × Call) :=
  if isOver call then none
  else (db.apply (writeOf call answer)).map fun db' => (db', follow rt db call answer)

/-- The calls as they are made. A completion event and a due intent each enqueue. -/
def isEntry : Call → Bool
  | .returned | .threw _ | .enqueue _ | .advance _ | .retry _ | .supersedeByHash _ _ | .reconcile
  | .transition _ _ _ .operator => true
  | _ => false

/-- The job a drive is about to be made of. -/
def setsOut : Call → Option String
  | .advance jobId => some jobId
  | _ => none

/-! ### What a call has made sure of -/

/-- A drive at a state that a stage leads on from, no quarantine among them. -/
def Ready (drive : Drive) (want : IntakeState) : Prop :=
  nextState drive.state = some want ∧ isRegistered want = true ∧ drive.state ≠ .quarantined

/-- The drive behind a transition is one of the same job, and what it asks for is what its
purpose says. -/
def Fits (jobId : String) (target : IntakeState) : Purpose → Prop
  | .advancing drive want => drive.ctx.jobId = jobId ∧ target = want ∧ Ready drive want
  | .quarantining drive want _ => drive.ctx.jobId = jobId ∧ target = .quarantined ∧ Ready drive want
  | .refusing drive want => drive.ctx.jobId = jobId ∧ target = .failed ∧ Ready drive want
  | .failing drive => drive.ctx.jobId = jobId ∧ target = .failed ∧ drive.state.isTerminal = false
  | .operator => True
  | .archiving _ _ => target = .archived

def driveOf : Purpose → Option Drive
  | .advancing drive _ | .quarantining drive _ _ | .refusing drive _ | .failing drive => some drive
  | .operator | .archiving _ _ => none

def Sound : Call → Prop
  | .running drive want | .staging drive want => Ready drive want
  | .transition jobId target _ purpose => Fits jobId target purpose
  | .writing job target _ purpose =>
    Fits job.id target purpose ∧ canTransition job.state target = true
  | .superseding job rest _ => job.state ≠ .archived ∧ ∀ j ∈ rest, j.state ≠ .archived
  | .recording job rest _ => job.state ≠ .archived ∧ ∀ j ∈ rest, j.state ≠ .archived
  | _ => True

variable {rt : Runtime} {db db' : Db} {call call' : Call} {answer : Answer}

theorem act_eq_some (h : act rt db call answer = some (db', call')) :
    isOver call = false ∧ db.apply (writeOf call answer) = some db' ∧
      call' = follow rt db call answer := by
  unfold act at h
  split_ifs at h with hover
  obtain ⟨db₁, hdb, hpair⟩ := Option.map_eq_some_iff.1 h
  obtain ⟨rfl, rfl⟩ := Prod.ext_iff.1 hpair
  exact ⟨by simpa using hover, hdb, rfl⟩

theorem sound_of_isEntry (h : isEntry call = true) : Sound call := by
  cases call with
  | transition _ _ _ purpose => cases purpose <;> trivial
  | _ => trivial

theorem not_terminal_of_isRegistered {s : IntakeState} (h : isRegistered s = true) :
    s.isTerminal = false := by
  cases s <;> first | rfl | cases h

/-- The only terminal state a stage leads on from is a quarantine. -/
theorem Ready.not_terminal {drive : Drive} {want : IntakeState} (h : Ready drive want) :
    drive.state.isTerminal = false := by
  obtain ⟨hnext, hregistered, hne⟩ := h
  cases hstate : drive.state <;> rw [hstate] at hnext hne <;> first
    | rfl
    | exact absurd rfl hne
    | (cases hnext; cases hregistered)
    | cases hnext

theorem Fits.not_terminal {jobId : String} {target : IntakeState} {purpose : Purpose} {drive : Drive}
    (h : Fits jobId target purpose) (hdrive : driveOf purpose = some drive) :
    drive.state.isTerminal = false := by
  cases purpose with
  | advancing _ _ | quarantining _ _ _ | refusing _ _ =>
    cases hdrive
    exact h.2.2.not_terminal
  | failing _ =>
    cases hdrive
    exact h.2.2
  | operator | archiving _ _ => cases hdrive

theorem Fits.jobId_eq {jobId : String} {target : IntakeState} {purpose : Purpose} {drive : Drive}
    (h : Fits jobId target purpose) (hdrive : driveOf purpose = some drive) :
    drive.ctx.jobId = jobId := by
  cases purpose with
  | advancing _ _ | quarantining _ _ _ | refusing _ _ | failing _ =>
    cases hdrive
    exact h.1
  | operator | archiving _ _ => cases hdrive

theorem sound_proceed {drive : Drive} (h : drive.state ≠ .quarantined) : Sound (proceed drive) := by
  unfold proceed
  split
  · trivial
  · rename_i want hwant
    split_ifs with hregistered
    · exact ⟨hwant, hregistered, h⟩
    · trivial

theorem sound_archiveNext (live : List String) (jobs : List JobRow) :
    Sound (archiveNext rt live jobs) := by
  induction jobs with
  | nil => trivial
  | cons job rest ih =>
    unfold archiveNext
    split_ifs
    · exact ih
    · exact rfl

theorem sound_supersedeNext {reason : String} {jobs : List JobRow}
    (h : ∀ j ∈ jobs, j.state ≠ .archived) : Sound (supersedeNext reason jobs) := by
  cases jobs with
  | nil => trivial
  | cons job rest => exact List.forall_mem_cons.1 h

theorem sound_afterStage {drive : Drive} {want : IntakeState} (h : Ready drive want)
    (result : StageResult) : Sound (afterStage drive want result) := by
  cases result with
  | done message => exact ⟨rfl, rfl, h⟩
  | quarantine reason => exact ⟨rfl, rfl, h⟩
  | throws message => exact ⟨rfl, rfl, h.not_terminal⟩

theorem sound_afterSuccess {jobId : String} {target : IntakeState} {purpose : Purpose}
    (h : Fits jobId target purpose) : Sound (afterSuccess rt purpose) := by
  cases purpose with
  | advancing drive want =>
    refine sound_proceed fun hstate => ?_
    have hterminal := not_terminal_of_isRegistered h.2.2.2.1
    rw [show want = .quarantined from hstate] at hterminal
    cases hterminal
  | archiving live rest => exact sound_archiveNext live rest
  | quarantining _ _ _ | refusing _ _ | failing _ | operator => trivial

theorem sound_afterFailure {jobId : String} {target : IntakeState} {purpose : Purpose}
    (h : Fits jobId target purpose) (error : String) : Sound (afterFailure rt error purpose) := by
  cases purpose with
  | advancing drive want => exact ⟨rfl, rfl, h.2.2.not_terminal⟩
  | refusing drive want => exact ⟨rfl, rfl, h.2.2.not_terminal⟩
  | quarantining drive want reason => exact ⟨rfl, rfl, h.2.2⟩
  | archiving live rest => exact sound_archiveNext live rest
  | failing _ | operator => trivial

theorem sound_check {jobId : String} {target : IntakeState} {purpose : Purpose}
    (h : Fits jobId target purpose) (message : Option String) :
    Sound (check rt db jobId target message purpose) := by
  unfold check
  split
  · exact sound_afterFailure h _
  · rename_i job hjob
    split_ifs with hcan
    · rw [← (Library.Table.find_eq_some.1 hjob).2] at h
      exact ⟨h, hcan⟩
    · exact sound_afterFailure h _

theorem Sound.follow (h : Sound call)
    (hquarantine : ∀ jobId, call = .advance jobId → db.state jobId ≠ some .quarantined) :
    Sound (follow rt db call answer) := by
  cases call with
  | returned | threw _ | creating _ _ | registering _ | reconcile => trivial
  | enqueue input =>
    unfold Pipeline.follow lookup
    dsimp only
    split <;> trivial
  | advance jobId =>
    unfold Pipeline.follow
    dsimp only
    split
    · trivial
    · rename_i job hjob
      refine sound_proceed fun hstate => hquarantine jobId rfl ?_
      rw [Db.state, hjob]
      exact congrArg some hstate
  | running drive want => exact h
  | staging drive want => exact sound_afterStage h answer.stage
  | transition jobId target message purpose => exact sound_check h message
  | writing job target message purpose => exact sound_afterSuccess h.1
  | retry jobId =>
    unfold Pipeline.follow loadRetry
    dsimp only
    split
    · trivial
    · split_ifs <;> trivial
  | bumping job => trivial
  | supersedeByHash torrentHash reason =>
    refine sound_supersedeNext fun job hjob => ?_
    rw [List.mem_filter, Bool.and_eq_true] at hjob
    simpa using hjob.2.2
  | superseding job rest reason => exact h
  | recording job rest reason => exact sound_supersedeNext h.2
  | surveying jobs =>
    unfold Pipeline.follow
    dsimp only
    split
    · trivial
    · exact sound_archiveNext _ jobs

end UltraTorrent.Intake.Pipeline
