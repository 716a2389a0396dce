import UltraTorrent.Cleanup.ProtectionService
import UltraTorrent.Files.PathSafety
import UltraTorrent.Cleanup.CandidateFingerprint

/-! The holding area: a file is moved in, and leaves it by a restore or by a purge, the one
step with no way back. -/
namespace UltraTorrent.Cleanup.Quarantine

open Library.EcmaScript Library.PosixPath Files.PathSafety
open ProtectionMatcher ProtectionService

inductive QuarantineStatus where
  | quarantined
  | restored
  | purged
  | expired
  deriving DecidableEq

structure QuarantineItem where
  id : String
  mediaItemId : Option String
  mediaFileId : Option String
  /-- Relative to the storage root, led by a slash. -/
  originalPath : String
  quarantinePath : String
  storageRoot : String
  fingerprint : String
  status : QuarantineStatus
  restoreDeadline : Option Instant
  deriving DecidableEq

/-- What quarantine works on: the storage, the registry, and the file operations that may
fail. -/
structure Storage where
  rt : Runtime
  cwd : String
  hardRoots : List String
  registry : List ProtectionRecord
  pathExists : String → Bool
  move : String → String → Except String Unit
  rm : String → Except String Unit

def quarantineDirName : String := ".ultratorrent-quarantine"

def basename (cwd path : String) : String := .ofList ((segments cwd path).getLastD [])

/-- The record keeps the path relative to the root the file came from. -/
def quarantine (s : Storage) (absPath fingerprint : String) (mediaItemId mediaFileId : Option String)
    (retentionDays : Option ℕ) (uuid : String) (now : Instant) : Except String QuarantineItem := do
  let abs ← assertWithinHardRoots s.rt s.cwd s.hardRoots absPath
  assertDeletable s.cwd s.hardRoots abs
  match rootFor s.cwd s.hardRoots abs with
  | none => throw "File is outside the allowed storage roots"
  | some storageRoot =>
    if !s.pathExists abs then throw "File no longer exists"
    let quarantinePath := resolve s.cwd
      (storageRoot ++ "/" ++ quarantineDirName ++ "/" ++ uuid ++ "__" ++ basename s.cwd abs)
    let originalPath ← relativeToRoot s.cwd storageRoot abs
    s.move abs quarantinePath
    pure
      { id := uuid
        mediaItemId := mediaItemId
        mediaFileId := mediaFileId
        originalPath := originalPath
        quarantinePath := quarantinePath
        storageRoot := storageRoot
        fingerprint := fingerprint
        status := .quarantined
        restoreDeadline := match retentionDays with
          | none | some 0 => none
          | some days => some (now + days * 86400000) }

def rootIsConfigured (s : Storage) (storageRoot : String) : Bool :=
  let root := resolve s.cwd storageRoot
  s.hardRoots.any fun r => isAtOrBelow root (resolve s.cwd r)

/-- Only inside a quarantine directory. -/
def payloadIsRemovable (s : Storage) (row : QuarantineItem) : Bool :=
  rootIsConfigured s row.storageRoot &&
    startsWith (resolve s.cwd row.quarantinePath)
      (resolve s.cwd row.storageRoot ++ "/" ++ quarantineDirName ++ "/")

/-- The irreversible step. -/
def removePayload (s : Storage) (row : QuarantineItem) : Except String QuarantineItem :=
  if !payloadIsRemovable s row then
    .error "Refusing to remove a path outside a quarantine directory"
  else
    (s.rm row.quarantinePath).map fun _ => { row with status := .purged }

/-- What a purge asks the registry about: the recorded path as it stands in the row. -/
def purgeTarget (row : QuarantineItem) : ProtectionTarget where
  mediaItemId := row.mediaItemId
  mediaFileId := row.mediaFileId
  path := some row.originalPath

def statusText : QuarantineStatus → String
  | .quarantined => "quarantined"
  | .restored => "restored"
  | .purged => "purged"
  | .expired => "expired"

/-- The operator's purge. -/
def purge (s : Storage) (row : QuarantineItem) (now : Instant) : Except String QuarantineItem :=
  if row.status ≠ .quarantined then
    .error ("Item is " ++ statusText row.status ++ " and cannot be purged")
  else
    let verdict := evaluate s.rt s.cwd s.registry (purgeTarget row) now
    if verdict.isProtected then
      .error (if verdict.hasLegalHold then "This item is under a legal hold and cannot be purged"
        else "This item is protected and cannot be purged")
    else removePayload s row

def defaultQuarantineGraceDays : ℚ := 7

/-- How long an expired item is kept, from the setting as stored. -/
def graceDays (rt : Runtime) (raw : Value) : ℚ :=
  match raw with
  | .undefined | .null | .string "" => defaultQuarantineGraceDays
  | raw =>
    match rt.number raw with
    | .fin n => if 0 ≤ n then n else defaultQuarantineGraceDays
    | _ => defaultQuarantineGraceDays

/-- One row of the sweep; `none` when protection holds it. -/
def autoPurge (s : Storage) (now : Instant) (row : QuarantineItem) :
    Except String (Option QuarantineItem) :=
  if (evaluate s.rt s.cwd s.registry (purgeTarget row) now).isProtected then .ok none
  else (removePayload s row).map some

def isDue (cutoff : Instant) (row : QuarantineItem) : Bool :=
  row.status = .expired && (row.restoreDeadline.map fun t => decide (t ≤ cutoff)).getD false

/-- The rows the sweep removes, of a table in the order the database returns it. One that
cannot be removed does not stop the others. -/
def purgeGraceElapsed (s : Storage) (graceSetting : Value) (now : Instant)
    (table : List QuarantineItem) : List QuarantineItem :=
  let cutoff := newDate (now - graceDays s.rt graceSetting * 86400000)
  ((table.filter (isDue cutoff)).take 200).filter fun row =>
    match autoPurge s now row with
    | .ok (some _) => true
    | .ok none | .error _ => false

end UltraTorrent.Cleanup.Quarantine

/-! Execution of one approved action. Every safety property is checked again here, right
before the file is touched. -/
namespace UltraTorrent.Cleanup.PlanExecutor

open Library.EcmaScript Library.PosixPath Files.PathSafety
open ProtectionMatcher ProtectionService CandidateFingerprint Quarantine

structure CleanupAction where
  id : String
  sourcePath : String
  pinnedFingerprint : String
  actionType : String
  mediaItemId : Option String
  mediaFileId : Option String

structure CleanupPlan where
  policyVersionId : String
  retentionDays : Option ℕ

/-- What the executor meets besides the storage. -/
structure World extends Storage where
  sha256 : String → String
  catalogue : Catalogue
  locked : String → Bool
  /-- Unfinished jobs on an item. -/
  activeJobs : String → ℕ
  trash : String → Except String String
  uuid : String

inductive ActionOutcome where
  | skipped (reason : String)
  | quarantined (item : QuarantineItem)
  | trashed (path : String)
  | failed (message : String)

/-- The file is no longer where it was. -/
def ActionOutcome.removes : ActionOutcome → Bool
  | .quarantined _ | .trashed _ => true
  | .skipped _ | .failed _ => false

/-- The recorded path, once the storage boundary lets it be acted on. -/
def confine (s : Storage) (sourcePath : String) : Except String String := do
  let abs ← assertWithinHardRoots s.rt s.cwd s.hardRoots sourcePath
  assertDeletable s.cwd s.hardRoots abs
  pure abs

/-- What the executor asks the registry about. -/
def recheckTarget (action : CleanupAction) (abs : String) : ProtectionTarget where
  mediaItemId := action.mediaItemId
  mediaFileId := action.mediaFileId
  path := some abs

/-- Has the world moved since this was approved? -/
def detectDrift (w : World) (action : CleanupAction) (plan : CleanupPlan) (now : Instant) :
    Option String :=
  match action.mediaFileId with
  | none | some "" => some "the action records no media file to verify"
  | some mediaFileId =>
    match fingerprintNow w.rt w.sha256 w.cwd w.catalogue w.registry now mediaFileId
        plan.policyVersionId with
    | none => some "the media file or policy version no longer exists"
    | some fingerprint =>
      if fingerprint = action.pinnedFingerprint then none
      else some "the file no longer matches the state that was approved"

/-- The filesystem step. -/
def perform (w : World) (action : CleanupAction) (plan : CleanupPlan) (abs : String) (now : Instant) :
    ActionOutcome :=
  if action.actionType = "quarantine" then
    match quarantine w.toStorage abs action.pinnedFingerprint action.mediaItemId action.mediaFileId
        plan.retentionDays w.uuid now with
    | .ok item => .quarantined item
    | .error message => .failed message
  else if action.actionType = "trash" then
    match w.trash abs with
    | .ok path => .trashed path
    | .error message => .failed message
  else if action.actionType = "permanent_delete" then
    .failed "Permanent deletion is not a plan destination"
  else .failed ("Unknown cleanup action \"" ++ action.actionType ++ "\"")

def isLocked (w : World) (action : CleanupAction) : Bool :=
  (action.mediaItemId.map fun id => decide (id ≠ "") && w.locked id).getD false

def isBusy (w : World) (action : CleanupAction) : Bool :=
  (action.mediaItemId.map fun id => decide (id ≠ "") && decide (0 < w.activeJobs id)).getD false

def executeAction (w : World) (action : CleanupAction) (plan : CleanupPlan) (now : Instant) :
    ActionOutcome :=
  match confine w.toStorage action.sourcePath with
  | .error _ => .skipped "outside_roots"
  | .ok abs =>
    if !w.pathExists abs then .skipped "vanished"
    else
      let verdict := evaluate w.rt w.cwd w.registry (recheckTarget action abs) now
      if verdict.isProtected then .skipped (if verdict.hasLegalHold then "legal_hold" else "protected")
      else if isLocked w action then .skipped "locked"
      else if isBusy w action then .skipped "active_job"
      else if (detectDrift w action plan now).isSome then .skipped "fingerprint_drift"
      else perform w action plan abs now

end UltraTorrent.Cleanup.PlanExecutor
