import UltraTorrent.Library.CanonicalPath
import UltraTorrent.Library.EcmaScript
import UltraTorrent.Scheduler.Assignments
import UltraTorrent.Scheduler.PolicyService
import UltraTorrent.Scheduler.Schedule

/-! Which library and which feed rule a torrent belongs to, for the policies scoped to
one. Both are inferred: from where the files sit, and from the recorded evaluations. -/
namespace UltraTorrent.Scheduler.Scopes

open Library.EcmaScript Library.PosixPath

structure LibraryRoot where
  id : String
  path : String
  deriving DecidableEq

/-- A relative path that climbs out is not contained; neither is one whose first segment
merely begins with two dots. -/
def isWithin (cwd child parent : String) : Bool :=
  let rel := relative cwd parent child
  resolve cwd child = resolve cwd parent ||
    (rel ≠ "" && !startsWith rel ".." && !isAbsolute rel)

/-- The most specific root seen so far. -/
def moreSpecific (cwd : String) (best : Option LibraryRoot) (lib : LibraryRoot) :
    Option LibraryRoot :=
  match best with
  | none => some lib
  | some b =>
    if (resolve cwd b.path).length < (resolve cwd lib.path).length then some lib else some b

def libraryForPath (cwd : String) (savePath : String) (libraries : List LibraryRoot) :
    Option String :=
  if savePath = "" then none
  else
    let covering := libraries.filter fun lib => lib.path ≠ "" && isWithin cwd savePath lib.path
    (covering.foldl (moreSpecific cwd) none).map LibraryRoot.id

structure RuleMatchRow where
  torrentHash : Option String
  rssRuleId : String
  actionTaken : Option String
  createdAt : Instant
  deriving DecidableEq

/-- Only a download put a torrent in the queue, and an empty hash names none. -/
def downloaded (rt : Runtime) (hash : String) (row : RuleMatchRow) : Bool :=
  row.torrentHash.any (fun h => h ≠ "" && rt.toLowerCase h = hash)
    && row.actionTaken = some "download"

/-- Strictly newer, so the first of two equally old rows stays. -/
def newer (best : Option RuleMatchRow) (row : RuleMatchRow) : Option RuleMatchRow :=
  match best with
  | none => some row
  | some b => if row.createdAt ≤ b.createdAt then some b else some row

/-- The map from lower-cased hashes to rules, as the function that looks one up. -/
def rulesByTorrentHash (rt : Runtime) (rows : List RuleMatchRow) (hash : String) : Option String :=
  ((rows.filter (downloaded rt hash)).foldl newer none).map RuleMatchRow.rssRuleId

/-- Both hex casings of each hash. -/
def hashCaseVariants (rt : Runtime) (hashes : List String) : List String :=
  hashes.flatMap fun h => [rt.toLowerCase h, rt.toUpperCase h]

end UltraTorrent.Scheduler.Scopes

/-! The plan of one engine, built from stored rows without touching anything. Only the
scheduler's own notes tell its pauses from anybody else's. -/
namespace UltraTorrent.Scheduler.Preview

open Library.EcmaScript
open Occupancy Policy PolicyService Schedule Scopes Planner

/-! ### Stored rows -/

structure TorrentSnapshot where
  engineId : String
  hash : String
  name : String
  state : TorrentState
  progress : ℚ
  ratio : ℚ
  size : ℤ
  uploaded : ℤ
  downloadRate : ℤ
  savePath : String
  label : Option String := none
  categoryId : Option String := none
  addedAt : Option Instant := none
  completedAt : Option Instant := none
  deriving DecidableEq

structure ParkedTorrent where
  engineId : String
  hash : String
  deriving DecidableEq

/-- What the scheduler remembers about a torrent. A `schedulerPausedAt` of `null` means
the pause, if there is one, is not its own. -/
structure SchedulerState where
  engineId : String
  hash : String
  schedulerPausedAt : Option Instant
  reasonCode : Option ReasonCode
  lastActionAt : Option Instant
  deriving DecidableEq

/-- A note that the scheduler is the reason the torrent is paused. -/
def IsMark (r : SchedulerState) : Prop := r.schedulerPausedAt.isSome = true

instance : DecidablePred IsMark := fun r => inferInstanceAs (Decidable (r.schedulerPausedAt.isSome = true))

inductive IntakeState where
  | queued
  | downloading
  | completed
  | verified
  | identified
  | qualityScored
  | readyToImport
  | importing
  | imported
  | metadataReady
  | artworkReady
  | subtitleReady
  | seeding
  | archived
  | failed
  | quarantined
  | cancelled
  deriving DecidableEq

/-- From here on the file is in the library. -/
def IntakeState.reachedLibrary : IntakeState → Bool
  | .imported | .metadataReady | .artworkReady | .subtitleReady | .seeding | .archived => true
  | _ => false

structure MediaIntakeJob where
  engineId : Option String
  torrentHash : Option String
  state : IntakeState
  mediaItemId : Option String
  libraryId : Option String
  deriving DecidableEq

structure MediaLibrary extends LibraryRoot where
  isEnabled : Bool
  deriving DecidableEq

inductive OverrideKind where
  | protectFromPause
  | protectFromRemoval
  | exclude
  | forceStart
  deriving DecidableEq

structure TorrentOverride where
  engineId : String
  hash : String
  kind : OverrideKind
  expiresAt : Option Instant := none
  clearedAt : Option Instant := none
  deriving DecidableEq

structure TorrentCategory where
  id : String
  name : String
  deriving DecidableEq

/-- Everything a preview reads besides the scheduler's own notes. -/
structure Tables where
  engines : List (String × EngineKind)
  snapshots : List TorrentSnapshot
  policies : List PolicyRow := []
  parkedTorrents : List ParkedTorrent := []
  intakeJobs : List MediaIntakeJob := []
  libraries : List MediaLibrary := []
  ruleEvaluations : List RuleMatchRow := []
  windows : List ScheduleWindow := []
  overrides : List TorrentOverride := []
  categories : List TorrentCategory := []

variable (rt : Runtime)

/-- The overrides in force. Expiry is read off the clock. -/
def active (rows : List TorrentOverride) (engineId : String) (now : Instant) (hash : String)
    (kind : OverrideKind) : Bool :=
  rows.any fun r => r.engineId = engineId && r.clearedAt.isNone && r.expiresAt.all (now < ·)
    && rt.toLowerCase r.hash = hash && r.kind = kind

/-- The torrents the scheduler holds paused, by lower-cased hash, each with the time it
was last acted on. -/
def ourPauses (states : List SchedulerState) (engineId : String) : List (String × Option Instant) :=
  (states.filter fun r => r.engineId = engineId && r.schedulerPausedAt.isSome).map fun r =>
    (rt.toLowerCase r.hash, r.lastActionAt)

variable (cwd : String) (tables : Tables) (states : List SchedulerState) (engineId : String)
  (now : Instant)

def snapshotsOf : List TorrentSnapshot := tables.snapshots.filter (·.engineId = engineId)

/-- The intake job of a torrent; the last one listed stays. -/
def intakeJob (hash : String) : Option MediaIntakeJob :=
  let hashes := (snapshotsOf tables engineId).map TorrentSnapshot.hash
  let jobs := tables.intakeJobs.filter fun j =>
    j.engineId = some engineId && j.torrentHash.any fun h => hashes.contains h && h ≠ ""
  mapGet (jobs.map fun j => (rt.toLowerCase (j.torrentHash.getD ""), j)) hash

def ruleMatches : List RuleMatchRow :=
  let variants := hashCaseVariants rt ((snapshotsOf tables engineId).map TorrentSnapshot.hash)
  tables.ruleEvaluations.filter fun row =>
    row.torrentHash.any variants.contains && row.actionTaken = some "download"

def isParked (hash : String) : Bool :=
  tables.parkedTorrents.any fun p => p.engineId = engineId && rt.toLowerCase p.hash = hash

def categoryName (categoryId : Option String) : Option String :=
  categoryId.bind fun id =>
    if id = "" then none else mapGet (tables.categories.map fun c => (c.id, c.name)) id

def libraryOf (s : TorrentSnapshot) : Option String :=
  ((intakeJob rt tables engineId (rt.toLowerCase s.hash)).bind MediaIntakeJob.libraryId).or
    (libraryForPath cwd s.savePath
      ((tables.libraries.filter (·.isEnabled)).map MediaLibrary.toLibraryRoot))

/-- The scopes decide the policy; an open window then overrides it. -/
def policyOf (s : TorrentSnapshot) : ScheduledPolicy :=
  applySchedule rt
    (resolveEffectivePolicy rt (loadPolicies tables.policies)
      { torrentHash := s.hash
        engineId := engineId
        categoryId := s.categoryId
        libraryId := libraryOf rt cwd tables engineId s
        rssRuleId := rulesByTorrentHash rt (ruleMatches rt tables engineId) (rt.toLowerCase s.hash) })
    (tables.windows.filter ScheduleWindow.enabled) now

def classificationInput (s : TorrentSnapshot) : ClassificationInput where
  state := s.state
  progress := s.progress
  downloadRate := s.downloadRate
  parked := isParked rt tables engineId (rt.toLowerCase s.hash)
  schedulerPaused := (mapGet (ourPauses rt states engineId) (rt.toLowerCase s.hash)).isSome

/-- A torrent as the planner wants it. Seed duration is recorded nowhere and stays
absent; the age handed to the score is a fact the score never reads. -/
def plannerTorrent (caps : TorrentQueueCapabilities) (s : TorrentSnapshot) : PlannerTorrent :=
  let hash := rt.toLowerCase s.hash
  let override := active rt tables.overrides engineId now hash
  let job := intakeJob rt tables engineId hash
  let imported := job.any (·.state.reachedLibrary)
  let policy := policyOf rt cwd tables engineId now s
  { hash := s.hash
    name := s.name
    engineId := engineId
    occupancy :=
      if override .exclude then .excluded
      else (classify (classificationInput rt tables states engineId s) caps).occupancy
    complete := 1 ≤ s.progress
    ratio := some s.ratio
    seedMinutes := none
    sizeBytes := some s.size
    uploadedBytes := some s.uploaded
    label := s.label
    category := categoryName tables s.categoryId
    completedAt := s.completedAt
    intakeImported := some imported
    libraryCopyVerified := some (imported && (job.bind MediaIntakeJob.mediaItemId).any (· ≠ ""))
    addedAt := s.addedAt
    lastActionAt := (mapGet (ourPauses rt states engineId) hash).join
    allowNewDownloads := some policy.allowNewDownloads
    protectedFromPause := override .protectFromPause
    protectedFromRemoval := override .protectFromRemoval
    forceStarted := override .forceStart
    policy := policy.toEffectivePolicy
    decision := Priority.scoreTorrent { torrentHash := s.hash, progress := s.progress } }

def plannerTorrents (caps : TorrentQueueCapabilities) : List PlannerTorrent :=
  (snapshotsOf tables engineId).map (plannerTorrent rt cwd tables states engineId now caps)

/-- `none` when the engine is unknown to the registry. -/
def capabilitiesOf : Option TorrentQueueCapabilities :=
  (tables.engines.lookup engineId).map capabilitiesFor

def previewEngine (dateNow : String → Instant) : Option EngineActivityPlan :=
  (capabilitiesOf tables engineId).map fun caps =>
    planEngine rt dateNow { now := now } engineId
      (plannerTorrents rt cwd tables states engineId now caps) caps

/-! ### What a preview knows of the scheduler's pauses -/

variable {rt cwd tables states engineId now}

theorem mem_ourPauses {hash : String} {lastActionAt : Option Instant}
    (h : (hash, lastActionAt) ∈ ourPauses rt states engineId) :
    ∃ r ∈ states, IsMark r ∧ r.engineId = engineId ∧ rt.toLowerCase r.hash = hash ∧
      r.lastActionAt = lastActionAt := by
  obtain ⟨r, hr, hpair⟩ := List.mem_map.1 h
  obtain ⟨hhash, hlast⟩ := Prod.ext_iff.1 hpair
  rw [List.mem_filter, Bool.and_eq_true, decide_eq_true_eq] at hr
  exact ⟨r, hr.1, hr.2.2, hr.2.1, hhash, hlast⟩

/-- A torrent the planner may resume is marked as the scheduler's own pause, or the engine
reports it queued. -/
theorem plannerTorrent_resumable {caps : TorrentQueueCapabilities} {s : TorrentSnapshot}
    (h : (plannerTorrent rt cwd tables states engineId now caps s).occupancy.isResumable = true) :
    (∃ r ∈ states, IsMark r ∧ r.engineId = engineId ∧
      rt.toLowerCase r.hash = rt.toLowerCase s.hash) ∨ s.state = .queued := by
  unfold plannerTorrent at h
  dsimp only at h
  split_ifs at h
  · exact absurd h (by simp [OccupancyClass.isResumable])
  · simp only [OccupancyClass.isResumable, Bool.or_eq_true, decide_eq_true_eq] at h
    obtain (hpaused | hdownload) | hseed := h
    · left
      obtain ⟨-, hmarked⟩ := classify_schedulerPaused hpaused
      obtain ⟨lastActionAt, hget⟩ := Option.isSome_iff_exists.1 hmarked
      obtain ⟨r, hr, hmark, hengine, hhash, -⟩ := mem_ourPauses (mem_of_mapGet hget)
      exact ⟨r, hr, hmark, hengine, hhash⟩
    · exact .inr (classify_queued (.inl hdownload))
    · exact .inr (classify_queued (.inr hseed))

theorem plannerTorrent_active {caps : TorrentQueueCapabilities} {s : TorrentSnapshot}
    (hc : (plannerTorrent rt cwd tables states engineId now caps s).occupancy.isUntouchable = false)
    (h : (plannerTorrent rt cwd tables states engineId now caps s).occupancy.holdsTotalActiveSlot
      = true) : s.state.transfers = true := by
  unfold plannerTorrent at h hc
  dsimp only at h hc
  split_ifs at h hc
  · exact absurd hc (by simp [OccupancyClass.isUntouchable])
  · exact classify_active hc h

end UltraTorrent.Scheduler.Preview
