import UltraTorrent.Library.Walk
import UltraTorrent.Scheduler.Occupancy
import UltraTorrent.Scheduler.Policy
import UltraTorrent.Scheduler.Priority

/-! The planner of one engine: untouchable torrents are settled first, the others are
ranked, and one walk over the ranking hands out the slots. `Date.now()` is read once for
each seeding torrent, so it is a function of the torrent's hash here. -/
namespace UltraTorrent.Scheduler.Planner

open Library.EcmaScript Library.Kleene
open Occupancy Policy Priority SeedConditions

inductive DesiredState where
  | active
  | paused
  | unchanged
  | removed
  deriving DecidableEq

inductive Action where
  | pause
  | resume
  | none
  | removeAndCleanup
  deriving DecidableEq

def Action.text : Action → String
  | .pause => "pause"
  | .resume => "resume"
  | .none => "none"
  | .removeAndCleanup => "remove_and_cleanup"

inductive ReasonCode where
  | engineCannotPause
  | pausedByUser
  | pausedOutsideScheduler
  | parkedDeadSwarm
  | excludedByOperator
  | engineError
  | verifying
  | stateUnknown
  | forceStartedActive
  | forceStartedResume
  | actionBudgetExhausted
  | seedingWithinLimit
  | downloadingWithinLimit
  | protectedFromPause
  | tooRecentlyStarted
  | seedLimitReached
  | downloadLimitReached
  | notResumableByScheduler
  | scheduleBlocksNewDownloads
  | waitingForSeedSlot
  | waitingForDownloadSlot
  | seedSlotAvailable
  | downloadSlotAvailable
  | seedAgeDeadlineReached
  | seedTargetUnknown
  | seedTargetWaitingForImport
  | seedTargetWaitingForLibraryCopy
  | protectedFromRemoval
  | seedTargetReachedRemoved
  | seedTargetReachedLeftActive
  | seedTargetReached
  deriving DecidableEq

def ReasonCode.text : ReasonCode → String
  | .engineCannotPause => "engine_cannot_pause"
  | .pausedByUser => "paused_by_user"
  | .pausedOutsideScheduler => "paused_outside_scheduler"
  | .parkedDeadSwarm => "parked_dead_swarm"
  | .excludedByOperator => "excluded_by_operator"
  | .engineError => "engine_error"
  | .verifying => "verifying"
  | .stateUnknown => "state_unknown"
  | .forceStartedActive => "force_started_active"
  | .forceStartedResume => "force_started_resume"
  | .actionBudgetExhausted => "action_budget_exhausted"
  | .seedingWithinLimit => "seeding_within_limit"
  | .downloadingWithinLimit => "downloading_within_limit"
  | .protectedFromPause => "protected_from_pause"
  | .tooRecentlyStarted => "too_recently_started"
  | .seedLimitReached => "seed_limit_reached"
  | .downloadLimitReached => "download_limit_reached"
  | .notResumableByScheduler => "not_resumable_by_scheduler"
  | .scheduleBlocksNewDownloads => "schedule_blocks_new_downloads"
  | .waitingForSeedSlot => "waiting_for_seed_slot"
  | .waitingForDownloadSlot => "waiting_for_download_slot"
  | .seedSlotAvailable => "seed_slot_available"
  | .downloadSlotAvailable => "download_slot_available"
  | .seedAgeDeadlineReached => "seed_age_deadline_reached"
  | .seedTargetUnknown => "seed_target_unknown"
  | .seedTargetWaitingForImport => "seed_target_waiting_for_import"
  | .seedTargetWaitingForLibraryCopy => "seed_target_waiting_for_library_copy"
  | .protectedFromRemoval => "protected_from_removal"
  | .seedTargetReachedRemoved => "seed_target_reached_removed"
  | .seedTargetReachedLeftActive => "seed_target_reached_left_active"
  | .seedTargetReached => "seed_target_reached"

/-- The pauses made because a limit was reached. -/
def ReasonCode.isLimit : ReasonCode → Bool
  | .seedLimitReached | .downloadLimitReached => true
  | _ => false

structure PlannerTorrent where
  hash : String
  engineId : String
  occupancy : OccupancyClass
  decision : TorrentPriorityDecision
  policy : EffectivePolicy
  addedAt : Option Instant := none
  protectedFromPause : Bool := false
  forceStarted : Bool := false
  lastActionAt : Option Instant := none
  complete : Bool
  ratio : Option ℚ := none
  sizeBytes : Option ℚ := none
  uploadedBytes : Option ℚ := none
  tracker : Option String := none
  category : Option String := none
  label : Option String := none
  isPrivate : Option Bool := none
  name : Option String := none
  libraryId : Option String := none
  seedMinutes : Option ℚ := none
  completedAt : Option Instant := none
  intakeImported : Option Bool := none
  libraryCopyVerified : Option Bool := none
  protectedFromRemoval : Bool := false
  allowNewDownloads : Option Bool := none

/-- `priorityDisplacementThreshold` is accepted and never read. -/
structure PlannerOptions where
  now : Instant
  minimumActiveSeconds : Option ℚ := none
  priorityDisplacementThreshold : Option ℚ := none
  maxActionsPerSweep : Option ℤ := none
  deriving DecidableEq

def PlannerOptions.minimumActive (opts : PlannerOptions) : ℚ := opts.minimumActiveSeconds.getD 120

def PlannerOptions.budget (opts : PlannerOptions) : ℤ := opts.maxActionsPerSweep.getD 25

structure Bandwidth where
  maxDownloadRateSource : Option String
  maxUploadRateSource : Option String
  maxDownloadRateKbps : Option ℤ
  maxUploadRateKbps : Option ℤ
  reserveDownloadPercent : Option ℤ
  reserveSeedPercent : Option ℤ
  deriving DecidableEq

structure TorrentDecision where
  hash : String
  name : Option String
  engineId : String
  currentOccupancy : OccupancyClass
  desiredState : DesiredState
  action : Action
  reasonCode : ReasonCode
  values : List (String × Value)
  score : ℤ
  protectedFromPause : Bool
  policySource : Option String
  bandwidth : Bandwidth

def TorrentDecision.messageKey (d : TorrentDecision) : String :=
  "scheduler.reason." ++ d.reasonCode.text

structure PlanSummary where
  activeDownloads : ℕ
  activeSeeds : ℕ
  totalActive : ℕ
  queuedDownloads : ℕ
  queuedSeeds : ℕ
  deriving DecidableEq

structure EngineActivityPlan where
  engineId : String
  decisions : List TorrentDecision
  summary : PlanSummary
  limitations : List SchedulerLimitation

/-- `null` is explicitly unlimited. -/
def withinLimit (count : ℕ) : Option ℤ → Bool
  | none => true
  | some limit => (count : ℤ) < limit

def decide (t : PlannerTorrent) (desired : DesiredState) (action : Action) (reasonCode : ReasonCode)
    (values : List (String × Value) := []) : TorrentDecision where
  hash := t.hash
  name := t.name
  engineId := t.engineId
  currentOccupancy := t.occupancy
  desiredState := desired
  action := action
  reasonCode := reasonCode
  values := values
  score := t.decision.score
  protectedFromPause := t.protectedFromPause
  policySource := t.policy.sources.maxConcurrentDownloads.or t.policy.sources.maxTotalActive
  bandwidth :=
    { maxDownloadRateSource := t.policy.sources.maxDownloadRateKbps
      maxUploadRateSource := t.policy.sources.maxUploadRateKbps
      maxDownloadRateKbps := t.policy.maxDownloadRateKbps
      maxUploadRateKbps := t.policy.maxUploadRateKbps
      reserveDownloadPercent := t.policy.reserveDownloadBandwidthPercent
      reserveSeedPercent := t.policy.reserveSeedBandwidthPercent }

@[simp] theorem decide_action (t : PlannerTorrent) (desired : DesiredState) (action : Action)
    (reasonCode : ReasonCode) (values : List (String × Value)) :
    (decide t desired action reasonCode values).action = action := rfl

@[simp] theorem decide_reasonCode (t : PlannerTorrent) (desired : DesiredState) (action : Action)
    (reasonCode : ReasonCode) (values : List (String × Value)) :
    (decide t desired action reasonCode values).reasonCode = reasonCode := rfl

@[simp] theorem decide_hash (t : PlannerTorrent) (desired : DesiredState) (action : Action)
    (reasonCode : ReasonCode) (values : List (String × Value)) :
    (decide t desired action reasonCode values).hash = t.hash := rfl

def number (q : ℚ) : Value := .number (.fin q)

/-! ### Seed targets -/

variable (rt : Runtime) (dateNow : String → Instant)

/-- A fact the planner does not have stays absent. -/
def seedFactsOf (t : PlannerTorrent) : SeedFacts where
  ratio := t.ratio
  seedMinutes := t.seedMinutes
  ageDays := t.completedAt.map fun at_ => ((dateNow t.hash - at_ : ℤ) : ℚ) / 86400000
  sizeBytes := t.sizeBytes
  tracker := t.tracker
  category := t.category
  label := t.label
  isPrivate := t.isPrivate
  name := t.name
  libraryId := t.libraryId
  importCompleted := t.intakeImported
  libraryCopyVerified := t.libraryCopyVerified
  uploadedBytes := t.uploadedBytes

/-- An undecidable target is reported once for each engine. -/
def noteUndecidable (policy : SeedingPolicy) (engineId : String)
    (limitations : List SchedulerLimitation) : List SchedulerLimitation :=
  let unmeasurable := (unmeasurableFields policy.stopWhen).filter (· ≠ "seed.seedMinutes")
  let code := if unmeasurable.isEmpty then .noSeedTimeData else .unmeasurableSeedCondition
  if limitations.any (·.code = code) then limitations
  else limitations ++
    [⟨engineId, code, if unmeasurable.isEmpty then none else some (", ".intercalate unmeasurable)⟩]

def PostSeedAction.isDestructive : PostSeedAction → Bool
  | .removeTorrentKeepData | .removeTorrentAndStagingData => true
  | _ => false

def targetMetDecision (t : PlannerTorrent) (policy : SeedingPolicy) : TorrentDecision :=
  if policy.requireImportCompleted && t.intakeImported ≠ some true then
    decide t .active .none .seedTargetWaitingForImport
  else if policy.requireLibraryCopyVerified && t.libraryCopyVerified ≠ some true then
    decide t .active .none .seedTargetWaitingForLibraryCopy
  else if t.protectedFromRemoval then decide t .active .none .protectedFromRemoval
  else if PostSeedAction.isDestructive policy.afterTarget then
    decide t .removed .removeAndCleanup .seedTargetReachedRemoved
      [("afterTarget", .string policy.afterTarget.text), ("ratio", .ofOption number t.ratio)]
  else if policy.afterTarget = .leaveActive then
    decide t .active .none .seedTargetReachedLeftActive
  else
    decide t .paused .pause .seedTargetReached
      [("mode", .string policy.mode.text), ("ratio", .ofOption number t.ratio)]

/-- The deadline is consulted on every verdict that is not a success, before the
verdict's own outcome. -/
def seedTargetDecision (t : PlannerTorrent) (policy : SeedingPolicy) (engineId : String)
    (now : Instant) (limitations : List SchedulerLimitation) :
    Option (TorrentDecision × List SchedulerLimitation) :=
  let verdict := evaluateSeedTarget rt policy (seedFactsOf dateNow t)
  if verdict ≠ .yes && !t.protectedFromRemoval
      && evaluateSeedAgeDeadline policy t.completedAt now = .yes then
    some (decide t .removed .removeAndCleanup .seedAgeDeadlineReached
      [("maxAgeDays", .ofOption number policy.maxAgeDays),
       ("completedAt", .ofOption (fun at_ => .string (rt.toISOString at_)) t.completedAt),
       ("ratio", .ofOption number t.ratio)], limitations)
  else match verdict with
    | .no => none
    | .unknown =>
      some (decide t .active .none .seedTargetUnknown, noteUndecidable policy engineId limitations)
    | .yes => some (targetMetDecision t policy, limitations)

/-! ### The walk -/

/-- What the walk is told once. -/
structure Limits where
  engineId : String
  maxDownloads : Option ℤ
  maxSeeds : Option ℤ
  maxTotal : Option ℤ
  deriving DecidableEq

/-- What the walk carries from one torrent to the next. -/
structure Slots where
  downloads : ℕ
  seeds : ℕ
  total : ℕ
  actions : ℕ
  limitations : List SchedulerLimitation
  deriving DecidableEq

namespace Slots

/-- A torrent keeps or takes a slot of its kind. -/
def occupy (s : Slots) (wantsSeed : Bool) : Slots :=
  { s with
    downloads := if wantsSeed then s.downloads else s.downloads + 1
    seeds := if wantsSeed then s.seeds + 1 else s.seeds
    total := s.total + 1 }

def act (s : Slots) : Slots := { s with actions := s.actions + 1 }

def note (s : Slots) (limitations : List SchedulerLimitation) : Slots :=
  { s with limitations := limitations }

end Slots

variable (opts : PlannerOptions) (limits : Limits)

def budgetLeft (s : Slots) : Bool := (s.actions : ℤ) < opts.budget

def slotFree (s : Slots) (wantsSeed : Bool) : Bool :=
  (if wantsSeed then withinLimit s.seeds limits.maxSeeds
    else withinLimit s.downloads limits.maxDownloads) && withinLimit s.total limits.maxTotal

/-- Seconds since the scheduler last touched the torrent. -/
def heldFor (t : PlannerTorrent) : ℚ :=
  match t.lastActionAt with
  | some at_ => ((opts.now - at_ : ℤ) : ℚ) / 1000
  | none => maxSafeInteger

/-- The seed rule is consulted for complete torrents that hold a slot and may be paused. -/
def consultSeedTarget (s : Slots) (t : PlannerTorrent) :
    Option (TorrentDecision × List SchedulerLimitation) :=
  if t.complete && t.occupancy.holdsTotalActiveSlot && !t.protectedFromPause then
    t.policy.seedPolicy.bind fun policy =>
      seedTargetDecision rt dateNow t policy limits.engineId opts.now s.limitations
  else none

def limitValue (wantsSeed : Bool) : List (String × Value) :=
  [("limit", ((if wantsSeed then limits.maxSeeds else limits.maxDownloads).map
    fun l => number l).getD .null)]

/-- A torrent that runs: it keeps its slot unless the limit is reached and neither
protection, hysteresis nor the action budget vetoes the pause. -/
def visitActive (s : Slots) (t : PlannerTorrent) : Slots × TorrentDecision :=
  if slotFree limits s t.complete then
    (s.occupy t.complete,
      decide t .active .none (if t.complete then .seedingWithinLimit else .downloadingWithinLimit))
  else if t.protectedFromPause then
    (s.occupy t.complete, decide t .active .none .protectedFromPause)
  else if heldFor opts t < opts.minimumActive then
    (s.occupy t.complete,
      decide t .active .none .tooRecentlyStarted [("seconds", number (round (heldFor opts t)))])
  else if !budgetLeft opts s then
    (s.occupy t.complete, decide t .active .none .actionBudgetExhausted)
  else
    (s.act, decide t .paused .pause
      (if t.complete then .seedLimitReached else .downloadLimitReached) (limitValue limits t.complete))

def visitWaiting (s : Slots) (t : PlannerTorrent) : Slots × TorrentDecision :=
  if !t.occupancy.isResumable then (s, decide t .unchanged .none .notResumableByScheduler)
  else if !t.complete && t.allowNewDownloads = some false then
    (s, decide t .paused .none .scheduleBlocksNewDownloads)
  else if !slotFree limits s t.complete then
    (s, decide t .paused .none
      (if t.complete then .waitingForSeedSlot else .waitingForDownloadSlot)
      (limitValue limits t.complete))
  else if !budgetLeft opts s then (s, decide t .paused .none .actionBudgetExhausted)
  else
    (s.act.occupy t.complete, decide t .active .resume
      (if t.complete then .seedSlotAvailable else .downloadSlotAvailable))

/-- Force-start bypasses the caps, never the action budget. -/
def visitForced (s : Slots) (t : PlannerTorrent) : Slots × TorrentDecision :=
  if t.occupancy.holdsTotalActiveSlot then
    (s.occupy t.complete, decide t .active .none .forceStartedActive)
  else if budgetLeft opts s then
    (s.act.occupy t.complete, decide t .active .resume .forceStartedResume)
  else (s.occupy t.complete, decide t .active .none .actionBudgetExhausted)

/-- Only a decision that acts frees the slot of the torrent it is about. -/
def settleSeed (s : Slots) (settled : TorrentDecision × List SchedulerLimitation) :
    Slots × TorrentDecision :=
  if settled.1.action = .pause ∨ settled.1.action = .removeAndCleanup then
    ((s.note settled.2).act, settled.1)
  else ((s.note settled.2).occupy true, settled.1)

def visit (s : Slots) (t : PlannerTorrent) : Slots × TorrentDecision :=
  match consultSeedTarget rt dateNow opts limits s t with
  | some settled => settleSeed s settled
  | none =>
    if t.forceStarted then visitForced opts s t
    else if t.occupancy.holdsTotalActiveSlot then visitActive opts limits s t
    else visitWaiting opts limits s t

/-! ### The plan -/

def reasonForUntouchable : OccupancyClass → ReasonCode
  | .userPaused => .pausedByUser
  | .providerPaused => .pausedOutsideScheduler
  | .parked => .parkedDeadSwarm
  | .excluded => .excludedByOperator
  | .error => .engineError
  | .checking => .verifying
  | _ => .stateUnknown

def summarize (torrents : List PlannerTorrent) : PlanSummary where
  activeDownloads := torrents.countP (·.occupancy.holdsDownloadSlot)
  activeSeeds := torrents.countP (·.occupancy.holdsSeedSlot)
  totalActive := torrents.countP (·.occupancy.holdsTotalActiveSlot)
  queuedDownloads := torrents.countP (·.occupancy = .downloadQueued)
  queuedSeeds := torrents.countP (·.occupancy = .seedQueued)

def capabilityLimitations (engineId : String) (caps : TorrentQueueCapabilities) :
    List SchedulerLimitation :=
  (if canDo caps.reportsQueuedState then [] else [⟨engineId, .noQueuedState, none⟩])
  ++ (if caps.forceStart = .approximated then [⟨engineId, .forceStartApproximated, none⟩] else [])

/-- The first torrent's policy supplies the caps of the whole engine. -/
def limitsOf (engineId : String) (torrents : List PlannerTorrent) : Limits where
  engineId := engineId
  maxDownloads := torrents.head?.bind (·.policy.maxConcurrentDownloads)
  maxSeeds := torrents.head?.bind (·.policy.maxConcurrentSeeds)
  maxTotal := torrents.head?.bind (·.policy.maxTotalActive)

def untouchable (torrents : List PlannerTorrent) : List PlannerTorrent :=
  torrents.filter (·.occupancy.isUntouchable)

def contenders (torrents : List PlannerTorrent) : List PlannerTorrent :=
  torrents.filter (!·.occupancy.isUntouchable)

def settleUntouchable (t : PlannerTorrent) : TorrentDecision :=
  decide t .unchanged .none (reasonForUntouchable t.occupancy)

/-- Slots held by torrents the scheduler must not touch. -/
def initialSlots (engineId : String) (torrents : List PlannerTorrent)
    (caps : TorrentQueueCapabilities) : Slots where
  downloads := (untouchable torrents).countP (·.occupancy.holdsDownloadSlot)
  seeds := (untouchable torrents).countP (·.occupancy.holdsSeedSlot)
  total := (untouchable torrents).countP (·.occupancy.holdsTotalActiveSlot)
  actions := 0
  limitations := capabilityLimitations engineId caps

def orderable (t : PlannerTorrent) : OrderableTorrent where
  decision := t.decision
  currentlyActive := t.occupancy.holdsTotalActiveSlot
  addedAt := t.addedAt

def ranked (torrents : List PlannerTorrent) : List PlannerTorrent :=
  orderByPriority rt orderable (contenders torrents)

def planEngine (engineId : String) (torrents : List PlannerTorrent) (caps : TorrentQueueCapabilities) :
    EngineActivityPlan :=
  if !canDo caps.pause then
    { engineId := engineId
      decisions := torrents.map fun t => decide t .unchanged .none .engineCannotPause
      summary := summarize torrents
      limitations := [⟨engineId, .noPauseSupport, none⟩] }
  else
    let limits := limitsOf engineId torrents
    let start := initialSlots engineId torrents caps
    let walk := Library.Walk.outputs (visit rt dateNow opts limits) start (ranked rt torrents)
    let slots := Library.Walk.finish (visit rt dateNow opts limits) start (ranked rt torrents)
    let decisions := (untouchable torrents).map settleUntouchable ++ walk
    { engineId := engineId
      decisions := decisions
      summary :=
        { activeDownloads := slots.downloads
          activeSeeds := slots.seeds
          totalActive := slots.total
          queuedDownloads := decisions.countP (·.reasonCode = .waitingForDownloadSlot)
          queuedSeeds := decisions.countP (·.reasonCode = .waitingForSeedSlot) }
      limitations := slots.limitations }

end UltraTorrent.Scheduler.Planner
