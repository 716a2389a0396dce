import UltraTorrent.Library.EcmaScript

/-! What an engine can do about queueing, and what each torrent occupies, as distinct
from what state its engine reports. -/
namespace UltraTorrent.Scheduler.Occupancy

inductive CapabilityGrade where
  | native
  | approximated
  | unsupported
  deriving DecidableEq

/-- Only the grades the planner consults. -/
structure TorrentQueueCapabilities where
  pause : CapabilityGrade
  forceStart : CapabilityGrade
  reportsQueuedState : CapabilityGrade
  deriving DecidableEq

def canDo : CapabilityGrade → Bool
  | .native | .approximated => true
  | .unsupported => false

inductive EngineKind where
  | rtorrent
  | qbittorrent
  | transmission
  | deluge
  deriving DecidableEq

/-- An engine kind nobody has characterised is credited with nothing. -/
def capabilitiesFor : EngineKind → TorrentQueueCapabilities
  | .qbittorrent => ⟨.native, .native, .native⟩
  | .rtorrent => ⟨.native, .approximated, .unsupported⟩
  | .transmission | .deluge => ⟨.unsupported, .unsupported, .unsupported⟩

def nativeCapabilities : TorrentQueueCapabilities := capabilitiesFor .qbittorrent

inductive LimitationCode where
  | noPauseSupport
  | noSeedTimeData
  | noQueuedState
  | noGlobalRateLimit
  | bandwidthReserveUnsupported
  | forceStartApproximated
  | nativeQueueConflict
  | unmeasurableSeedCondition
  deriving DecidableEq

def LimitationCode.text : LimitationCode → String
  | .noPauseSupport => "no_pause_support"
  | .noSeedTimeData => "no_seed_time_data"
  | .noQueuedState => "no_queued_state"
  | .noGlobalRateLimit => "no_global_rate_limit"
  | .bandwidthReserveUnsupported => "bandwidth_reserve_unsupported"
  | .forceStartApproximated => "force_start_approximated"
  | .nativeQueueConflict => "native_queue_conflict"
  | .unmeasurableSeedCondition => "unmeasurable_seed_condition"

/-- `values.fields`, when present, is the joined list of unmeasurable condition fields. -/
structure SchedulerLimitation where
  engineId : String
  code : LimitationCode
  fields : Option String := none
  deriving DecidableEq

def SchedulerLimitation.messageKey (l : SchedulerLimitation) : String :=
  "scheduler.limitation." ++ l.code.text

/-! ### Occupancy -/

/-- The normalised state an engine reports for a torrent. -/
inductive TorrentState where
  | downloading
  | seeding
  | paused
  | stopped
  | queued
  | checking
  | error
  | completed
  | allocating
  | unknown
  deriving DecidableEq

inductive OccupancyClass where
  | downloadActive
  | seedActive
  | downloadQueued
  | seedQueued
  | userPaused
  | schedulerPaused
  | providerPaused
  | checking
  | error
  | parked
  | excluded
  | unknown
  deriving DecidableEq

inductive Confidence where
  | reported
  | inferred
  | unknown
  deriving DecidableEq

inductive ClassificationReason where
  | parkedDeadSwarm
  | engineError
  | verifying
  | pausedByUser
  | pausedByScheduler
  | pausedOutsideScheduler
  | queuedSeed
  | queuedDownload
  | seeding
  | completeAndRunning
  | activeOrQueuedIndistinguishable
  | downloading
  | stateUnknown
  deriving DecidableEq

structure ClassificationInput where
  state : TorrentState
  progress : ℚ
  downloadRate : ℚ
  schedulerPaused : Bool := false
  userPaused : Bool := false
  parked : Bool := false
  deriving DecidableEq

structure Classification where
  occupancy : OccupancyClass
  confidence : Confidence
  reasonCode : ClassificationReason
  deriving DecidableEq

/-- The most authoritative fact wins: parking, then errors and checks, then whoever is
known to have paused the torrent, then what the engine says. -/
def classify (input : ClassificationInput) (caps : TorrentQueueCapabilities) : Classification :=
  let complete : Bool := 1 ≤ input.progress
  if input.parked then ⟨.parked, .reported, .parkedDeadSwarm⟩
  else match input.state with
    | .error => ⟨.error, .reported, .engineError⟩
    | .checking | .allocating => ⟨.checking, .reported, .verifying⟩
    | .paused | .stopped =>
      if input.userPaused then ⟨.userPaused, .reported, .pausedByUser⟩
      else if input.schedulerPaused then ⟨.schedulerPaused, .reported, .pausedByScheduler⟩
      else ⟨.providerPaused, .inferred, .pausedOutsideScheduler⟩
    | .queued =>
      if complete then ⟨.seedQueued, .reported, .queuedSeed⟩
      else ⟨.downloadQueued, .reported, .queuedDownload⟩
    | .seeding => ⟨.seedActive, .reported, .seeding⟩
    | .completed =>
      if complete then ⟨.seedActive, .reported, .seeding⟩ else ⟨.unknown, .unknown, .stateUnknown⟩
    | .downloading =>
      if complete then ⟨.seedActive, .inferred, .completeAndRunning⟩
      else if !canDo caps.reportsQueuedState && input.downloadRate == 0 then
        ⟨.downloadActive, .inferred, .activeOrQueuedIndistinguishable⟩
      else ⟨.downloadActive, .reported, .downloading⟩
    | .unknown => ⟨.unknown, .unknown, .stateUnknown⟩

namespace OccupancyClass

def holdsDownloadSlot (o : OccupancyClass) : Bool := o = .downloadActive

def holdsSeedSlot (o : OccupancyClass) : Bool := o = .seedActive

def holdsTotalActiveSlot (o : OccupancyClass) : Bool :=
  o = .downloadActive || o = .seedActive || o = .checking

def isResumable (o : OccupancyClass) : Bool :=
  o = .schedulerPaused || o = .downloadQueued || o = .seedQueued

/-- The classes the planner settles before any slot is handed out. -/
def isUntouchable : OccupancyClass → Bool
  | .userPaused | .providerPaused | .parked | .excluded | .error | .checking | .unknown => true
  | _ => false

/-- A class open to planning either holds a slot of its own kind or may be resumed. -/
theorem isResumable_eq_not_active {o : OccupancyClass} (h : o.isUntouchable = false) :
    o.isResumable = !o.holdsTotalActiveSlot := by
  cases o <;> first | rfl | exact absurd h nofun

theorem not_holdsDownloadSlot {o : OccupancyClass} (h : o.isUntouchable = true) :
    o.holdsDownloadSlot = false := by
  cases o <;> first | rfl | exact absurd h nofun

theorem not_holdsSeedSlot {o : OccupancyClass} (h : o.isUntouchable = true) :
    o.holdsSeedSlot = false := by
  cases o <;> first | rfl | exact absurd h nofun

end OccupancyClass

theorem classify_schedulerPaused {input : ClassificationInput} {caps : TorrentQueueCapabilities}
    (h : (classify input caps).occupancy = .schedulerPaused) :
    (input.state = .paused ∨ input.state = .stopped) ∧ input.schedulerPaused = true := by
  unfold classify at h
  cases hs : input.state <;> simp only [hs] at h <;> split_ifs at h <;> simp_all

theorem classify_queued {input : ClassificationInput} {caps : TorrentQueueCapabilities}
    (h : (classify input caps).occupancy = .downloadQueued ∨
      (classify input caps).occupancy = .seedQueued) : input.state = .queued := by
  unfold classify at h
  cases hs : input.state <;> simp only [hs] at h <;> split_ifs at h <;> simp_all

/-- The states an engine reports for a torrent that transfers. -/
def TorrentState.transfers : TorrentState → Bool
  | .downloading | .seeding | .completed => true
  | _ => false

theorem classify_active {input : ClassificationInput} {caps : TorrentQueueCapabilities}
    (hc : (classify input caps).occupancy.isUntouchable = false)
    (h : (classify input caps).occupancy.holdsTotalActiveSlot = true) :
    input.state.transfers = true := by
  unfold classify at h hc
  cases hs : input.state <;> simp only [hs] at h hc <;> split_ifs at h hc <;>
    first | rfl | simp_all [OccupancyClass.holdsTotalActiveSlot, OccupancyClass.isUntouchable]

end UltraTorrent.Scheduler.Occupancy
