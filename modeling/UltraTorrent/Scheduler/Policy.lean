import UltraTorrent.Scheduler.SeedConditions

/-! Scheduling policies, their resolution field by field along the scope precedence,
and the two questions asked of a seeding policy. A limit that is left out inherits, a
limit of `null` is explicitly unlimited, and a number is a cap. -/
namespace UltraTorrent.Scheduler.Policy

open Library.EcmaScript Library.Kleene
open SeedConditions

inductive ScopeType where
  | global
  | engine
  | library
  | category
  | rssRule
  | torrent
  deriving DecidableEq

structure SchedulingPolicyScope where
  type : ScopeType
  id : Option String
  deriving DecidableEq

/-- Most specific first. -/
def scopePrecedence : List ScopeType := [.torrent, .rssRule, .category, .library, .engine, .global]

inductive SeedingMode where
  | ratio
  | time
  | ratioOrTime
  | ratioAndTime
  | manual
  | unlimited
  deriving DecidableEq

def SeedingMode.text : SeedingMode → String
  | .ratio => "ratio"
  | .time => "time"
  | .ratioOrTime => "ratio_or_time"
  | .ratioAndTime => "ratio_and_time"
  | .manual => "manual"
  | .unlimited => "unlimited"

inductive PostSeedAction where
  | pause
  | stop
  | removeTorrentKeepData
  | removeTorrentAndStagingData
  | leaveActive
  deriving DecidableEq

def PostSeedAction.text : PostSeedAction → String
  | .pause => "pause"
  | .stop => "stop"
  | .removeTorrentKeepData => "remove_torrent_keep_data"
  | .removeTorrentAndStagingData => "remove_torrent_and_staging_data"
  | .leaveActive => "leave_active"

structure SeedingPolicy where
  mode : SeedingMode
  targetRatio : Option ℚ := none
  targetSeedMinutes : Option ℚ := none
  minimumSeedMinutes : Option ℚ := none
  minimumRatio : Option ℚ := none
  afterTarget : PostSeedAction
  requireImportCompleted : Bool := false
  requireLibraryCopyVerified : Bool := false
  maxAgeDays : Option ℚ := none
  stopWhen : Option SeedConditionNode := none

structure TorrentSchedulingPolicy where
  id : String
  name : String
  enabled : Bool
  scope : SchedulingPolicyScope
  maxConcurrentDownloads : Setting ℤ := .absent
  maxConcurrentSeeds : Setting ℤ := .absent
  maxTotalActive : Setting ℤ := .absent
  maxDownloadRateKbps : Setting ℤ := .absent
  maxUploadRateKbps : Setting ℤ := .absent
  reserveDownloadBandwidthPercent : Setting ℤ := .absent
  reserveSeedBandwidthPercent : Setting ℤ := .absent
  seedPolicy : Setting SeedingPolicy := .absent
  activeScheduleId : Setting String := .absent

/-- The id of the policy that supplied each field. -/
structure PolicySources where
  maxConcurrentDownloads : Option String := none
  maxConcurrentSeeds : Option String := none
  maxTotalActive : Option String := none
  maxDownloadRateKbps : Option String := none
  maxUploadRateKbps : Option String := none
  reserveDownloadBandwidthPercent : Option String := none
  reserveSeedBandwidthPercent : Option String := none
  seedPolicy : Option String := none
  activeScheduleId : Option String := none
  deriving DecidableEq

/-- In every limit `none` is unlimited. -/
structure EffectivePolicy where
  maxConcurrentDownloads : Option ℤ := none
  maxConcurrentSeeds : Option ℤ := none
  maxTotalActive : Option ℤ := none
  maxDownloadRateKbps : Option ℤ := none
  maxUploadRateKbps : Option ℤ := none
  reserveDownloadBandwidthPercent : Option ℤ := none
  reserveSeedBandwidthPercent : Option ℤ := none
  seedPolicy : Option SeedingPolicy := none
  activeScheduleId : Option String := none
  sources : PolicySources := {}

/-- One download may run at a time. -/
def oneDownload : EffectivePolicy where
  maxConcurrentDownloads := some 1

/-- The limits that a policy sets, and a window of a schedule may override. -/
inductive LimitField where
  | maxConcurrentDownloads
  | maxConcurrentSeeds
  | maxTotalActive
  | maxDownloadRateKbps
  | maxUploadRateKbps
  deriving DecidableEq

namespace LimitField

def ofPolicy : LimitField → TorrentSchedulingPolicy → Setting ℤ
  | .maxConcurrentDownloads => TorrentSchedulingPolicy.maxConcurrentDownloads
  | .maxConcurrentSeeds => TorrentSchedulingPolicy.maxConcurrentSeeds
  | .maxTotalActive => TorrentSchedulingPolicy.maxTotalActive
  | .maxDownloadRateKbps => TorrentSchedulingPolicy.maxDownloadRateKbps
  | .maxUploadRateKbps => TorrentSchedulingPolicy.maxUploadRateKbps

def limit : LimitField → EffectivePolicy → Option ℤ
  | .maxConcurrentDownloads => EffectivePolicy.maxConcurrentDownloads
  | .maxConcurrentSeeds => EffectivePolicy.maxConcurrentSeeds
  | .maxTotalActive => EffectivePolicy.maxTotalActive
  | .maxDownloadRateKbps => EffectivePolicy.maxDownloadRateKbps
  | .maxUploadRateKbps => EffectivePolicy.maxUploadRateKbps

def sourceOf : LimitField → PolicySources → Option String
  | .maxConcurrentDownloads => PolicySources.maxConcurrentDownloads
  | .maxConcurrentSeeds => PolicySources.maxConcurrentSeeds
  | .maxTotalActive => PolicySources.maxTotalActive
  | .maxDownloadRateKbps => PolicySources.maxDownloadRateKbps
  | .maxUploadRateKbps => PolicySources.maxUploadRateKbps

end LimitField

structure PolicyMatchContext where
  torrentHash : String
  engineId : String
  libraryId : Option String := none
  categoryId : Option String := none
  rssRuleId : Option String := none
  deriving DecidableEq

/-- `!!id && scope.id === id`: the empty id matches nothing. -/
def namesPresent (scopeId id : Option String) : Bool :=
  id.isSome && id ≠ some "" && scopeId = id

def matchesScope (rt : Runtime) (scope : SchedulingPolicyScope) (ctx : PolicyMatchContext) : Bool :=
  match scope.type with
  | .global => true
  | .engine => scope.id = some ctx.engineId
  | .library => namesPresent scope.id ctx.libraryId
  | .category => namesPresent scope.id ctx.categoryId
  | .rssRule => namesPresent scope.id ctx.rssRuleId
  | .torrent => scope.id.map rt.toLowerCase = some (rt.toLowerCase ctx.torrentHash)

/-- The policy that decides one field: the first applicable one, along the scope
precedence, that mentions it. -/
def winner {α : Type*} (applicable : List TorrentSchedulingPolicy)
    (field : TorrentSchedulingPolicy → Setting α) : Option TorrentSchedulingPolicy :=
  scopePrecedence.findSome? fun scopeType =>
    applicable.find? fun p => p.scope.type = scopeType && (field p).isSupplied

def applicablePolicies (rt : Runtime) (policies : List TorrentSchedulingPolicy)
    (ctx : PolicyMatchContext) : List TorrentSchedulingPolicy :=
  policies.filter fun p => p.enabled && matchesScope rt p.scope ctx

def resolveEffectivePolicy (rt : Runtime) (policies : List TorrentSchedulingPolicy)
    (ctx : PolicyMatchContext) : EffectivePolicy :=
  let applicable := applicablePolicies rt policies ctx
  let value {α : Type} (field : TorrentSchedulingPolicy → Setting α) : Option α :=
    (winner applicable field).bind fun p => (field p).orNull
  let source {α : Type} (field : TorrentSchedulingPolicy → Setting α) : Option String :=
    (winner applicable field).map TorrentSchedulingPolicy.id
  { maxConcurrentDownloads := value (·.maxConcurrentDownloads)
    maxConcurrentSeeds := value (·.maxConcurrentSeeds)
    maxTotalActive := value (·.maxTotalActive)
    maxDownloadRateKbps := value (·.maxDownloadRateKbps)
    maxUploadRateKbps := value (·.maxUploadRateKbps)
    reserveDownloadBandwidthPercent := value (·.reserveDownloadBandwidthPercent)
    reserveSeedBandwidthPercent := value (·.reserveSeedBandwidthPercent)
    seedPolicy := value (·.seedPolicy)
    activeScheduleId := value (·.activeScheduleId)
    sources :=
      { maxConcurrentDownloads := source (·.maxConcurrentDownloads)
        maxConcurrentSeeds := source (·.maxConcurrentSeeds)
        maxTotalActive := source (·.maxTotalActive)
        maxDownloadRateKbps := source (·.maxDownloadRateKbps)
        maxUploadRateKbps := source (·.maxUploadRateKbps)
        reserveDownloadBandwidthPercent := source (·.reserveDownloadBandwidthPercent)
        reserveSeedBandwidthPercent := source (·.reserveSeedBandwidthPercent)
        seedPolicy := source (·.seedPolicy)
        activeScheduleId := source (·.activeScheduleId) } }

/-! ### Seeding targets -/

abbrev SeedTargetVerdict := Verdict

/-- A floor not known to be reached settles the target before any mode is asked. -/
def belowFloor (floor fact : Option ℚ) : Option SeedTargetVerdict :=
  match floor, fact with
  | none, _ => none
  | some _, none => some .unknown
  | some floor, some fact => if fact < floor then some .no else none

def reaches (target fact : Option ℚ) : SeedTargetVerdict :=
  match target, fact with
  | some target, some fact => .ofBool (target ≤ fact)
  | _, _ => .unknown

def evaluateMode (policy : SeedingPolicy) (facts : SeedFacts) : SeedTargetVerdict :=
  let ratioMet := reaches policy.targetRatio facts.ratio
  let timeMet := reaches policy.targetSeedMinutes facts.seedMinutes
  match policy.mode with
  | .unlimited | .manual => .no
  | .ratio => ratioMet
  | .time => timeMet
  | .ratioOrTime => .any [ratioMet, timeMet]
  | .ratioAndTime => .all [ratioMet, timeMet]

/-- A condition list, when the policy has one, is the target; the floors and the fixed
fields are then not consulted. -/
def evaluateSeedTarget (rt : Runtime) (policy : SeedingPolicy) (facts : SeedFacts) :
    SeedTargetVerdict :=
  match policy.stopWhen with
  | some node => evaluateSeedConditions rt facts node
  | none =>
    ((belowFloor policy.minimumRatio facts.ratio).or
      (belowFloor policy.minimumSeedMinutes facts.seedMinutes)).getD (evaluateMode policy facts)

def dayMs : ℚ := 24 * 60 * 60 * 1000

/-- The clock runs from completion; a completion in the future expires nothing. -/
def evaluateSeedAgeDeadline (policy : SeedingPolicy) (completedAt : Option Instant) (now : Instant) :
    SeedTargetVerdict :=
  match policy.maxAgeDays with
  | none => .no
  | some days =>
    if ¬ 0 < days then .no
    else match completedAt with
      | none => .unknown
      | some at_ =>
        let ageMs := now - at_
        if ageMs < 0 then .no else .ofBool (days * dayMs ≤ ageMs)

end UltraTorrent.Scheduler.Policy
