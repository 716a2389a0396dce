import UltraTorrent.Scheduler.Policy

/-! Creating a scheduling policy and reading the stored ones back. The table is the list
of its rows in creation order, which is the order `loadPolicies` asks for. -/
namespace UltraTorrent.Scheduler.PolicyService

open Library.EcmaScript
open Policy SeedConditions

/-- What a caller sends. A limit may be anything; a `seedPolicy` is a parsed document. -/
structure SeedPolicyInput where
  mode : Option String := none
  targetRatio : Setting ℚ := .absent
  afterTarget : Option String := none
  requireImportCompleted : Bool := false
  requireLibraryCopyVerified : Bool := false
  maxAgeDays : Setting ℚ := .absent
  stopWhen : Option SeedConditionNode := none

structure PolicyInput where
  name : Option String := none
  enabled : Option Bool := none
  scopeType : Option String := none
  scopeId : Option String := none
  maxConcurrentDownloads : Value := .undefined
  maxConcurrentSeeds : Value := .undefined
  maxTotalActive : Value := .undefined
  maxDownloadRateKbps : Value := .undefined
  maxUploadRateKbps : Value := .undefined
  seedPolicy : Setting SeedPolicyInput := .absent

/-- A row of the policy table: every limit column is nullable. -/
structure PolicyRow where
  id : String
  name : String
  enabled : Bool
  scopeType : ScopeType
  scopeId : Option String
  maxConcurrentDownloads : Option ℤ
  maxConcurrentSeeds : Option ℤ
  maxTotalActive : Option ℤ
  maxDownloadRateKbps : Option ℤ
  maxUploadRateKbps : Option ℤ
  reserveDownloadBandwidthPercent : Option ℤ := none
  reserveSeedBandwidthPercent : Option ℤ := none
  seedPolicy : Option SeedingPolicy

def ScopeType.text : ScopeType → String
  | .global => "global"
  | .engine => "engine"
  | .library => "library"
  | .category => "category"
  | .rssRule => "rss_rule"
  | .torrent => "torrent"

def scopeTypes : List ScopeType := [.global, .engine, .library, .category, .rssRule, .torrent]

/-- Only what can be enforced today. -/
def seedModes : List SeedingMode := [.ratio, .manual, .unlimited]

def afterTargets : List PostSeedAction :=
  [.pause, .stop, .leaveActive, .removeTorrentKeepData, .removeTorrentAndStagingData]

def joined (texts : List String) : String := ", ".intercalate texts

/-- A limit must be a positive whole number, explicitly unlimited, or absent. -/
def limit (value : Value) (field : String) : Except String (Setting ℤ) :=
  match value with
  | .undefined => .ok .absent
  | .null => .ok .null
  | .number (.fin q) =>
    if q.isInt && 1 ≤ q then .ok (.value q.num)
    else .error (field ++ " must be a whole number of at least 1, or empty for unlimited.")
  | _ => .error (field ++ " must be a whole number of at least 1, or empty for unlimited.")

def seedMode (input : SeedPolicyInput) : Except String SeedingMode :=
  let mode := input.mode.getD "ratio"
  match seedModes.find? (·.text = mode) with
  | some m => .ok m
  | none => .error ("Seeding mode \"" ++ mode ++ "\" cannot be enforced yet. Available: "
      ++ joined (seedModes.map SeedingMode.text) ++ ".")

def seedAfterTarget (input : SeedPolicyInput) : Except String PostSeedAction :=
  let afterTarget := input.afterTarget.getD "pause"
  match afterTargets.find? (·.text = afterTarget) with
  | some a => .ok a
  | none => .error ("Post-target action \"" ++ afterTarget ++ "\" is not available. Available: "
      ++ joined (afterTargets.map PostSeedAction.text) ++ ".")

/-- Only the fixed shape needs a ratio. -/
def checkRatio (input : SeedPolicyInput) (mode : SeedingMode) : Except String Unit :=
  if mode = .ratio ∧ input.stopWhen.isNone ∧ ¬ input.targetRatio.orNull.any (0 < ·) then
    .error "A ratio target needs a share ratio greater than zero."
  else .ok ()

def checkAge (input : SeedPolicyInput) : Except String Unit :=
  match input.maxAgeDays.orNull with
  | none => .ok ()
  | some age =>
    if ¬ 0 < age then .error "A seeding deadline needs a whole number of days greater than zero."
    else if ¬ age.isInt then .error "A seeding deadline is counted in whole days."
    else .ok ()

def seed : Setting SeedPolicyInput → Except String (Setting SeedingPolicy)
  | .absent => .ok .absent
  | .null => .ok .null
  | .value input => do
    let mode ← seedMode input
    let afterTarget ← seedAfterTarget input
    checkRatio input mode
    checkAge input
    return .value
      { mode := mode
        afterTarget := afterTarget
        targetRatio := input.targetRatio.orNull
        requireImportCompleted := input.requireImportCompleted
        requireLibraryCopyVerified := input.requireLibraryCopyVerified
        maxAgeDays := input.maxAgeDays.orNull
        stopWhen := input.stopWhen }

def validateScope (scopeType : String) (scopeId : Option String) : Except String ScopeType :=
  let named := scopeId.any (· ≠ "")
  match scopeTypes.find? (ScopeType.text · = scopeType) with
  | none => .error ("Unknown scope \"" ++ scopeType ++ "\". Expected one of: "
      ++ joined (scopeTypes.map ScopeType.text) ++ ".")
  | some .global => if named then .error "A global policy cannot name a scope id." else .ok .global
  | some t =>
    if named then .ok t
    else .error ("A " ++ scopeType ++ " policy must name what it applies to.")

def requireName (rt : Runtime) (input : PolicyInput) : Except String String :=
  let name := rt.trim (input.name.getD "")
  if name = "" then .error "A policy needs a name." else .ok name

/-- The row a new policy is stored as: an absent limit and a `null` one are both `NULL`. -/
def create (rt : Runtime) (id : String) (input : PolicyInput) : Except String PolicyRow := do
  let name ← requireName rt input
  let scopeType ← validateScope (input.scopeType.getD "global") input.scopeId
  let scopeId := if scopeType = .global then none else input.scopeId
  let maxConcurrentDownloads ← limit input.maxConcurrentDownloads "maxConcurrentDownloads"
  let maxConcurrentSeeds ← limit input.maxConcurrentSeeds "maxConcurrentSeeds"
  let maxTotalActive ← limit input.maxTotalActive "maxTotalActive"
  let maxDownloadRateKbps ← limit input.maxDownloadRateKbps "maxDownloadRateKbps"
  let maxUploadRateKbps ← limit input.maxUploadRateKbps "maxUploadRateKbps"
  let seedPolicy ← seed input.seedPolicy
  return {
    id := id
    name := name
    enabled := input.enabled.getD true
    scopeType := scopeType
    scopeId := scopeId
    maxConcurrentDownloads := maxConcurrentDownloads.orNull
    maxConcurrentSeeds := maxConcurrentSeeds.orNull
    maxTotalActive := maxTotalActive.orNull
    maxDownloadRateKbps := maxDownloadRateKbps.orNull
    maxUploadRateKbps := maxUploadRateKbps.orNull
    seedPolicy := seedPolicy.orNull }

/-- A stored row as the resolver wants it. A `NULL` limit comes back as explicitly
unlimited, a `NULL` reserve or seed policy as absent. -/
def toPolicy (row : PolicyRow) : TorrentSchedulingPolicy where
  id := row.id
  name := row.name
  enabled := row.enabled
  scope := ⟨row.scopeType, row.scopeId⟩
  maxConcurrentDownloads := .ofNullable row.maxConcurrentDownloads
  maxConcurrentSeeds := .ofNullable row.maxConcurrentSeeds
  maxTotalActive := .ofNullable row.maxTotalActive
  maxDownloadRateKbps := .ofNullable row.maxDownloadRateKbps
  maxUploadRateKbps := .ofNullable row.maxUploadRateKbps
  reserveDownloadBandwidthPercent := .orUndefined row.reserveDownloadBandwidthPercent
  reserveSeedBandwidthPercent := .orUndefined row.reserveSeedBandwidthPercent
  seedPolicy := .orUndefined row.seedPolicy

def loadPolicies (table : List PolicyRow) : List TorrentSchedulingPolicy :=
  (table.filter PolicyRow.enabled).map toPolicy

end UltraTorrent.Scheduler.PolicyService
