import UltraTorrent.Cleanup.PolicyEvaluator

/-! The cleanup policy document, the thing a published version freezes. It is data: a
condition names a catalogue id, an operator and a literal. -/
namespace UltraTorrent.Cleanup.PolicyDocument

open Library.Kleene PolicyEvaluator

def schemaVersion : ℚ := 1

namespace PolicyLimits

def maxConditions : ℕ := 100
def maxDepth : ℕ := 5
def maxGroupChildren : ℕ := 50
def maxDocumentBytes : ℕ := 128 * 1024
def maxCandidatesPerPlan : ℕ := 5000

/-- 2 TiB. -/
def maxAutomaticReclaimBytesPerRun : ℕ := 2 * 1024 ^ 4

end PolicyLimits

inductive PolicyMode where
  | reportOnly
  | approvalRequired
  | autoQuarantine
  | autoTrash
  | other (text : String)
  deriving DecidableEq

inductive PolicyDestination where
  | quarantine
  | trash
  | other (text : String)
  deriving DecidableEq

/-- An absent list restricts nothing, and neither does an empty one. -/
structure PolicyScope where
  libraryIds : List String := []
  libraryKinds : List String := []
  pathPrefixes : List String := []
  deriving DecidableEq

/-- The margins an operator can tune; the mandatory exclusions are not optional and carry no
data. -/
structure PolicyExclusions where
  allowSeeding : Option Bool := none
  addedWithinDays : Option ℚ := none
  ambiguousIdentity : Option Bool := none
  requireMeasuredTechnical : Option Bool := none
  maxPlaybackAggregateAgeDays : Option ℚ := none
  excludeIfProgressAbovePercent : Option ℚ := none

structure PolicyReplacementRequirements where
  required : Bool
  minResolutionClass : Option String := none
  preferredCodecs : List String := []
  minAudioChannels : Option ℚ := none
  requireSubtitleLanguages : List String := []
  requireHdrAtLeastEqual : Option Bool := none
  requireProbeSucceeded : Option Bool := none

structure PolicyAction where
  mode : PolicyMode
  destination : PolicyDestination
  retentionDays : Option ℚ := none
  maxItemsPerRun : Option ℚ := none
  maxReclaimBytesPerRun : Option ℚ := none

structure PolicyStoragePressure where
  enabled : Bool
  triggerBelowFreePercent : Option ℚ := none
  stopAtFreePercent : Option ℚ := none
  maxReclaimBytes : Option ℚ := none
  maxRuntimeSeconds : Option ℚ := none

/-- A document as it is read back from its column: any part may be missing. -/
structure CleanupPolicyDocument where
  schemaVersion : ℚ
  scope : PolicyScope := {}
  conditions : Option PolicyConditionNode
  exclusions : Option PolicyExclusions
  replacement : Option PolicyReplacementRequirements := none
  action : Option PolicyAction
  storagePressure : Option PolicyStoragePressure := none

/-- Unattended modes, held to stricter rules. -/
def PolicyMode.isAutomatic : PolicyMode → Bool
  | .autoQuarantine | .autoTrash => true
  | _ => false

def CleanupPolicyDocument.isAutomatic (doc : CleanupPolicyDocument) : Bool :=
  (doc.action.map (·.mode.isAutomatic)).getD false

def countConditions (conditions : PolicyConditionNode) : ℕ := conditions.leaves.length

mutual

def documentDepth : PolicyConditionNode → ℕ
  | .leaf _ => 1
  | .all cs | .any cs => 1 + deepest cs

def deepest : List PolicyConditionNode → ℕ
  | [] => 0
  | c :: cs => max (documentDepth c) (deepest cs)

end

end UltraTorrent.Cleanup.PolicyDocument
