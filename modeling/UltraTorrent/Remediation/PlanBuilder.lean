import Mathlib.Data.List.Sort
import Mathlib.Tactic.SplitIfs
import UltraTorrent.Library.EcmaScript

/-! What a remediation plan may become, what blocks it, and when it can be approved. -/
namespace UltraTorrent.Remediation.PlanContract

open Library.EcmaScript

inductive PlanStatus where
  | proposed
  | awaitingApproval
  | approved
  | executing
  | waiting
  | verifying
  | succeeded
  | failed
  | blocked
  | cancelled
  | superseded
  deriving DecidableEq

/-- Nothing leaves these. -/
def terminalPlanStatuses : List PlanStatus := [.succeeded, .failed, .cancelled, .superseded]

def PlanStatus.isTerminal (s : PlanStatus) : Bool := terminalPlanStatuses.contains s

def transitions : PlanStatus → List PlanStatus
  | .proposed => [.awaitingApproval, .approved, .blocked, .superseded, .cancelled]
  | .awaitingApproval => [.approved, .blocked, .superseded, .cancelled]
  | .approved => [.executing, .blocked, .superseded, .cancelled]
  | .executing => [.waiting, .verifying, .failed, .blocked, .cancelled]
  | .waiting => [.executing, .verifying, .failed, .blocked, .cancelled, .superseded]
  | .verifying => [.succeeded, .failed, .blocked]
  | .blocked => [.proposed, .superseded, .cancelled]
  | .succeeded | .failed | .cancelled | .superseded => []

def canTransitionPlan (source target : PlanStatus) : Bool :=
  if source = target then false else (transitions source).contains target

/-- A decided plan stays decided. -/
theorem canTransitionPlan_terminal {s t : PlanStatus} (hs : s.isTerminal = true) :
    canTransitionPlan s t = false := by
  cases s <;> first | (cases t <;> rfl) | cases hs

inductive StepStatus where
  | pending
  | running
  | waiting
  | succeeded
  | failed
  | skipped
  | cancelled
  deriving DecidableEq

inductive RiskClass where
  | low
  | moderate
  | destructive
  | irreversible
  deriving DecidableEq

inductive BlockReason where
  | desiredStateUnknown
  | policyConflict
  | identityUncertain
  | qualityNotMeasured
  | capabilityUnavailable
  | verificationStale
  | candidateNotSuperior
  | itemLocked
  | entityMissing
  | seedingStateUnknown
  | pathUnsafe
  | budgetExhausted
  | circuitOpen
  | approvalInvalidated
  | insufficientAuthority
  deriving DecidableEq

/-- The blockers a human approval cannot clear. -/
def approvalProofBlockers : List BlockReason :=
  [.desiredStateUnknown, .identityUncertain, .qualityNotMeasured, .capabilityUnavailable,
    .candidateNotSuperior, .entityMissing, .seedingStateUnknown, .pathUnsafe, .itemLocked]

def survivesApproval (reason : BlockReason) : Bool := approvalProofBlockers.contains reason

/-! ### Expiry -/

namespace PlanExpiry

def defaultHours : ℚ := 12
def minHours : ℤ := 1
def maxHours : ℤ := 168

end PlanExpiry

/-- An undated plan counts as expired. -/
def isPlanExpired (expiresAt : Option Instant) (now : Instant) : Bool :=
  (expiresAt.map fun t => decide (t ≤ now)).getD true

def resolvePlanExpiry (now : Instant) (hours : Option ℚ) : Instant :=
  now + min (max (round (hours.getD PlanExpiry.defaultHours)) PlanExpiry.minHours)
    PlanExpiry.maxHours * 3600000

theorem lt_resolvePlanExpiry (now : Instant) (hours : Option ℚ) : now < resolvePlanExpiry now hours := by
  have hclamped : 1 ≤ min (max (round (hours.getD PlanExpiry.defaultHours)) PlanExpiry.minHours)
      PlanExpiry.maxHours := le_min (le_max_right _ _) (by decide)
  exact lt_add_of_pos_right now (mul_pos (zero_lt_one.trans_le hclamped) (by decide))

/-- A plan has not expired when it is made. -/
theorem isPlanExpired_resolve (now : Instant) (hours : Option ℚ) :
    isPlanExpired (some (resolvePlanExpiry now hours)) now = false :=
  decide_eq_false (not_le.2 (lt_resolvePlanExpiry now hours))

/-! ### Approval -/

inductive ApprovalRefusal where
  | wrongStatus
  | expired
  | missingPermission (permission : String)
  | blocked (reason : BlockReason)
  | unknowable (reason : BlockReason)
  | approvalInvalidated
  | nothingToDo
  deriving DecidableEq

/-- The permission approving a plan requires, by how dangerous it is. -/
def riskApprovalPermission : RiskClass → String
  | .low | .moderate => "media_remediation.approve"
  | .destructive | .irreversible => "library_cleanup.permanent_delete"

structure PlanApprovalInput where
  status : PlanStatus
  riskClass : RiskClass
  blockReason : Option BlockReason
  expiresAt : Option Instant
  now : Instant
  holderPermissions : List String
  superAdmin : Bool
  actionableSteps : ℕ
  inputsDrifted : Bool

/-- Everything that must hold for an approval, in one place; `none` when it does. -/
def checkPlanApproval (input : PlanApprovalInput) : Option ApprovalRefusal :=
  if input.status ≠ .proposed ∧ input.status ≠ .awaitingApproval then some .wrongStatus
  else if isPlanExpired input.expiresAt input.now then some .expired
  else if input.inputsDrifted then some .approvalInvalidated
  else match input.blockReason with
    | some reason => some (if survivesApproval reason then .unknowable reason else .blocked reason)
    | none =>
      if input.actionableSteps = 0 then some .nothingToDo
      else
        let required := riskApprovalPermission input.riskClass
        if ¬ input.superAdmin ∧ ¬ input.holderPermissions.contains required then
          some (.missingPermission required)
        else none

end UltraTorrent.Remediation.PlanContract

/-! From a recommendation to a plan: the fingerprints of what a plan rests on, what can be
carried out at all, and the plan that is made of it. -/
namespace UltraTorrent.Remediation.PlanBuilder

open Library.EcmaScript PlanContract

/-- A recommendation, as far as plans read it. -/
structure Recommendation where
  id : String
  entityType : String
  entityId : String
  findingId : String
  type : String
  status : String
  confidence : String
  capabilityId : Option String
  evidence : Value

/-- The resolved intent of the operator. -/
structure DesiredState where
  quality : Option String
  completeness : Option String
  subtitleLanguages : Option (List String)
  mode : Option String
  applicablePolicies : List String
  /-- The dimensions on which policies of one scope disagree. -/
  conflicts : List String

/-! ### Fingerprints -/

mutual

/-- A deterministic rendering; the fields of an object are sorted and the undefined ones left out. -/
def stringify (rt : Runtime) : Value → String
  | .undefined => "∅"
  | .null => "null"
  | .date ms => rt.toISOString ms
  | .array elements => "[" ++ ",".intercalate (stringifyElements rt elements) ++ "]"
  | .object fields =>
    let entries := (stringifyFields rt fields).insertionSort fun a b => a.1 ≤ b.1
    "\x7b" ++ ",".intercalate (entries.map fun entry => entry.1 ++ "=" ++ entry.2) ++ "\x7d"
  | .bool b => rt.string (.bool b)
  | .number n => rt.string (.number n)
  | .string s => rt.string (.string s)

def stringifyElements (rt : Runtime) : List Value → List String
  | [] => []
  | v :: rest => stringify rt v :: stringifyElements rt rest

def stringifyFields (rt : Runtime) : List (String × Value) → List (String × String)
  | [] => []
  | (_, .undefined) :: rest => stringifyFields rt rest
  | (key, v) :: rest => (key, stringify rt v) :: stringifyFields rt rest

end

/-- The digest, and the host that renders what goes into it. A digest is never an empty text, so
that one that is there counts as true. -/
structure Hashing (H : Type) where
  rt : Runtime
  sha256 : String → H

def sorted (texts : List String) : List String := texts.insertionSort (· ≤ ·)

section Fingerprints

variable {H : Type} (hashing : Hashing H)

def desiredStateFingerprint (entityType entityId : String) (desired : DesiredState) : H :=
  let texts (xs : List String) := Value.array ((sorted xs).map .string)
  let nullable (x : Option String) := (x.map Value.string).getD .null
  let render := stringify hashing.rt
  hashing.sha256 <| "\n".intercalate
    ["entity:" ++ entityType ++ ":" ++ entityId,
      "quality:" ++ render (nullable desired.quality),
      "completeness:" ++ render (nullable desired.completeness),
      "subtitles:" ++ render ((desired.subtitleLanguages.map texts).getD .null),
      "mode:" ++ render (nullable desired.mode),
      "policies:" ++ render (texts desired.applicablePolicies),
      "conflicts:" ++ render (texts desired.conflicts)]

def recommendationFingerprint (r : Recommendation) : H :=
  hashing.sha256 <| "\n".intercalate
    ["recommendation:" ++ r.id,
      "type:" ++ r.type,
      "status:" ++ r.status,
      "confidence:" ++ r.confidence,
      "capability:" ++ stringify hashing.rt ((r.capabilityId.map Value.string).getD .null),
      "evidence:" ++ stringify hashing.rt r.evidence]

end Fingerprints

/-- What a plan is pinned to. -/
structure Pins (H : Type) where
  desiredState : Option H
  recommendation : Option H
  verification : Option H
  deriving DecidableEq

/-- Which pinned inputs moved; a pin that was never taken cannot have. -/
def fingerprintDrift {H : Type} [DecidableEq H] (pinned current : Pins H) : List String :=
  let moved (name : String) (pin now : Option H) := if pin.isSome ∧ pin ≠ now then [name] else []
  moved "desired_state" pinned.desiredState current.desiredState ++
    moved "recommendation" pinned.recommendation current.recommendation ++
    moved "verification" pinned.verification current.verification

/-! ### Capabilities -/

structure RemediationCapability where
  type : String
  entityTypes : List String
  riskClass : RiskClass

def refreshMetadata : RemediationCapability :=
  { type := "REFRESH_METADATA", entityTypes := ["movie", "episode"], riskClass := .low }

/-- The one classification that is supported. -/
def capabilityFor (type : String) : Option RemediationCapability :=
  if type = refreshMetadata.type then some refreshMetadata else none

/-- Which dimensions of the desired state a remediation would act on. -/
def dimensionsTouched (_ : RemediationCapability) : List String := []

/-! ### Plans -/

structure Step where
  ordinal : ℕ
  kind : String
  /-- `inputSnapshot.itemId`. -/
  itemId : Option String
  /-- `expectedPostcondition.metadataProviderPresent`. -/
  metadataProviderPresent : Bool
  status : StepStatus := .pending
  deriving DecidableEq

/-- What the builder cannot derive; `none` is unknown. -/
structure Facts where
  entityExists : Option Bool
  locked : Option Bool
  deriving DecidableEq

structure PlanDraft where
  entityType : String
  entityId : String
  recommendationId : String
  riskClass : RiskClass
  blockReason : Option BlockReason
  steps : List Step
  expiresAt : Instant

/-- The first thing that makes a plan unsafe. -/
def firstBlocker (facts : Facts) (desired : Option DesiredState) (cap : RemediationCapability) :
    Option BlockReason :=
  if facts.entityExists ≠ some true then some .entityMissing
  else if facts.locked ≠ some false then some .itemLocked
  else if ((desired.map (·.conflicts)).getD []).any (dimensionsTouched cap).contains then
    some .policyConflict
  else none

def stepsFor (r : Recommendation) (cap : RemediationCapability) : List Step :=
  if cap.type = refreshMetadata.type then
    [{ ordinal := 0, kind := "refresh_metadata", itemId := some r.entityId,
       metadataProviderPresent := true }]
  else []

/-- A plan for a recommendation, or nothing. A blocked plan carries no steps. -/
def buildPlan (r : Recommendation) (desired : Option DesiredState) (facts : Facts)
    (now : Instant) : Option PlanDraft :=
  if r.status ≠ "active" then none
  else match capabilityFor r.type with
    | none => none
    | some cap =>
      if ¬ cap.entityTypes.contains r.entityType then none
      else
        let blockReason := firstBlocker facts desired cap
        some { entityType := r.entityType
               entityId := r.entityId
               recommendationId := r.id
               riskClass := cap.riskClass
               blockReason
               steps := if blockReason.isSome then [] else stepsFor r cap
               expiresAt := resolvePlanExpiry now none }

theorem buildPlan_eq {r : Recommendation} {desired : Option DesiredState} {facts : Facts}
    {now : Instant} {draft : PlanDraft} (h : buildPlan r desired facts now = some draft) :
    draft.recommendationId = r.id ∧ draft.expiresAt = resolvePlanExpiry now none := by
  unfold buildPlan capabilityFor at h
  split_ifs at h with hactive htype
  dsimp only at h
  split_ifs at h <;> (rw [← Option.some.inj h]; exact ⟨rfl, rfl⟩)

/-- A plan that nothing blocks has a step to run. -/
theorem buildPlan_steps {r : Recommendation} {desired : Option DesiredState} {facts : Facts}
    {now : Instant} {draft : PlanDraft} (h : buildPlan r desired facts now = some draft)
    (hfree : draft.blockReason = none) : ∃ step ∈ draft.steps, step.status = .pending := by
  unfold buildPlan capabilityFor at h
  split_ifs at h with hactive htype
  dsimp only at h
  split_ifs at h with hentity hblocked
  · rw [← Option.some.inj h] at hfree
    rw [show firstBlocker facts desired refreshMetadata = none from hfree] at hblocked
    cases hblocked
  · rw [← Option.some.inj h]
    exact ⟨_, List.mem_singleton_self _, rfl⟩

end UltraTorrent.Remediation.PlanBuilder
