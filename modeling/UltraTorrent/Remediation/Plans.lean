import UltraTorrent.Library.Interleaving
import UltraTorrent.Library.Table
import UltraTorrent.Remediation.PlanBuilder

/-! Remediation plans in the database, and the calls that work on them: the reconciliation of an
entity, the decisions of a person, and the executor. Every call of the database or of another
domain is an action of its own, and any of them may throw. -/
namespace UltraTorrent.Remediation.Plans

open Library Library.EcmaScript PlanContract PlanBuilder

structure PlanRow (H : Type) where
  id : String
  entityType : String
  entityId : String
  recommendationId : Option String
  status : PlanStatus
  riskClass : RiskClass
  blockReason : Option BlockReason
  pins : Pins H
  approvedById : Option String
  approvedFingerprint : Option H
  expiresAt : Option Instant
  steps : List Step

structure Store (H : Type) where
  recommendations : Table Recommendation (·.id)
  /-- The `locked` column of the media items there are. -/
  locked : String → Option Bool
  /-- The `providerName` column of the metadata rows there are. -/
  providers : String → Option (Option String)
  plans : Table (PlanRow H) (·.id)

variable {H : Type}

namespace Store

def planStatus (store : Store H) (planId : String) : Option PlanStatus :=
  (store.plans.find planId).map (·.status)

end Store

/-! ### Writes -/

/-- What the rest of the system may do. -/
inductive Change where
  | recommendation (r : Recommendation)
  | withdraw (recommendationId : String)
  | lock (itemId : String) (locked : Option Bool)
  | provider (itemId : String) (row : Option (Option String))

/-- What a reconciliation has made up its mind to write. -/
inductive Amendment (H : Type) where
  | create (draft : PlanDraft) (desiredState : Option H) (recommendation : H)
  | refresh (planId : String) (draft : PlanDraft) (desiredState : Option H) (recommendation : H)
    (clears : Bool)
  | setBlock (planId : String) (blockReason : Option BlockReason)
  | supersede (planId : String)

inductive Write (H : Type) where
  | nothing
  | world (change : Change)
  | amend (planId : String) (amendment : Amendment H)
  /-- `updateMany` on the id and the status. -/
  | swap (planId : String) (sources : List PlanStatus) (target : PlanStatus)
    (blockReason : Option BlockReason) (approval : Option (String × Option H))
  | step (planId : String) (ordinal : ℕ) (status : StepStatus)

/-- A recommendation is settled again; it stays with its entity. -/
def settle (r old : Recommendation) : Recommendation :=
  { r with id := old.id, entityType := old.entityType, entityId := old.entityId }

/-- A plan outlives its recommendation. -/
def detached (recommendationId : String) (p : PlanRow H) : PlanRow H :=
  { p with recommendationId :=
      if p.recommendationId = some recommendationId then none else p.recommendationId }

def Store.change (store : Store H) : Change → Store H
  | .recommendation r =>
    { store with recommendations := match store.recommendations.find r.id with
        | some _ => store.recommendations.updateAt r.id (settle r)
        | none => store.recommendations.addMissing r }
  | .withdraw id =>
    { store with
      recommendations := store.recommendations.erase id
      plans := store.plans.update (detached id) }
  | .lock itemId locked =>
    { store with locked := fun id => if id = itemId then locked else store.locked id }
  | .provider itemId row =>
    { store with providers := fun id => if id = itemId then row else store.providers id }

def newRow (planId : String) (draft : PlanDraft) (desiredState : Option H) (recommendation : H) :
    PlanRow H :=
  { id := planId
    entityType := draft.entityType
    entityId := draft.entityId
    recommendationId := some draft.recommendationId
    status := .proposed
    riskClass := draft.riskClass
    blockReason := draft.blockReason
    pins := { desiredState, recommendation := some recommendation, verification := none }
    approvedById := none
    approvedFingerprint := none
    expiresAt := some draft.expiresAt
    steps := draft.steps }

def refreshed (draft : PlanDraft) (desiredState : Option H) (recommendation : H) (clears : Bool)
    (p : PlanRow H) : PlanRow H :=
  { p with
    pins := { p.pins with desiredState, recommendation := some recommendation }
    blockReason := draft.blockReason
    riskClass := draft.riskClass
    approvedById := if clears then none else p.approvedById
    approvedFingerprint := if clears then none else p.approvedFingerprint }

def swapped (sources : List PlanStatus) (target : PlanStatus) (blockReason : Option BlockReason)
    (approval : Option (String × Option H)) (p : PlanRow H) : PlanRow H :=
  if sources.contains p.status then
    { p with
      status := target
      blockReason := blockReason.or p.blockReason
      approvedById := (approval.map fun a => some a.1).getD p.approvedById
      approvedFingerprint := (approval.map (·.2)).getD p.approvedFingerprint }
  else p

def stepped (ordinal : ℕ) (status : StepStatus) (p : PlanRow H) : PlanRow H :=
  { p with steps := p.steps.map fun s => if s.ordinal = ordinal then { s with status } else s }

theorem id_swapped (sources : List PlanStatus) (target : PlanStatus) (blockReason : Option BlockReason)
    (approval : Option (String × Option H)) (p : PlanRow H) :
    (swapped sources target blockReason approval p).id = p.id := by
  unfold swapped
  split_ifs <;> rfl

/-- `update` throws when there is no such row. -/
def Store.updatePlan (store : Store H) (planId : String) (f : PlanRow H → PlanRow H)
    (hf : ∀ p, (f p).id = p.id := by intro _; rfl) : Option (Store H) :=
  (store.plans.find planId).map fun _ => { store with plans := store.plans.updateAt planId f hf }

/-- The partial unique index: a recommendation has one live plan. -/
def Store.hasLive (store : Store H) (recommendationId : String) : Bool :=
  store.plans.rows.any fun p => p.recommendationId = some recommendationId ∧ ¬ p.status.isTerminal

/-- `none` where the database refuses. -/
def Store.apply (store : Store H) : Write H → Option (Store H)
  | .nothing => some store
  | .world change => some (store.change change)
  | .amend planId (.create draft desiredState recommendation) =>
    if store.hasLive draft.recommendationId then none
    else (store.plans.insert [newRow planId draft desiredState recommendation]).map fun plans =>
      { store with plans }
  | .amend _ (.refresh planId draft desiredState recommendation clears) =>
    store.updatePlan planId (refreshed draft desiredState recommendation clears)
  | .amend _ (.setBlock planId blockReason) =>
    store.updatePlan planId fun p => { p with blockReason }
  | .amend _ (.supersede planId) =>
    store.updatePlan planId fun p => { p with status := .superseded }
  | .swap planId sources target blockReason approval => some { store with
      plans := store.plans.updateAt planId (swapped sources target blockReason approval)
        (id_swapped sources target blockReason approval) }
  | .step planId ordinal status => store.updatePlan planId (stepped ordinal status)

/-! ### Reconciling an entity -/

/-- The statuses the executor owns. -/
def inFlight : List PlanStatus := [.executing, .waiting, .verifying]

structure Task where
  entityType : String
  entityId : String
  now : Instant
  desired : Option DesiredState

def byRecommendation (plans : List (PlanRow H)) (recommendationId : String) : Option (PlanRow H) :=
  mapGet (plans.map fun p => (p.recommendationId.getD "", p)) recommendationId

section Reconcile

variable [DecidableEq H] (hashing : Hashing H) (task : Task)

def desiredFingerprint : Option H :=
  task.desired.map (desiredStateFingerprint hashing task.entityType task.entityId)

/-- What is written for one recommendation. -/
def amend (plans : List (PlanRow H)) (facts : Facts) (r : Recommendation) : List (Amendment H) :=
  match buildPlan r task.desired facts task.now with
  | none => []
  | some draft =>
    let desiredState := desiredFingerprint hashing task
    let recommendation := recommendationFingerprint hashing r
    match byRecommendation plans r.id with
    | none => [.create draft desiredState recommendation]
    | some existing =>
      if inFlight.contains existing.status then []
      else if fingerprintDrift existing.pins
          { desiredState, recommendation := some recommendation, verification := none } ≠ [] then
        [.refresh existing.id draft desiredState recommendation existing.approvedFingerprint.isSome]
      else if existing.blockReason ≠ draft.blockReason then [.setBlock existing.id draft.blockReason]
      else []

def justified (facts : Facts) (recommendations : List Recommendation) : List String :=
  (recommendations.filter fun r => (buildPlan r task.desired facts task.now).isSome).map (·.id)

def supersessions (plans : List (PlanRow H)) (stillJustified : List String) : List (Amendment H) :=
  (plans.filter fun p => ¬ stillJustified.contains (p.recommendationId.getD "") ∧
    ¬ inFlight.contains p.status ∧ canTransitionPlan p.status .superseded).map (.supersede ·.id)

def amendments (recommendations : List Recommendation) (plans : List (PlanRow H)) (facts : Facts) :
    List (Amendment H) :=
  recommendations.flatMap (amend hashing task plans facts) ++
    supersessions plans (justified task facts recommendations)

end Reconcile

def addressable (entityType : String) : Bool := entityType = "movie" ∨ entityType = "episode"

/-- The facts of an entity; a failed lookup finds no item. -/
def entityFacts (store : Store H) (task : Task) (fails : Bool) : Facts :=
  if addressable task.entityType then
    let item := if fails then none else store.locked task.entityId
    { entityExists := some item.isSome, locked := item }
  else { entityExists := none, locked := none }

def findRecommendations (store : Store H) (task : Task) : List Recommendation :=
  store.recommendations.rows.filter fun r =>
    r.entityType = task.entityType ∧ r.entityId = task.entityId

def findPlans (store : Store H) (task : Task) : List (PlanRow H) :=
  store.plans.rows.filter fun p =>
    p.entityType = task.entityType ∧ p.entityId = task.entityId ∧ ¬ p.status.isTerminal

/-! ### Calls -/

structure User where
  id : String
  permissions : List String
  roles : List String

inductive Call (H : Type) where
  | done
  /-- The rest of the system, and what it does next. -/
  | world (changes : List Change)
  | reconcile (task : Task)
  | reading (task : Task) (recommendations : Option (List Recommendation))
    (plans : Option (List (PlanRow H))) (facts : Option Facts)
  | writing (amendments : List (Amendment H))
  | approve (planId : String) (user : User)
  | counting (plan : PlanRow H) (user : User)
  | approving (plan : PlanRow H) (user : User)
  | cancel (planId : String)
  | cancelling (plan : PlanRow H)
  | execute (planId : String)
  | loading (planId : String)
  | checkingItem (plan : PlanRow H)
  | checkingRecommendation (plan : PlanRow H) (recommendationId : String)
  | running (plan : PlanRow H) (steps : List Step)
  | invoking (plan : PlanRow H) (step : Step) (rest : List Step)
  | auditing (plan : PlanRow H) (step : Step) (rest : List Step)
  | completing (plan : PlanRow H) (step : Step) (rest : List Step)
  | stepFailing (plan : PlanRow H) (step : Step)
  | blocking (planId : String) (reason : BlockReason)
  | failing (planId : String)
  | verify (planId : String)
  | proving (plan : PlanRow H) (steps : List Step)
  | refuting (planId : String)

inductive Read where
  | recommendations
  | plans
  | facts
  deriving DecidableEq

/-- What an action is told from outside. -/
structure Answer where
  /-- The process dies. -/
  dies : Bool := false
  /-- The call that is waited for throws. -/
  fails : Bool := false
  now : Instant := 0
  read : Read := .recommendations
  planId : String := ""

/-- `approve` on a plan that has been loaded. -/
def verdict (store : Store H) (plan : PlanRow H) (user : User) (now : Instant) :
    Option ApprovalRefusal :=
  checkPlanApproval
    { status := plan.status
      riskClass := plan.riskClass
      blockReason := plan.blockReason
      expiresAt := plan.expiresAt
      now
      holderPermissions := user.permissions
      superAdmin := user.roles.contains "SUPER_ADMIN"
      actionableSteps := (((store.plans.find plan.id).map (·.steps)).getD []).countP fun s =>
        s.status = .pending ∨ s.status = .failed
      inputsDrifted := false }

/-- The compare-and-swap of a decision. -/
def transition (plan : PlanRow H) (target : PlanStatus) (approval : Option (String × Option H)) :
    Write H :=
  if canTransitionPlan plan.status target then .swap plan.id [plan.status] target none approval
  else .nothing

/-- The steps a run still has to take. -/
def todo (steps : List Step) : List Step :=
  steps.filter fun s => s.status ≠ .succeeded ∧ s.status ≠ .skipped

/-- `recheck` up to the recommendation. -/
def recheckItem (store : Store H) (plan : PlanRow H) (answer : Answer) : Call H :=
  if isPlanExpired plan.expiresAt answer.now then .blocking plan.id .approvalInvalidated
  else if ¬ addressable plan.entityType then .blocking plan.id .capabilityUnavailable
  else match if answer.fails then none else store.locked plan.entityId with
    | none => .blocking plan.id .entityMissing
    | some true => .blocking plan.id .itemLocked
    | some false => match plan.recommendationId with
      | none => .blocking plan.id .capabilityUnavailable
      | some recommendationId => .checkingRecommendation plan recommendationId

def recheckRecommendation [DecidableEq H] (hashing : Hashing H) (store : Store H) (plan : PlanRow H)
    (recommendationId : String) : Call H :=
  match store.recommendations.find recommendationId with
  | none => .blocking plan.id .approvalInvalidated
  | some r =>
    if r.status ≠ "active" then .blocking plan.id .approvalInvalidated
    else if plan.pins.recommendation.isSome ∧
        plan.pins.recommendation ≠ some (recommendationFingerprint hashing r) then
      .blocking plan.id .approvalInvalidated
    else .running plan (todo plan.steps)

def failPlan (planId : String) : Write H :=
  .swap planId [.executing, .verifying] .failed none none

/-- The next action of a call: what it writes, and where the call is then. -/
def next [DecidableEq H] (hashing : Hashing H) (store : Store H) (answer : Answer) :
    Call H → Option (Write H × Call H)
  | .done => none
  | .world [] => none
  | .world (change :: rest) => some (.world change, .world rest)
  | .reconcile task => some (.nothing, .reading task none none none)
  | .reading task (some recommendations) (some plans) (some facts) =>
    some (.nothing, .writing (amendments hashing task recommendations plans facts))
  -- The three reads are under way together, and end in any order.
  | .reading task recommendations plans facts =>
    match answer.read with
    | .recommendations =>
      if recommendations.isSome then none
      else if answer.fails then some (.nothing, .done)
      else some (.nothing, .reading task (some (findRecommendations store task)) plans facts)
    | .plans =>
      if plans.isSome then none
      else if answer.fails then some (.nothing, .done)
      else some (.nothing, .reading task recommendations (some (findPlans store task)) facts)
    | .facts =>
      if facts.isSome then none
      else some (.nothing, .reading task recommendations plans (some (entityFacts store task answer.fails)))
  | .writing [] => some (.nothing, .done)
  | .writing (amendment :: rest) =>
    if answer.fails then some (.nothing, .done)
    else some (.amend answer.planId amendment, .writing rest)
  | .approve planId user =>
    match if answer.fails then none else store.plans.find planId with
    | none => some (.nothing, .done)
    | some plan => some (.nothing, .counting plan user)
  | .counting plan user =>
    if answer.fails ∨ (verdict store plan user answer.now).isSome then some (.nothing, .done)
    else some (.nothing, .approving plan user)
  | .approving plan user =>
    if answer.fails then some (.nothing, .done)
    else some (transition plan .approved (some (user.id, plan.pins.recommendation)), .done)
  | .cancel planId =>
    match if answer.fails then none else store.plans.find planId with
    | none => some (.nothing, .done)
    | some plan => some (.nothing, .cancelling plan)
  | .cancelling plan =>
    if answer.fails then some (.nothing, .done) else some (transition plan .cancelled none, .done)
  | .execute planId =>
    if answer.fails then some (.nothing, .done)
    else some (.swap planId [.approved] .executing none none,
      if store.planStatus planId = some .approved then .loading planId else .done)
  | .loading planId =>
    match if answer.fails then none else store.plans.find planId with
    | none => some (.nothing, .done)
    | some plan => some (.nothing, .checkingItem plan)
  | .checkingItem plan => some (.nothing, recheckItem store plan answer)
  | .checkingRecommendation plan recommendationId =>
    if answer.fails then some (.nothing, .done)
    else some (.nothing, recheckRecommendation hashing store plan recommendationId)
  | .running plan [] =>
    if answer.fails then some (.nothing, .done)
    else some (.swap plan.id [.executing] .verifying none none, .done)
  | .running plan (step :: rest) =>
    if answer.fails then some (.nothing, .done)
    else some (.step plan.id step.ordinal .running, .invoking plan step rest)
  | .invoking plan step rest =>
    if step.kind ≠ "refresh_metadata" ∨ step.itemId.isNone then some (.nothing, .failing plan.id)
    else if answer.fails then some (.nothing, .stepFailing plan step)
    else some (.nothing, .auditing plan step rest)
  | .auditing plan step rest =>
    some (.nothing, if answer.fails then .stepFailing plan step else .completing plan step rest)
  | .completing plan step rest =>
    if answer.fails then some (.nothing, .stepFailing plan step)
    else some (.step plan.id step.ordinal .succeeded, .running plan rest)
  | .stepFailing plan step =>
    if answer.fails then some (.nothing, .done)
    else some (.step plan.id step.ordinal .failed, .failing plan.id)
  | .blocking planId reason =>
    if answer.fails then some (.nothing, .done)
    else some (.swap planId [.executing, .verifying] .blocked (some reason) none, .done)
  | .failing planId =>
    if answer.fails then some (.nothing, .done) else some (failPlan planId, .done)
  | .verify planId =>
    match if answer.fails then none else store.plans.find planId with
    | none => some (.nothing, .done)
    | some plan =>
      some (.nothing, if plan.status = .verifying then
        .proving plan (plan.steps.filter (·.metadataProviderPresent)) else .done)
  | .proving plan [] =>
    if answer.fails then some (.nothing, .done)
    else some (.swap plan.id [.verifying] .succeeded none none, .done)
  | .proving plan (step :: rest) =>
    -- What cannot be told leaves the plan where it is.
    match step.itemId, answer.fails with
    | none, _ | some _, true => some (.nothing, .done)
    | some itemId, false =>
      match (store.providers itemId).join with
      | none | some "" => some (.nothing, .refuting plan.id)
      | some _ => some (.nothing, .proving plan rest)
  | .refuting planId =>
    if answer.fails then some (.nothing, .done) else some (failPlan planId, .done)

/-- A write the database refuses throws. -/
def act [DecidableEq H] (hashing : Hashing H) (store : Store H) (call : Call H) (answer : Answer) :
    Option (Store H × Call H) :=
  if answer.dies then some (store, .done)
  else (next hashing store answer call).map fun (write, call') =>
    ((store.apply write).map fun store' => (store', call')).getD (store, .done)

end UltraTorrent.Remediation.Plans
