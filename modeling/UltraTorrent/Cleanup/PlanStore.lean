import UltraTorrent.Cleanup.PolicyDocument
import UltraTorrent.Cleanup.PlanExecutor
import UltraTorrent.Library.Table

/-! What a plan may become, who may decide it, and what a decision may change. -/
namespace UltraTorrent.Cleanup.PlanContract

open Library.EcmaScript PolicyDocument

/-- `permanentDelete` is the retention purge, never a policy's destination. -/
inductive PlanAction where
  | quarantine
  | trash
  | permanentDelete
  deriving DecidableEq

def PlanAction.text : PlanAction → String
  | .quarantine => "quarantine"
  | .trash => "trash"
  | .permanentDelete => "permanent_delete"

inductive PlanStatus where
  | draft
  | pendingApproval
  | approved
  | rejected
  | executing
  | completed
  | partly
  | failed
  | expired
  | cancelled
  deriving DecidableEq

def PlanStatus.text : PlanStatus → String
  | .draft => "draft"
  | .pendingApproval => "pending_approval"
  | .approved => "approved"
  | .rejected => "rejected"
  | .executing => "executing"
  | .completed => "completed"
  | .partly => "partial"
  | .failed => "failed"
  | .expired => "expired"
  | .cancelled => "cancelled"

def actionSeverity : PlanAction → ℕ
  | .quarantine => 0
  | .trash => 1
  | .permanentDelete => 2

/-- What an approver must hold on top of the right to approve. -/
def actionPermission : PlanAction → String
  | .quarantine | .trash => "library_cleanup.trash"
  | .permanentDelete => "library_cleanup.permanent_delete"

def terminalPlanStatuses : List PlanStatus :=
  [.completed, .partly, .failed, .rejected, .expired, .cancelled]

def PlanStatus.isTerminal (s : PlanStatus) : Bool := terminalPlanStatuses.contains s

def transitions : PlanStatus → List PlanStatus
  | .draft => [.pendingApproval, .cancelled]
  | .pendingApproval => [.approved, .rejected, .expired, .cancelled]
  | .approved => [.executing, .expired, .cancelled]
  | .executing => [.completed, .partly, .failed]
  | .completed | .partly | .failed | .rejected | .expired | .cancelled => []

def canTransition (source target : PlanStatus) : Bool := (transitions source).contains target

/-- A report-only policy exists to be read. -/
def isPlannable : PolicyMode → Bool
  | .reportOnly => false
  | _ => true

namespace PlanExpiry

def defaultHours : ℚ := 72
def minHours : ℤ := 1
def maxHours : ℤ := 720

end PlanExpiry

def resolveExpiry (now : Instant) (hours : Option ℚ) : Instant :=
  now + min (max (round (hours.getD PlanExpiry.defaultHours)) PlanExpiry.minHours)
    PlanExpiry.maxHours * 3600000

/-- A plan without a date is one nobody can vouch for. -/
def isExpired (expiresAt : Option Instant) (now : Instant) : Bool :=
  (expiresAt.map fun t => decide (t ≤ now)).getD true

inductive Refusal where
  | wrongStatus
  | expired
  | missingPermission (permission : String)
  | nothingToDo
  deriving DecidableEq

/-- Everything that must hold for an approval, in one place; `none` when it does. -/
def checkApproval (status : PlanStatus) (action : PlanAction) (expiresAt : Option Instant)
    (now : Instant) (holderPermissions : List String) (superAdmin : Bool) (actionableCount : ℕ) :
    Option Refusal :=
  if status ≠ .pendingApproval then some .wrongStatus
  else if isExpired expiresAt now then some .expired
  else if actionableCount = 0 then some .nothingToDo
  else if !superAdmin && !holderPermissions.contains (actionPermission action) then
    some (.missingPermission (actionPermission action))
  else none

/-- The request may soften the policy's destination, never escalate it. -/
def resolveDestination (policyDestination : PlanAction) (requested : Option PlanAction) :
    Option PlanAction :=
  match requested with
  | none => some policyDestination
  | some req => if actionSeverity req ≤ actionSeverity policyDestination then some req else none

/-! ### The state machine -/

/-- Nothing leaves a terminal status. -/
theorem not_terminal_of_canTransition {s t : PlanStatus} (h : canTransition s t = true) :
    s.isTerminal = false := by
  cases s <;> first | rfl | exact absurd h (by cases t <;> decide)

theorem approved_of_canTransition {s : PlanStatus} (h : canTransition s .executing = true) :
    s = .approved := by
  cases s <;> first | rfl | cases h

/-- What a run can leave a plan in. -/
def runStatuses : List PlanStatus := [.executing, .completed, .partly, .failed]

/-- No decision comes after a run. -/
theorem mem_runStatuses_of_canTransition {s t : PlanStatus} (hs : s ∈ runStatuses)
    (h : canTransition s t = true) : t ∈ runStatuses := by
  cases s <;> first | exact absurd hs (by decide) | (cases t <;> first | decide | cases h)

end UltraTorrent.Cleanup.PlanContract

/-! The tables a plan lives in, the writes made to them, and a journal of what was done in
which order. -/
namespace UltraTorrent.Cleanup.PlanStore

open Library Library.EcmaScript PolicyDocument PlanContract

inductive ActionStatus where
  | pending
  | running
  | completed
  | failed
  | skipped
  deriving DecidableEq

inductive CandidateStatus where
  | candidate
  | excluded (status : String)
  | pendingApproval
  | approved
  | rejected
  | expired
  | cancelled
  | quarantined
  | trashed
  deriving DecidableEq

def CandidateStatus.text : CandidateStatus → String
  | .candidate => "candidate"
  | .excluded status => status
  | .pendingApproval => "pending_approval"
  | .approved => "approved"
  | .rejected => "rejected"
  | .expired => "expired"
  | .cancelled => "cancelled"
  | .quarantined => "quarantined"
  | .trashed => "trashed"

/-- Candidate status mirrors the plan decision. -/
def candidateStatusFor : PlanStatus → Option CandidateStatus
  | .pendingApproval => some .pendingApproval
  | .approved => some .approved
  | .rejected => some .rejected
  | .cancelled => some .cancelled
  | .expired => some .expired
  | .draft | .executing | .completed | .partly | .failed => none

structure RunRow where
  id : String
  policyVersionId : String
  simulate : Bool
  status : String

structure PlanRow where
  id : String
  runId : String
  policyVersionId : String
  status : PlanStatus
  action : PlanAction
  retentionDays : Option ℚ
  candidateCount : ℕ
  estimatedReclaimBytes : ℕ
  expiresAt : Option Instant

structure ActionRow extends PlanExecutor.CleanupAction where
  planId : String
  candidateId : String
  status : ActionStatus
  skipReason : Option String

structure CandidateRow where
  id : String
  runId : String
  mediaItemId : Option String
  mediaFileId : Option String
  path : String
  fingerprint : String
  status : CandidateStatus
  estimatedReclaimBytes : ℕ

/-- What a reader of the journal can tell: the values the status column took, and what was
done to files. -/
inductive Event where
  | status (planId : String) (status : PlanStatus)
  | handed (actionId : String)
  | touched (planId actionId : String)
  deriving DecidableEq

structure Db where
  plans : Table PlanRow (·.id)
  actions : Table ActionRow (·.id)
  candidates : Table CandidateRow (·.id)
  runs : String → Option RunRow
  versions : String → Option CleanupPolicyDocument
  log : List Event

namespace Db

def planStatus (db : Db) (planId : String) : Option PlanStatus :=
  (db.plans.find planId).map (·.status)

def planOf (db : Db) (actionId : String) : Option String :=
  (db.actions.find actionId).map (·.planId)

def isOpen (db : Db) (planId : String) : Bool := (db.planStatus planId).any (!·.isTerminal)

def pending (db : Db) (planId : String) : List ActionRow :=
  db.actions.rows.filter fun a => a.planId = planId && a.status = .pending

/-- The actions that already name one of the candidates in a plan not yet decided. -/
def alreadyPlanned (db : Db) (candidateIds : List String) : List ActionRow :=
  db.actions.rows.filter fun a => candidateIds.contains a.candidateId && db.isOpen a.planId

/-- The plan has at least this much on record when it is first looked at. -/
def Opening (db : Db) : Prop :=
  db.log = db.plans.rows.map fun plan => .status plan.id plan.status

end Db

/-- What one action of a call does to the tables and to files. -/
inductive Write where
  | nothing
  | plan (planId : String) (status : PlanStatus) (candidateCount : Option ℕ)
  | action (actionId : String) (status : ActionStatus) (skipReason : Option String)
  | candidates (ids : List String) (status : CandidateStatus)
  | hand (actionId : String)
  | touch (planId actionId : String)
  | create (plan : PlanRow) (actions : List ActionRow) (actionable : List String)

def Write.events : Write → List Event
  | .plan planId status _ => [.status planId status]
  | .create row _ _ => [.status row.id row.status]
  | .hand actionId => [.handed actionId]
  | .touch planId actionId => [.touched planId actionId]
  | .nothing | .action _ _ _ | .candidates _ _ => []

def setPlan (status : PlanStatus) (candidateCount : Option ℕ) (row : PlanRow) : PlanRow :=
  { row with status := status, candidateCount := candidateCount.getD row.candidateCount }

def setAction (status : ActionStatus) (skipReason : Option String) (row : ActionRow) : ActionRow :=
  { row with status := status, skipReason := skipReason.or row.skipReason }

def markCandidates (ids : List String) (status : CandidateStatus)
    (candidates : Table CandidateRow (·.id)) : Table CandidateRow (·.id) :=
  candidates.update fun c => { c with status := if ids.contains c.id then status else c.status }

/-- `none` where the database refuses: no such row to update, or one already there. -/
def Db.apply (db : Db) (write : Write) : Option Db :=
  let done := { db with log := db.log ++ write.events }
  match write with
  | .nothing | .hand _ | .touch _ _ => some done
  | .plan planId status candidateCount => (db.plans.find planId).map fun _ =>
      { done with plans := db.plans.updateAt planId (setPlan status candidateCount) }
  | .action actionId status skipReason => (db.actions.find actionId).map fun _ =>
      { done with actions := db.actions.updateAt actionId (setAction status skipReason) }
  | .candidates ids status => some { done with candidates := markCandidates ids status db.candidates }
  | .create plan actions actionable => do
      let plans ← db.plans.insert [plan]
      let actions ← db.actions.insert actions
      pure { done with
        plans := plans, actions := actions
        candidates := markCandidates actionable .pendingApproval db.candidates }

/-- The values the status column of a plan took. -/
def statuses (planId : String) (log : List Event) : List PlanStatus :=
  log.filterMap fun
    | .status id status => if id = planId then some status else none
    | .handed _ | .touched _ _ => none

/-- The action rows handed to quarantine or trash. -/
def handedIds (log : List Event) : List String :=
  log.filterMap fun
    | .handed actionId => some actionId
    | .status _ _ | .touched _ _ => none

/-! ### What a write changes -/

variable {db db' : Db} {write : Write}

theorem statuses_append (planId : String) (l₁ l₂ : List Event) :
    statuses planId (l₁ ++ l₂) = statuses planId l₁ ++ statuses planId l₂ :=
  List.filterMap_append

theorem handedIds_append (l₁ l₂ : List Event) : handedIds (l₁ ++ l₂) = handedIds l₁ ++ handedIds l₂ :=
  List.filterMap_append

theorem mem_statuses {planId : String} {status : PlanStatus} {log : List Event} :
    status ∈ statuses planId log ↔ Event.status planId status ∈ log := by
  rw [statuses, List.mem_filterMap]
  constructor
  · rintro ⟨e, he, hs⟩
    cases e with
    | status id s =>
      simp only [Option.ite_none_right_eq_some, Option.some.injEq] at hs
      obtain ⟨rfl, rfl⟩ := hs
      exact he
    | handed _ => simp at hs
    | touched _ _ => simp at hs
  · intro he
    exact ⟨_, he, if_pos rfl⟩

theorem log_apply (h : db.apply write = some db') : db'.log = db.log ++ write.events := by
  cases write with
  | nothing | hand _ | touch _ _ | candidates _ _ => rw [← Option.some.inj h]
  | plan _ _ _ | action _ _ _ =>
    obtain ⟨_, _, rfl⟩ := Option.map_eq_some_iff.1 h
    rfl
  | create plan actions _ =>
    obtain ⟨plans, _, h⟩ := Option.bind_eq_some_iff.1 h
    obtain ⟨actions, _, h⟩ := Option.bind_eq_some_iff.1 h
    rw [← Option.some.inj h]

/-- The status column holds what was last written to it. -/
theorem planStatus_apply (h : db.apply write = some db') (planId : String) :
    db'.planStatus planId = (statuses planId write.events).getLast?.or (db.planStatus planId) := by
  cases write with
  | nothing | hand _ | touch _ _ | candidates _ _ =>
    rw [← Option.some.inj h]
    rfl
  | action _ _ _ =>
    obtain ⟨_, _, rfl⟩ := Option.map_eq_some_iff.1 h
    rfl
  | plan id status count =>
    obtain ⟨row, hrow, rfl⟩ := Option.map_eq_some_iff.1 h
    refine (Table.map_find_updateAt_set (f := setPlan status count) (g := PlanRow.status)
      (v := status) (fun _ => rfl) (fun _ => rfl) hrow planId).trans ?_
    by_cases hid : planId = id <;> simp [Write.events, statuses, hid, Ne.symm, Db.planStatus]
  | create plan actions _ =>
    obtain ⟨plans, hplans, h⟩ := Option.bind_eq_some_iff.1 h
    obtain ⟨actions, _, h⟩ := Option.bind_eq_some_iff.1 h
    rw [← Option.some.inj h]
    by_cases hid : planId = plan.id
    · simp [Db.planStatus, Write.events, statuses, hid, Table.find_of_insert_new hplans]
    · simp [Db.planStatus, Write.events, statuses, hid, Ne.symm hid,
        Table.find_of_insert_old hplans (k := planId)]

theorem statuses_events (planId : String) (write : Write) :
    statuses planId write.events = [] ∨ ∃ s, statuses planId write.events = [s] := by
  cases write with
  | plan id s _ =>
    by_cases hid : id = planId
    · exact .inr ⟨s, by simp [statuses, Write.events, hid]⟩
    · exact .inl (by simp [statuses, Write.events, hid])
  | create plan _ _ =>
    by_cases hid : plan.id = planId
    · exact .inr ⟨plan.status, by simp [statuses, Write.events, hid]⟩
    · exact .inl (by simp [statuses, Write.events, hid])
  | _ => exact .inl rfl

theorem planStatus_of_create {plan : PlanRow} {actions : List ActionRow} {ids : List String}
    (h : db.apply (.create plan actions ids) = some db') : db.planStatus plan.id = none := by
  obtain ⟨plans, hplans, -⟩ := Option.bind_eq_some_iff.1 h
  rw [Db.planStatus, Table.find_eq_none_of_insert hplans (List.mem_singleton_self plan)]
  rfl

theorem planOf_apply (h : db.apply write = some db') {actionId planId : String}
    (hplan : db.planOf actionId = some planId) : db'.planOf actionId = some planId := by
  cases write with
  | nothing | hand _ | touch _ _ | candidates _ _ =>
    rw [← Option.some.inj h]
    exact hplan
  | plan _ _ _ =>
    obtain ⟨_, _, rfl⟩ := Option.map_eq_some_iff.1 h
    exact hplan
  | action id _ _ =>
    obtain ⟨_, _, rfl⟩ := Option.map_eq_some_iff.1 h
    refine Eq.trans ?_ hplan
    exact Table.map_find_updateAt (f := setAction _ _) (g := ActionRow.planId) (fun _ => rfl)
      (fun _ => rfl) actionId
  | create plan actions _ =>
    obtain ⟨plans, _, h⟩ := Option.bind_eq_some_iff.1 h
    obtain ⟨actions, hactions, h⟩ := Option.bind_eq_some_iff.1 h
    rw [← Option.some.inj h]
    obtain ⟨row, hrow, hid⟩ := Option.map_eq_some_iff.1 hplan
    exact Option.map_eq_some_iff.2 ⟨row, Table.find_of_insert hactions hrow, hid⟩

theorem planOf_of_mem_pending {planId : String} {a : ActionRow} (ha : a ∈ db.pending planId) :
    db.planOf a.id = some planId := by
  rw [Db.pending, List.mem_filter, Bool.and_eq_true] at ha
  obtain ⟨hmem, hplan, -⟩ := ha
  rw [Db.planOf, Table.find_key hmem, Option.map_some, Option.some.injEq]
  exact of_decide_eq_true hplan

theorem actions_apply (h : db.apply write = some db') {a : ActionRow} (ha : a ∈ db'.actions.rows) :
    a ∈ db.actions.rows ∨
      (∃ id status reason, write = .action id status reason ∧
        ∃ b ∈ db.actions.rows, setAction status reason b = a) ∨
      ∃ plan actions ids, write = .create plan actions ids ∧ a ∈ actions := by
  cases write with
  | nothing | hand _ | touch _ _ | candidates _ _ =>
    rw [← Option.some.inj h] at ha
    exact .inl ha
  | plan _ _ _ =>
    obtain ⟨_, _, rfl⟩ := Option.map_eq_some_iff.1 h
    exact .inl ha
  | action id status reason =>
    obtain ⟨_, _, rfl⟩ := Option.map_eq_some_iff.1 h
    rcases Table.mem_updateAt (f := setAction status reason) (fun _ => rfl) ha with
      hold | ⟨b, hb, _, hrow⟩
    · exact .inl hold
    · exact .inr (.inl ⟨id, status, reason, rfl, b, hb, hrow⟩)
  | create plan actions ids =>
    obtain ⟨plans, _, h⟩ := Option.bind_eq_some_iff.1 h
    obtain ⟨actions', hactions, h⟩ := Option.bind_eq_some_iff.1 h
    rw [← Option.some.inj h] at ha
    have hmem : a ∈ actions'.rows := ha
    rw [Table.rows_of_insert hactions, List.mem_append] at hmem
    exact hmem.imp_right fun hnew => .inr ⟨plan, actions, ids, rfl, hnew⟩

end UltraTorrent.Cleanup.PlanStore
