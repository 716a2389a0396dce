import Mathlib.Data.Finset.Insert
import Mathlib.Data.Fintype.Basic
import Mathlib.Data.List.Chain
import UltraTorrent.Library.Interleaving

/-! The statuses of a job and the state machine that every change of status goes through. -/
namespace UltraTorrent.Jobs

inductive JobStatus where
  | scheduled | queued | waiting | blocked | running | pausing | paused | retrying
  | completed | completedWithWarnings | failed | cancelling | cancelled | skipped | expired
  deriving DecidableEq

instance : Fintype JobStatus :=
  ⟨{.scheduled, .queued, .waiting, .blocked, .running, .pausing, .paused, .retrying, .completed,
    .completedWithWarnings, .failed, .cancelling, .cancelled, .skipped, .expired},
    by intro s; cases s <;> simp⟩

namespace JobStatus

/-- A job here does no more work; a failed one can still be retried. -/
def terminalStatuses : List JobStatus :=
  [completed, completedWithWarnings, cancelled, skipped, expired]

def activeStatuses : List JobStatus :=
  [scheduled, queued, waiting, blocked, running, pausing, paused, retrying, cancelling]

def jobTransitions : JobStatus → List JobStatus
  | scheduled => [queued, cancelled, expired]
  | queued => [running, waiting, blocked, cancelled, skipped]
  | waiting => [queued, blocked, cancelled, expired]
  | blocked => [queued, cancelled, expired]
  | running => [completed, completedWithWarnings, failed, cancelling, pausing]
  | pausing => [paused, running, failed, cancelling]
  | paused => [queued, running, cancelled]
  | retrying => [queued]
  | failed => [retrying]
  | cancelling => [cancelled]
  | completed | completedWithWarnings | cancelled | skipped | expired => []

/-- Staying put is a move that is always allowed. -/
def canTransition (source target : JobStatus) : Bool :=
  source = target || target ∈ jobTransitions source

def isTerminal (s : JobStatus) : Bool := s ∈ terminalStatuses

def isActive (s : JobStatus) : Bool := s ∈ activeStatuses

/-- Nothing leaves a terminal status. -/
theorem eq_of_canTransition : ∀ {s t : JobStatus}, isTerminal s → canTransition s t → t = s := by
  decide

end JobStatus

end UltraTorrent.Jobs

/-! The job service, one database call a step. A change of status is a read of the row, a check
against the state machine, and a write by id; the calls that make one differ in what they do
once it has been made or refused. -/
namespace UltraTorrent.Jobs.PlatformJobService

open JobStatus

/-- A row of `platform_jobs`; its id is its place in the table. -/
structure PlatformJob where
  idempotencyKey : Option String
  status : JobStatus
  attempt : ℤ
  maxAttempts : ℤ
  pausable : Bool
  resumable : Bool
  retryable : Bool
  /-- `inputData` is not null. -/
  hasInput : Bool
  /-- The statuses before this one, latest first; nothing reads them. -/
  past : List JobStatus
  deriving DecidableEq

/-- The values the status column has taken, latest first. -/
def PlatformJob.history (job : PlatformJob) : List JobStatus := job.status :: job.past

structure JobCapabilities where
  pausable : Bool
  resumable : Bool
  retryable : Bool
  deriving DecidableEq

structure EnqueueJobInput where
  idempotencyKey : Option String
  maxAttempts : Option ℤ
  capabilities : JobCapabilities
  defaultMaxAttempts : Option ℤ
  /-- The validated input is not null. -/
  hasInput : Bool
  deriving DecidableEq

/-- The table, and the sets this process keeps. -/
structure Platform where
  jobs : List PlatformJob
  running : Finset ℕ
  cancelRequested : Finset ℕ
  pauseRequested : Finset ℕ

/-- How a body ends: what it returns, or what it throws. -/
inductive Outcome where
  /-- It returns; with warnings collected on the way, or none. -/
  | returned (warned : Bool)
  /-- `JobCancelledError`. -/
  | cancelled
  /-- `JobPausedError`. -/
  | paused
  /-- Any other error, and the `retryable` it carries. -/
  | error (retryable : Option Bool)
  deriving DecidableEq

/-- What `runHandler` works with: the job as it was handed over, and the attempt. -/
structure Handler where
  jobId : ℕ
  retryable : Bool
  maxAttempts : ℤ
  attempt : ℤ
  deriving DecidableEq

/-- A change of status, by the call that makes it. -/
inductive Change where
  | transition (jobId : ℕ) (target : JobStatus)
  | start (h : Handler)
  | finishSuccess (h : Handler) (warned : Bool)
  | markCancelled (h : Handler)
  | markFailed (h : Handler)
  /-- The first and the second change of `markPaused`. -/
  | pausing (h : Handler)
  | paused (h : Handler)
  /-- The changes that lead from a failed attempt to the next. -/
  | attemptFailed (h : Handler)
  | retrying (h : Handler)
  | requeued (h : Handler)
  | requestCancel (jobId : ℕ)
  | cancelIdle (jobId : ℕ)
  | requestPause (jobId : ℕ)
  | resume (h : Handler)
  /-- The first and the second change of `retry`. -/
  | retry (h : Handler)
  | retryQueued (h : Handler)
  deriving DecidableEq

/-- Where a call stands. -/
inductive Call where
  /-- `run` and `runDetached`, about to look for an active job with the key. -/
  | run (input : EnqueueJobInput)
  | create (input : EnqueueJobInput)
  /-- About to enter `runHandler`. -/
  | launch (h : Handler)
  /-- About to read the status for a change. -/
  | find (change : Change)
  /-- The change is allowed; about to write it. -/
  | update (change : Change)
  /-- The body of the job is running. -/
  | body (h : Handler)
  /-- The delay before the next attempt. -/
  | delay (h : Handler)
  /-- The `finally` of `runHandler`. -/
  | leave (jobId : ℕ)
  | resume (jobId : ℕ)
  | retry (jobId : ℕ)
  | requestCancel (jobId : ℕ)
  /-- `requestCancel` of a job this process does not run, about to read its status. -/
  | requestCancelIdle (jobId : ℕ)
  | requestPause (jobId : ℕ)
  | done
  deriving DecidableEq

/-- What a call is answered from outside: the row its lookup finds, and how the body ends. -/
structure Answer where
  row : Option ℕ := none
  outcome : Outcome := .returned false

namespace Change

def jobId : Change → ℕ
  | transition jobId _ | requestCancel jobId | cancelIdle jobId | requestPause jobId => jobId
  | start h | finishSuccess h _ | markCancelled h | markFailed h | pausing h | paused h
  | attemptFailed h | retrying h | requeued h | resume h | retry h | retryQueued h => h.jobId

def target : Change → JobStatus
  | transition _ target => target
  | start _ => .running
  | finishSuccess _ warned => if warned then .completedWithWarnings else .completed
  | markCancelled _ | cancelIdle _ => .cancelled
  | markFailed _ | attemptFailed _ => .failed
  | pausing _ | requestPause _ => .pausing
  | paused _ => .paused
  | retrying _ | retry _ => .retrying
  | requeued _ | resume _ | retryQueued _ => .queued
  | requestCancel _ => .cancelling

/-- The attempt written along with the status. -/
def attempt : Change → Option ℤ
  | start h | retrying h | retry h => some h.attempt
  | _ => none

end Change

/-- Whether the error may be tried again, by the `retryable` it carries. -/
def isRetryable (retryable : Option Bool) : Bool := retryable ≠ some false

/-- The body threw an error other than the two that stop it. -/
def caught (h : Handler) (retryable : Option Bool) : Call :=
  if h.retryable && h.attempt < h.maxAttempts && isRetryable retryable then
    .find (.attemptFailed { h with attempt := h.attempt + 1 })
  else .find (.markFailed h)

def afterBody (h : Handler) : Outcome → Call
  | .returned warned => .find (.finishSuccess h warned)
  | .cancelled => .find (.markCancelled h)
  | .paused => .find (.pausing h)
  | .error retryable => caught h retryable

def Change.made : Change → Call
  | start h => .body h
  | finishSuccess h _ | markCancelled h | markFailed h | paused h => .leave h.jobId
  | pausing h => .find (.paused h)
  | attemptFailed h => .find (.retrying h)
  | retrying h => .find (.requeued h)
  | requeued h => .delay h
  | resume h | retryQueued h => .launch h
  | retry h => .find (.retryQueued h)
  | transition .. | requestCancel _ | cancelIdle _ | requestPause _ => .done

/-- The change is not allowed: `transition` throws, `safeTransition` goes on. An
`InvalidJobTransitionError` says nothing of a retry. -/
def Change.refused : Change → Call
  | start h => .leave h.jobId
  | finishSuccess h _ => caught h none
  | resume _ | retry _ | retryQueued _ => .done
  | change => change.made

def Platform.statusOf (s : Platform) (jobId : ℕ) : Option JobStatus := s.jobs[jobId]?.map (·.status)

def Platform.allows (s : Platform) (change : Change) : Bool :=
  (s.statusOf change.jobId).any (canTransition · change.target)

def PlatformJob.apply (job : PlatformJob) (change : Change) : PlatformJob :=
  { job with
    status := change.target
    attempt := change.attempt.getD job.attempt
    past := job.history }

def Platform.write (s : Platform) (change : Change) : Platform :=
  { s with jobs := s.jobs.modify change.jobId (·.apply change) }

def EnqueueJobInput.joins (input : EnqueueJobInput) (job : PlatformJob) : Bool :=
  input.idempotencyKey.any (· ≠ "") && job.idempotencyKey = input.idempotencyKey && isActive job.status

def EnqueueJobInput.job (input : EnqueueJobInput) : PlatformJob where
  idempotencyKey := input.idempotencyKey
  status := .queued
  attempt := 1
  maxAttempts := (input.maxAttempts.or input.defaultMaxAttempts).getD 1
  pausable := input.capabilities.pausable
  resumable := input.capabilities.resumable
  retryable := input.capabilities.retryable
  hasInput := input.hasInput
  past := []

def PlatformJob.handler (job : PlatformJob) (jobId : ℕ) : Handler :=
  ⟨jobId, job.retryable, job.maxAttempts, job.attempt⟩

/-- The lookup of `enqueue`, which may find any job that matches. -/
def enqueue (s : Platform) (input : EnqueueJobInput) : Option ℕ → Option Call
  | none => if s.jobs.any input.joins then none else some (.create input)
  | some jobId => (s.jobs[jobId]?.filter input.joins).map fun job => .launch (job.handler jobId)

/-- A job that is resumed, if it is paused. -/
def resumed (jobId : ℕ) (job : PlatformJob) : Call :=
  if job.status = .paused ∧ job.resumable then .find (.resume (job.handler jobId)) else .done

def retried (jobId : ℕ) (job : PlatformJob) : Call :=
  if job.status = .failed ∧ job.hasInput then
    .find (.retry { job.handler jobId with attempt := job.attempt + 1 })
  else .done

/-- One step of a call: a database call with what follows it, or a step of the process. -/
def act (s : Platform) (call : Call) (answer : Answer) : Option (Platform × Call) :=
  match call with
  | .run input => (enqueue s input answer.row).map (s, ·)
  | .create input =>
    some ({ s with jobs := s.jobs ++ [input.job] }, .launch (input.job.handler s.jobs.length))
  | .launch h => some ({ s with running := insert h.jobId s.running }, .find (.start h))
  | .find change => some (s, if s.allows change then .update change else change.refused)
  | .update change => some (s.write change, change.made)
  | .body h => some (s, afterBody h answer.outcome)
  | .delay h =>
    some (s, if h.jobId ∈ s.cancelRequested then .find (.markCancelled h) else .find (.start h))
  | .leave jobId =>
    some ({ s with
      running := s.running.erase jobId
      cancelRequested := s.cancelRequested.erase jobId
      pauseRequested := s.pauseRequested.erase jobId }, .done)
  | .resume jobId => some (s, s.jobs[jobId]?.elim .done (resumed jobId))
  | .retry jobId => some (s, s.jobs[jobId]?.elim .done (retried jobId))
  | .requestCancel jobId =>
    if jobId ∈ s.running then
      some ({ s with cancelRequested := insert jobId s.cancelRequested }, .find (.requestCancel jobId))
    else some (s, .requestCancelIdle jobId)
  | .requestCancelIdle jobId =>
    some (s, if (s.statusOf jobId).any (· ∈ [.queued, .scheduled, .waiting, .blocked, .paused]) then
      .find (.cancelIdle jobId) else .done)
  | .requestPause jobId =>
    if s.jobs[jobId]?.any (·.pausable) ∧ jobId ∈ s.running then
      some ({ s with pauseRequested := insert jobId s.pauseRequested }, .find (.requestPause jobId))
    else some (s, .done)
  | .done => none

abbrev Config (ι : Type*) := Library.Interleaving.Config ι Platform Call

/-! ### What a step does to the table -/

variable {s s' : Platform} {k k' : Call} {answer : Answer} {change : Change} {jobId : ℕ}

theorem getElem?_write : (s.write change).jobs[jobId]? = s.jobs[jobId]?.map fun job =>
    if change.jobId = jobId then job.apply change else job := by
  rw [Platform.write, List.getElem?_modify]
  cases s.jobs[jobId]? with
  | none => rfl
  | some job => rw [Option.map_eq_map]

theorem statusOf_write : (s.write change).statusOf jobId = (s.statusOf jobId).map fun st =>
    if change.jobId = jobId then change.target else st := by
  rw [Platform.statusOf, Platform.statusOf, getElem?_write]
  cases s.jobs[jobId]? with
  | none => rfl
  | some job =>
    simp only [Option.map_some]
    split_ifs <;> rfl

theorem allows_iff : s.allows change = true ↔
    ∃ st, s.statusOf change.jobId = some st ∧ canTransition st change.target = true := by
  rw [Platform.allows, Option.any_eq_true]

/-- A call that has read goes on to write only what is allowed, and is elsewhere otherwise. -/
theorem find_step (h : act s (.find change) answer = some (s', k')) :
    s' = s ∧ (s.allows change = true ∧ k' = .update change ∨
      s.allows change = false ∧ k' = change.refused) := by
  cases h
  refine ⟨rfl, ?_⟩
  cases hallows : s.allows change
  · exact .inr ⟨rfl, if_neg (by simp)⟩
  · exact .inl ⟨rfl, if_pos rfl⟩

theorem jobs_step (h : act s k answer = some (s', k')) :
    (∃ change, k = .update change ∧ s' = s.write change) ∨
      (∃ input, k = .create input ∧ s'.jobs = s.jobs ++ [input.job]) ∨ s'.jobs = s.jobs := by
  cases k with
  | update change =>
    cases h
    exact .inl ⟨change, rfl, rfl⟩
  | create input =>
    cases h
    exact .inr (.inl ⟨input, rfl, rfl⟩)
  | run input =>
    obtain ⟨k, -, h⟩ := Option.map_eq_some_iff.1 h
    cases h
    exact .inr (.inr rfl)
  | requestCancel jobId | requestPause jobId =>
    unfold act at h
    dsimp only at h
    split_ifs at h <;> cases h <;> exact .inr (.inr rfl)
  | done => cases h
  | _ =>
    cases h
    exact .inr (.inr rfl)

/-- The change a call is about to write. -/
def Call.pending : Call → Option Change
  | .update change => some change
  | _ => none

theorem pending_eq_some : k.pending = some change ↔ k = .update change := by
  cases k <;> simp [Call.pending]

@[simp] theorem pending_caught (h : Handler) (retryable : Option Bool) :
    (caught h retryable).pending = none := by
  unfold caught
  split_ifs <;> rfl

@[simp] theorem pending_made (change : Change) : change.made.pending = none := by
  cases change <;> rfl

@[simp] theorem pending_refused (change : Change) : change.refused.pending = none := by
  cases change with
  | finishSuccess h warned => exact pending_caught h none
  | _ => rfl

@[simp] theorem pending_afterBody (h : Handler) (outcome : Outcome) :
    (afterBody h outcome).pending = none := by
  cases outcome with
  | error retryable => exact pending_caught h retryable
  | _ => rfl

theorem pending_enqueue {input : EnqueueJobInput} {row : Option ℕ} (h : enqueue s input row = some k) :
    k.pending = none := by
  cases row with
  | none =>
    unfold enqueue at h
    dsimp only at h
    split_ifs at h
    cases h
    rfl
  | some jobId =>
    obtain ⟨job, -, rfl⟩ := Option.map_eq_some_iff.1 h
    rfl

theorem pending_resumed (job : PlatformJob) : (resumed jobId job).pending = none := by
  unfold resumed
  split_ifs <;> rfl

theorem pending_retried (job : PlatformJob) : (retried jobId job).pending = none := by
  unfold retried
  split_ifs <;> rfl

/-- Only a read that allows a change leads to its write. -/
theorem pending_step (h : act s k answer = some (s', k')) (hpending : k'.pending = some change) :
    k = .find change ∧ s' = s ∧ s.allows change = true := by
  have hother : k'.pending ≠ none := by simp [hpending]
  cases k with
  | find other =>
    obtain ⟨rfl, ⟨hallows, rfl⟩ | ⟨-, rfl⟩⟩ := find_step h
    · cases hpending
      exact ⟨rfl, rfl, hallows⟩
    · exact absurd (pending_refused other) hother
  | run input =>
    obtain ⟨l, hl, h⟩ := Option.map_eq_some_iff.1 h
    cases h
    exact absurd (pending_enqueue hl) hother
  | update other =>
    cases h
    exact absurd (pending_made other) hother
  | body handler =>
    cases h
    exact absurd (pending_afterBody handler answer.outcome) hother
  | resume jobId =>
    cases h
    cases hjob : s.jobs[jobId]? with
    | none => simp [hjob, Call.pending] at hpending
    | some job => simp [hjob, pending_resumed] at hpending
  | retry jobId =>
    cases h
    cases hjob : s.jobs[jobId]? with
    | none => simp [hjob, Call.pending] at hpending
    | some job => simp [hjob, pending_retried] at hpending
  | requestCancel jobId | requestPause jobId =>
    unfold act at h
    dsimp only at h
    split_ifs at h <;> cases h <;> cases hpending
  | requestCancelIdle jobId | delay handler =>
    cases h
    split_ifs at hpending <;> cases hpending
  | done => cases h
  | create input | launch handler | leave jobId =>
    cases h
    cases hpending

end UltraTorrent.Jobs.PlatformJobService
