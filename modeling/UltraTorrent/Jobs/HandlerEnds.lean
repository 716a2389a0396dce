import UltraTorrent.Jobs.JobPaths

/-! What `runHandler` leaves behind. It swallows the changes its exits are refused, so the row can
stay at work when nothing works on it any more. -/
namespace UltraTorrent.Jobs.HandlerEnds

open Library Library.Interleaving JobStatus PlatformJobService JobPaths

/-- Nothing is left to be done for the job by the process that ran it. -/
def isSettled (st : JobStatus) : Bool := st = paused || st = failed || isTerminal st

/-- The changes of `runHandler`. -/
def ofHandler : Change → Bool
  | .start _ | .finishSuccess .. | .markCancelled _ | .markFailed _ | .pausing _ | .paused _
  | .attemptFailed _ | .retrying _ | .requeued _ => true
  | _ => false

def ofRequest : Change → Bool
  | .requestCancel _ | .cancelIdle _ | .requestPause _ => true
  | _ => false

/-- A stage of `runHandler` on the job. -/
def handles (jobId : ℕ) : Call → Bool
  | .launch h | .body h | .delay h => h.jobId = jobId
  | .find change | .update change => ofHandler change && change.jobId = jobId
  | .leave id => id = jobId
  | .done => true
  | _ => false

/-- A stage of `requestCancel` or `requestPause` on the job. -/
def requests (jobId : ℕ) : Call → Bool
  | .requestCancel id | .requestCancelIdle id | .requestPause id => id = jobId
  | .find change | .update change => ofRequest change && change.jobId = jobId
  | .done => true
  | _ => false

/-- A change after which the handler ends, made or refused. -/
def isLast : Change → Bool
  | .start _ | .markCancelled _ | .markFailed _ | .paused _ => true
  | _ => false

/-- The handler is about to end on a change that is refused, with the job at work. -/
def halfway (s : Platform) : Call → Bool
  | .find change =>
    isLast change && !s.allows change && !(s.statusOf change.jobId).any isSettled
  | _ => false

variable {ι : Type*}

/-- Writes forbid each other nothing, and the handler does not end on a refused change. -/
def Heeded (c : Config ι) (i : ι) : Prop := Orderly c i ∧ halfway c.store (c.call i) = false

instance [Fintype ι] [DecidableEq ι] (c : Config ι) (i : ι) : Decidable (Heeded c i) :=
  inferInstanceAs (Decidable (_ ∧ _))

/-- The handler is over, but for its `finally`. -/
def isOver : Call → Bool
  | .leave _ | .done => true
  | _ => false

variable {s s' : Platform} {k k' : Call} {answer : Answer} {change : Change} {jobId : ℕ}

/-! ### Stages -/

theorem handles_caught {h : Handler} (hid : h.jobId = jobId) (retryable : Option Bool) :
    handles jobId (caught h retryable) = true ∧ isOver (caught h retryable) = false := by
  unfold caught
  split_ifs <;> exact ⟨by simp [handles, ofHandler, Change.jobId, hid], rfl⟩

theorem handles_made (hchange : ofHandler change = true) (hid : change.jobId = jobId) :
    handles jobId change.made = true := by
  cases change <;> simp_all [ofHandler, Change.made, handles, Change.jobId]

theorem handles_refused (hchange : ofHandler change = true) (hid : change.jobId = jobId) :
    handles jobId change.refused = true := by
  cases change with
  | finishSuccess h warned => exact (handles_caught hid none).1
  | _ => simp_all [ofHandler, Change.refused, Change.made, handles, Change.jobId]

theorem handles_step (hk : handles jobId k = true) (h : act s k answer = some (s', k')) :
    handles jobId k' = true := by
  cases k with
  | find change =>
    simp only [handles, Bool.and_eq_true, decide_eq_true_eq] at hk
    obtain ⟨-, ⟨-, rfl⟩ | ⟨-, rfl⟩⟩ := find_step h
    · simp [handles, hk.1, hk.2]
    · exact handles_refused hk.1 hk.2
  | update change =>
    simp only [handles, Bool.and_eq_true, decide_eq_true_eq] at hk
    cases h
    exact handles_made hk.1 hk.2
  | body handler =>
    have hid : handler.jobId = jobId := by simpa [handles] using hk
    cases h
    cases houtcome : answer.outcome with
    | error retryable => exact (handles_caught hid retryable).1
    | _ => simp [afterBody, handles, ofHandler, Change.jobId, hid]
  | launch handler =>
    have hid : handler.jobId = jobId := by simpa [handles] using hk
    cases h
    simp [handles, ofHandler, Change.jobId, hid]
  | delay handler =>
    have hid : handler.jobId = jobId := by simpa [handles] using hk
    cases h
    split_ifs <;> simp [handles, ofHandler, Change.jobId, hid]
  | leave id =>
    cases h
    rfl
  | done => cases h
  | _ => cases hk

theorem requests_step (hk : requests jobId k = true) (h : act s k answer = some (s', k')) :
    requests jobId k' = true := by
  cases k with
  | find change =>
    simp only [requests, Bool.and_eq_true, decide_eq_true_eq] at hk
    obtain ⟨-, ⟨-, rfl⟩ | ⟨-, rfl⟩⟩ := find_step h
    · simp [requests, hk.1, hk.2]
    · cases change <;> first | rfl | cases hk.1
  | update change =>
    simp only [requests, Bool.and_eq_true, decide_eq_true_eq] at hk
    cases h
    cases change <;> first | rfl | cases hk.1
  | requestCancel id | requestPause id =>
    have hid : id = jobId := by simpa [requests] using hk
    unfold act at h
    dsimp only at h
    split_ifs at h <;> cases h <;> simp [requests, ofRequest, Change.jobId, hid]
  | requestCancelIdle id =>
    have hid : id = jobId := by simpa [requests] using hk
    cases h
    split_ifs <;> simp [requests, ofRequest, Change.jobId, hid]
  | done => cases h
  | _ => cases hk

/-! ### Settled rows -/

/-- The job's row is there, with nothing left to be done. -/
def Settled (s : Platform) (jobId : ℕ) : Prop := ∃ st, s.statusOf jobId = some st ∧ isSettled st = true

/-- What a request may write over a settled status is settled. -/
theorem isSettled_of_request : ∀ {st target : JobStatus}, isSettled st = true →
    canTransition st target = true → target ∈ [cancelling, cancelled, pausing] →
    isSettled target = true := by
  decide

theorem target_of_request (h : ofRequest change = true) :
    change.target ∈ [cancelling, cancelled, pausing] := by
  cases change with
  | requestCancel _ | cancelIdle _ | requestPause _ => simp [Change.target]
  | _ => cases h

theorem settled_congr (hjobs : s'.jobs = s.jobs) : Settled s' jobId ↔ Settled s jobId := by
  rw [Settled, Settled, Platform.statusOf, Platform.statusOf, hjobs]

theorem Settled.request (hsettled : Settled s jobId) (hk : requests jobId k = true)
    (hpermitted : Permitted s k) (h : act s k answer = some (s', k')) : Settled s' jobId := by
  rcases jobs_step h with ⟨change, rfl, rfl⟩ | ⟨input, rfl, -⟩ | hjobs
  · simp only [requests, Bool.and_eq_true, decide_eq_true_eq] at hk
    obtain ⟨st, hst, hsettled⟩ := hsettled
    obtain ⟨st', hst', hallowed⟩ := allows_iff.1 (hpermitted change rfl)
    rw [hk.2] at hst'
    cases hst.symm.trans hst'
    refine ⟨change.target, ?_, isSettled_of_request hsettled hallowed (target_of_request hk.1)⟩
    rw [statusOf_write, hst, Option.map_some, if_pos hk.2]
  · cases hk
  · exact (settled_congr hjobs).2 hsettled

theorem isSettled_of_made (hchange : ofHandler change = true) (hover : isOver change.made = true) :
    isSettled change.target = true := by
  cases change with
  | finishSuccess h warned => cases warned <;> rfl
  | markCancelled _ | markFailed _ | paused _ => rfl
  | start _ | pausing _ | attemptFailed _ | retrying _ | requeued _ => cases hover
  | _ => cases hchange

theorem isLast_of_refused (hchange : ofHandler change = true)
    (hover : isOver change.refused = true) : isLast change = true := by
  cases change with
  | finishSuccess h warned => simp [Change.refused, (handles_caught rfl none).2] at hover
  | start _ | markCancelled _ | markFailed _ | paused _ => rfl
  | pausing _ | attemptFailed _ | retrying _ | requeued _ => cases hover
  | _ => cases hchange

theorem settled_step (hk : handles jobId k = true) (hpermitted : Permitted s k)
    (hhalfway : halfway s k = false) (hover : isOver k = true → Settled s jobId)
    (h : act s k answer = some (s', k')) (hover' : isOver k' = true) : Settled s' jobId := by
  cases k with
  | find change =>
    simp only [handles, Bool.and_eq_true, decide_eq_true_eq] at hk
    obtain ⟨rfl, ⟨-, rfl⟩ | ⟨hrefused, rfl⟩⟩ := find_step h
    · cases hover'
    · simpa [halfway, isLast_of_refused hk.1 hover', hrefused, hk.2, Option.any_eq_true,
        Settled] using hhalfway
  | update change =>
    simp only [handles, Bool.and_eq_true, decide_eq_true_eq] at hk
    cases h
    obtain ⟨st, hst, -⟩ := allows_iff.1 (hpermitted change rfl)
    refine ⟨change.target, ?_, isSettled_of_made hk.1 hover'⟩
    rw [← hk.2, statusOf_write, hst, Option.map_some, if_pos rfl]
  | body handler =>
    cases h
    cases houtcome : answer.outcome with
    | error retryable => simp [houtcome, afterBody, (handles_caught rfl retryable).2] at hover'
    | _ => simp [houtcome, afterBody, isOver] at hover'
  | launch handler =>
    cases h
    cases hover'
  | delay handler =>
    cases h
    split_ifs at hover' <;> cases hover'
  | leave id =>
    cases h
    exact hover rfl
  | done => cases h
  | _ => cases hk

/-! ### Runs -/

variable [DecidableEq ι] {start c : Config ι} {i : ι}

/-- A queued job, which one call runs and another asks to be cancelled. -/
def queuedJob : PlatformJob where
  idempotencyKey := none
  status := .queued
  attempt := 1
  maxAttempts := 1
  pausable := false
  resumable := false
  retryable := false
  hasInput := true
  past := []

def launched : Config Bool where
  store := ⟨[queuedJob], {0}, ∅, ∅⟩
  call
    | true => .launch (queuedJob.handler 0)
    | false => .requestCancel 0

/-- The schedule on which the cancellation comes while the body runs, which ends so. -/
def cancelledMidway (outcome : Outcome) : List (Bool × Answer) :=
  [(true, {}), (true, {}), (true, {}), (false, {}), (false, {}), (false, {}),
    (true, { outcome := outcome }), (true, {}), (true, {}), (true, {})]

end UltraTorrent.Jobs.HandlerEnds
