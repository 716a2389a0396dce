import UltraTorrent.Jobs.HandlerEnds

/-! What becomes of a body that has returned. Recording its success is a change of status like any
other, and when it is refused the handler takes the refusal for a failure of the body. -/
namespace UltraTorrent.Jobs.ReturnedBodies

open Library Library.Interleaving JobStatus PlatformJobService JobPaths HandlerEnds

/-- A failure of the attempt leads to another one. -/
def canRetry (h : Handler) : Bool := h.retryable && h.attempt < h.maxAttempts

/-- The body is running, or is about to be run. -/
def executes : Call → Bool
  | .launch _ | .body _ | .find (.start _) | .update (.start _) => true
  | _ => false

/-- How a job whose body has returned ends. -/
def Ends (cancelRequested : Prop) (st : JobStatus) : Prop :=
  st = completed ∨ st = completedWithWarnings ∨ st = cancelled ∧ cancelRequested

/-- What other calls are about to write to the job changes nothing about the status. -/
def quiet (jobId : ℕ) (st : JobStatus) (k : Call) : Bool :=
  k.pending.all fun change => change.jobId ≠ jobId || change.target = st

variable {ι : Type*}

/-- A success can be recorded when the handler is about to, or a cancel was requested and either
there is an attempt left to be given up, or the job is cancelled for good. -/
def Recordable (c : Config ι) (i : ι) (h : Handler) (warned : Bool) : Prop :=
  c.store.allows (.finishSuccess h warned) = true ∨ h.jobId ∈ c.store.cancelRequested ∧
    (canRetry h = true ∨ c.store.statusOf h.jobId = some cancelled ∧
      ∀ j, j ≠ i → quiet h.jobId cancelled (c.call j) = true)

/-- The success is recordable, a cancellation is allowed, and what is written then is not written
over. -/
def Kept (c : Config ι) (i : ι) : Prop :=
  match c.call i with
  | .find (.finishSuccess h warned) => Recordable c i h warned
  | .find (.markCancelled h) => c.store.allows (.markCancelled h) = true
  | .update (.finishSuccess _ _) | .update (.markCancelled _) => Orderly c i
  | _ => True

instance [Fintype ι] [DecidableEq ι] (c : Config ι) (i : ι) : Decidable (Kept c i) := by
  unfold Kept Recordable
  split <;> infer_instance

def Ended (cancelRequested : Prop) (jobId : ℕ) (c : Config ι) (i : ι) : Prop :=
  ∃ st, Ends cancelRequested st ∧ c.store.statusOf jobId = some st ∧
    ∀ j, j ≠ i → quiet jobId st (c.call j) = true

/-- The stages from a failed attempt to a requested cancellation. -/
def givesUp : Call → Bool
  | .find (.attemptFailed _) | .update (.attemptFailed _) | .find (.retrying _) | .update (.retrying _)
  | .find (.requeued _) | .update (.requeued _) | .delay _ | .find (.markCancelled _) => true
  | _ => false

/-- Where the handler may be once its body has returned. -/
inductive Winding (cancelRequested : Prop) (jobId : ℕ) (c : Config ι) (i : ι) : Prop
  | recording {h : Handler} {warned : Bool} (hcall : c.call i = .update (.finishSuccess h warned))
      (hrow : (c.store.statusOf jobId).isSome = true)
  | givingUp (hcall : givesUp (c.call i) = true) (hflag : jobId ∈ c.store.cancelRequested)
      (hasked : cancelRequested)
  | cancelling {h : Handler} (hcall : c.call i = .update (.markCancelled h))
      (hrow : (c.store.statusOf jobId).isSome = true) (hasked : cancelRequested)
  | refused {h : Handler} (hcall : c.call i = .find (.markFailed h))
      (hstatus : c.store.statusOf jobId = some cancelled) (hasked : cancelRequested)
      (hquiet : ∀ j, j ≠ i → quiet jobId cancelled (c.call j) = true)
  | ended (hcall : isOver (c.call i) = true) (hended : Ended cancelRequested jobId c i)

variable {s s' : Platform} {k k' : Call} {answer : Answer} {change : Change} {jobId : ℕ}
  {st : JobStatus} {asked : Prop}

theorem Ends.isTerminal (h : Ends asked st) : isTerminal st = true := by
  rcases h with rfl | rfl | ⟨rfl, -⟩ <;> rfl

theorem caught_none (h : Handler) : caught h none =
    if canRetry h then .find (.attemptFailed { h with attempt := h.attempt + 1 })
    else .find (.markFailed h) := by
  simp [caught, canRetry, isRetryable]

/-! ### A status that nothing changes -/

/-- Only a write changes a status that is there. -/
theorem statusOf_step (hstatus : s.statusOf jobId = some st) (h : act s k answer = some (s', k')) :
    (∃ change, k = .update change ∧ change.jobId = jobId ∧ s'.statusOf jobId = some change.target) ∨
      s'.statusOf jobId = some st := by
  rcases jobs_step h with ⟨change, rfl, rfl⟩ | ⟨input, rfl, hs'⟩ | hs'
  · by_cases hid : change.jobId = jobId
    · exact .inl ⟨change, rfl, hid, by rw [statusOf_write, hstatus, Option.map_some, if_pos hid]⟩
    · exact .inr (by rw [statusOf_write, hstatus, Option.map_some, if_neg hid])
  · obtain ⟨job, hjob, -⟩ := Option.map_eq_some_iff.1 hstatus
    rw [Platform.statusOf, hs', List.getElem?_append_left (List.getElem?_eq_some_iff.1 hjob).1]
    exact .inr hstatus
  · rw [Platform.statusOf, hs']
    exact .inr hstatus

theorem quiet_iff : quiet jobId st k = true ↔
    ∀ change, k = .update change → change.jobId = jobId → change.target = st := by
  rw [quiet, Option.all_eq_true]
  constructor
  · intro h change hk hid
    simpa [hid] using h change (pending_eq_some.2 hk)
  · intro h change hchange
    by_cases hid : change.jobId = jobId
    · simp [hid, h change (pending_eq_some.1 hchange) hid]
    · simp [hid]

theorem quiet_step (hterminal : isTerminal st = true) (hstatus : s.statusOf jobId = some st)
    (h : act s k answer = some (s', k')) : quiet jobId st k' = true := by
  refine quiet_iff.2 fun change hk' hid => ?_
  obtain ⟨-, -, hallows⟩ := pending_step h (pending_eq_some.2 hk')
  obtain ⟨st', hst', hallowed⟩ := allows_iff.1 hallows
  rw [hid, hstatus] at hst'
  cases hst'
  exact eq_of_canTransition hterminal hallowed

variable [DecidableEq ι] {start c d : Config ι} {i j : ι}

theorem quiet_update (hterminal : isTerminal st = true) (hstatus : c.store.statusOf jobId = some st)
    (hquiet : ∀ l, l ≠ i → quiet jobId st (c.call l) = true) (hj : j ≠ i)
    (h : act c.store (c.call j) answer = some (s', k')) :
    s'.statusOf jobId = some st ∧
      ∀ l, l ≠ i → quiet jobId st (Function.update c.call j k' l) = true := by
  constructor
  · obtain ⟨change, hk, hid, hs'⟩ | hs' := statusOf_step hstatus h
    · rw [hs', quiet_iff.1 (hquiet j hj) change hk hid]
    · exact hs'
  · intro l hl
    by_cases hlj : l = j
    · rw [hlj, Function.update_self]
      exact quiet_step hterminal hstatus h
    · rw [Function.update_of_ne hlj]
      exact hquiet l hl

/-! ### What the other calls do -/

omit [DecidableEq ι] in
theorem cancelRequested_step (hk : requests jobId k = true) (h : act s k answer = some (s', k'))
    (hasked : jobId ∈ s.cancelRequested) : jobId ∈ s'.cancelRequested := by
  cases k with
  | requestCancel id =>
    unfold act at h
    dsimp only at h
    split_ifs at h <;> cases h
    · exact Finset.mem_insert_of_mem hasked
    · exact hasked
  | requestPause id =>
    unfold act at h
    dsimp only at h
    split_ifs at h <;> cases h <;> exact hasked
  | done => cases h
  | find change | update change | requestCancelIdle id =>
    cases h
    exact hasked
  | _ => cases hk

omit [DecidableEq ι] in
theorem isSome_step (hsome : (s.statusOf jobId).isSome = true) (h : act s k answer = some (s', k')) :
    (s'.statusOf jobId).isSome = true := by
  obtain ⟨st, hst⟩ := Option.isSome_iff_exists.1 hsome
  obtain ⟨change, -, -, hs'⟩ | hs' := statusOf_step hst h <;> rw [hs'] <;> rfl

theorem winding_other (hj : j ≠ i) (hrequests : requests jobId (c.call j) = true)
    (hwinding : Winding asked jobId c i) (h : act c.store (c.call j) answer = some (s', k')) :
    Winding asked jobId ⟨s', Function.update c.call j k'⟩ i := by
  have hsame : Function.update c.call j k' i = c.call i := Function.update_of_ne hj.symm _ _
  cases hwinding with
  | recording hcall hrow => exact .recording (hsame.trans hcall) (isSome_step hrow h)
  | givingUp hcall hflag hasked =>
    exact .givingUp ((congrArg givesUp hsame).trans hcall) (cancelRequested_step hrequests h hflag)
      hasked
  | cancelling hcall hrow hasked => exact .cancelling (hsame.trans hcall) (isSome_step hrow h) hasked
  | refused hcall hstatus hasked hquiet =>
    obtain ⟨hstatus', hquiet'⟩ := quiet_update rfl hstatus hquiet hj h
    exact .refused (hsame.trans hcall) hstatus' hasked hquiet'
  | ended hcall hended =>
    obtain ⟨st, hst, hstatus, hquiet⟩ := hended
    exact .ended ((congrArg isOver hsame).trans hcall)
      ⟨st, hst, quiet_update hst.isTerminal hstatus hquiet hj h⟩

/-! ### What the handler does -/

omit [DecidableEq ι] in
theorem jobId_of_handles (h : handles jobId (.find change) = true) : change.jobId = jobId := by
  simp only [handles, Bool.and_eq_true, decide_eq_true_eq] at h
  exact h.2

theorem ended_of_write (hcall : c.call i = .update change) (hid : change.jobId = jobId)
    (hrow : (c.store.statusOf jobId).isSome = true) (hends : Ends asked change.target)
    (horderly : Orderly c i) (k' : Call) :
    Ended asked jobId ⟨c.store.write change, Function.update c.call i k'⟩ i := by
  obtain ⟨st, hst⟩ := Option.isSome_iff_exists.1 hrow
  refine ⟨change.target, hends, ?_, fun j hj => quiet_iff.2 fun other hother hother_id => ?_⟩
  · dsimp only
    rw [statusOf_write, hst, Option.map_some, if_pos hid]
  · dsimp only at hother
    rw [Function.update_of_ne hj] at hother
    have hforbids := horderly j hj
    rw [hcall, hother] at hforbids
    simp only [forbids, Call.pending, hid, hother_id, decide_true, Bool.true_and,
      Bool.not_eq_false'] at hforbids
    exact eq_of_canTransition hends.isTerminal hforbids

/-- The handler itself writes nothing when it leaves the row alone. -/
theorem quiet_own (hstatus : c.store.statusOf jobId = some st) (hcall : ∀ change, c.call i ≠ .update change)
    (hquiet : ∀ l, l ≠ i → quiet jobId st (c.call l) = true)
    (h : act c.store (c.call i) answer = some (s', k')) :
    s'.statusOf jobId = some st ∧
      ∀ l, l ≠ i → quiet jobId st (Function.update c.call i k' l) = true := by
  constructor
  · obtain ⟨change, hk, -⟩ | hs' := statusOf_step hstatus h
    · exact absurd hk (hcall change)
    · exact hs'
  · intro l hl
    rw [Function.update_of_ne hl]
    exact hquiet l hl

omit [DecidableEq ι] in
theorem givesUp_step (hk : givesUp k = true) (hhandles : handles jobId k = true)
    (hflag : jobId ∈ s.cancelRequested)
    (hallows : ∀ h, k = .find (.markCancelled h) → s.allows (.markCancelled h) = true)
    (h : act s k answer = some (s', k')) : jobId ∈ s'.cancelRequested ∧
      (givesUp k' = true ∨
        ∃ handler, k' = .update (.markCancelled handler) ∧ (s'.statusOf jobId).isSome = true) := by
  cases k with
  | find change =>
    obtain ⟨rfl, hcases⟩ := find_step h
    refine ⟨hflag, ?_⟩
    cases change with
    | markCancelled handler =>
      have hid : handler.jobId = jobId := jobId_of_handles hhandles
      obtain ⟨-, rfl⟩ | ⟨hrefused, -⟩ := hcases
      · obtain ⟨st, hst, -⟩ := allows_iff.1 (hallows handler rfl)
        rw [Change.jobId, hid] at hst
        exact .inr ⟨handler, rfl, by rw [hst]; rfl⟩
      · rw [hallows handler rfl] at hrefused
        cases hrefused
    | attemptFailed | retrying | requeued =>
      obtain ⟨-, rfl⟩ | ⟨-, rfl⟩ := hcases <;> exact .inl rfl
    | _ => cases hk
  | update change =>
    cases h
    refine ⟨hflag, .inl ?_⟩
    cases change with
    | attemptFailed | retrying | requeued => rfl
    | _ => cases hk
  | delay handler =>
    have hid : handler.jobId = jobId := of_decide_eq_true (by simpa [handles] using hhandles)
    cases h
    rw [hid, if_pos hflag]
    exact ⟨hflag, .inl rfl⟩
  | _ => cases hk

omit [DecidableEq ι] in
theorem isOver_step (hk : isOver k = true) (h : act s k answer = some (s', k')) :
    isOver k' = true ∧ ∀ change, k ≠ .update change := by
  cases k with
  | leave id =>
    cases h
    exact ⟨rfl, nofun⟩
  | done => cases h
  | _ => cases hk

theorem winding_own (hhandles : handles jobId (c.call i) = true) (hkept : Kept c i)
    (hwinding : Winding asked jobId c i) (h : act c.store (c.call i) answer = some (s', k')) :
    Winding asked jobId ⟨s', Function.update c.call i k'⟩ i := by
  have hself : Function.update c.call i k' i = k' := Function.update_self _ _ _
  cases hwinding with
  | @recording handler warned hcall hrow =>
    rw [hcall] at hhandles
    have hid : handler.jobId = jobId := jobId_of_handles hhandles
    have horderly : Orderly c i := by simpa [Kept, hcall] using hkept
    have hends : Ends asked (Change.finishSuccess handler warned).target := by
      cases warned
      · exact .inl rfl
      · exact .inr (.inl rfl)
    rw [hcall] at h
    cases h
    exact .ended (by simp [Change.made, isOver]) (ended_of_write hcall hid hrow hends horderly _)
  | @cancelling handler hcall hrow hasked =>
    rw [hcall] at hhandles
    have hid : handler.jobId = jobId := jobId_of_handles hhandles
    have horderly : Orderly c i := by simpa [Kept, hcall] using hkept
    rw [hcall] at h
    cases h
    exact .ended (by simp [Change.made, isOver])
      (ended_of_write hcall hid hrow (.inr (.inr ⟨rfl, hasked⟩)) horderly _)
  | @refused handler hcall hstatus hasked hquiet =>
    rw [hcall] at hhandles
    have hid : handler.jobId = jobId := jobId_of_handles hhandles
    have hown := quiet_own hstatus (by simp [hcall]) hquiet h
    rw [hcall] at h
    obtain ⟨-, ⟨hallows, -⟩ | ⟨-, rfl⟩⟩ := find_step h
    · obtain ⟨st, hst, hallowed⟩ := allows_iff.1 hallows
      rw [Change.jobId, hid, hstatus] at hst
      cases hst
      cases hallowed
    · exact .ended ((congrArg isOver hself).trans rfl)
        ⟨cancelled, .inr (.inr ⟨rfl, hasked⟩), hown⟩
  | ended hcall hended =>
    obtain ⟨st, hst, hstatus, hquiet⟩ := hended
    obtain ⟨hover, hfree⟩ := isOver_step hcall h
    exact .ended ((congrArg isOver hself).trans hover) ⟨st, hst, quiet_own hstatus hfree hquiet h⟩
  | givingUp hcall hflag hasked =>
    have hallows : ∀ h, c.call i = .find (.markCancelled h) →
        c.store.allows (.markCancelled h) = true := by
      intro h hi
      simpa [Kept, hi] using hkept
    obtain ⟨hflag', hnext | ⟨handler, hnext, hrow⟩⟩ := givesUp_step hcall hhandles hflag hallows h
    · exact .givingUp ((congrArg givesUp hself).trans hnext) hflag' hasked
    · exact .cancelling (hself.trans hnext) hrow hasked

theorem winding_of_returned {handler : Handler} {warned : Bool}
    (hcall : c.call i = .find (.finishSuccess handler warned)) (hid : handler.jobId = jobId)
    (hkept : Kept c i) (h : act c.store (c.call i) answer = some (s', k')) :
    Winding (jobId ∈ c.store.cancelRequested) jobId ⟨s', Function.update c.call i k'⟩ i := by
  have hself : Function.update c.call i k' i = k' := Function.update_self _ _ _
  have hrecordable : Recordable c i handler warned := by simpa [Kept, hcall] using hkept
  rw [hcall] at h
  obtain ⟨rfl, ⟨hallows, rfl⟩ | ⟨hrefused, rfl⟩⟩ := find_step h
  · obtain ⟨st, hst, -⟩ := allows_iff.1 hallows
    rw [Change.jobId, hid] at hst
    exact .recording hself (by dsimp only; rw [hst]; rfl)
  · obtain hallows | ⟨hflag, hretry⟩ := hrecordable
    · rw [hallows] at hrefused
      cases hrefused
    · rw [hid] at hflag hretry
      rw [Change.refused, caught_none] at hself ⊢
      by_cases hcan : canRetry handler = true
      · rw [if_pos hcan] at hself ⊢
        exact .givingUp ((congrArg givesUp hself).trans rfl) hflag hflag
      · obtain ⟨hstatus, hquiet⟩ := hretry.resolve_left hcan
        rw [if_neg hcan] at hself ⊢
        refine .refused hself hstatus hflag fun l hl => ?_
        dsimp only
        rw [Function.update_of_ne hl]
        exact hquiet l hl

/-! ### Runs -/

omit [DecidableEq ι] in
theorem executes_of_winding (h : Winding asked jobId c i) : executes (c.call i) = false := by
  cases h with
  | recording hcall | cancelling hcall | refused hcall => rw [hcall]; rfl
  | givingUp hcall | ended hcall =>
    cases hi : c.call i with
    | find change | update change => cases change <;> simp_all [givesUp, isOver, executes]
    | _ => simp_all [givesUp, isOver, executes]

omit [DecidableEq ι] in
theorem ended_of_winding (h : Winding asked jobId c i) (hover : isOver (c.call i) = true) :
    Ended asked jobId c i := by
  cases h with
  | recording hcall | cancelling hcall | refused hcall =>
    rw [hcall] at hover
    cases hover
  | ended _ hended => exact hended
  | givingUp hcall =>
    cases hi : c.call i with
    | leave | done => rw [hi] at hcall; cases hcall
    | _ => rw [hi] at hover; cases hover

/-- The calls stay what they are: the handler of the job, and requests about it. -/
def Stages (jobId : ℕ) (c : Config ι) (i : ι) : Prop :=
  handles jobId (c.call i) = true ∧ ∀ j, j ≠ i → requests jobId (c.call j) = true

theorem Stages.step (hstages : Stages jobId c i) (h : act c.store (c.call j) answer = some (s', k')) :
    Stages jobId ⟨s', Function.update c.call j k'⟩ i := by
  obtain ⟨hhandles, hrequests⟩ := hstages
  by_cases hj : j = i
  · subst hj
    refine ⟨?_, fun l hl => ?_⟩ <;> dsimp only
    · rw [Function.update_self]
      exact handles_step hhandles h
    · rw [Function.update_of_ne hl]
      exact hrequests l hl
  · refine ⟨?_, fun l hl => ?_⟩ <;> dsimp only
    · rw [Function.update_of_ne (Ne.symm hj)]
      exact hhandles
    · by_cases hlj : l = j
      · rw [hlj, Function.update_self]
        exact requests_step (hrequests j hj) h
      · rw [Function.update_of_ne hlj]
        exact hrequests l hl

theorem winding_step (hstages : Stages jobId c i) (hkept : Kept c j) (hwinding : Winding asked jobId c i)
    (h : act c.store (c.call j) answer = some (s', k')) :
    Winding asked jobId ⟨s', Function.update c.call j k'⟩ i := by
  by_cases hj : j = i
  · subst hj
    exact winding_own hstages.1 hkept hwinding h
  · exact winding_other hj (hstages.2 j hj) hwinding h

/-- Once a body has returned, in a run that meets the condition, the handler does not execute it
again, and leaves the job completed, or cancelled as was requested by then. -/
theorem ends_of_kept {h : Handler} (hhandler : start.call i = .launch h)
    (hrequests : ∀ j, j ≠ i → requests h.jobId (start.call j) = true) (hrun : Run act Kept start c)
    {handler : Handler} {warned : Bool} (hreturned : c.call i = .find (.finishSuccess handler warned))
    (hkept : Kept c i) {c' : Config ι} (hstep : step act c i answer = some c')
    (hrest : Run act Kept c' d) : executes (d.call i) = false ∧
      (isOver (d.call i) = true → ∃ st, d.store.statusOf h.jobId = some st ∧
        Ends (h.jobId ∈ c.store.cancelRequested) st) := by
  have hstages : Stages h.jobId c i :=
    hrun.invariant (P := fun c => Stages h.jobId c i) ⟨by simp [hhandler, handles], hrequests⟩
      fun c j answer s' k' hstages _ hact => hstages.step hact
  obtain ⟨s', k', hact, rfl⟩ := step_eq_some.1 hstep
  have hid : handler.jobId = h.jobId := by
    have hhandles := hstages.1
    rw [hreturned] at hhandles
    exact jobId_of_handles hhandles
  have hinv : Stages h.jobId d i ∧ Winding (h.jobId ∈ c.store.cancelRequested) h.jobId d i := by
    refine hrest.invariant (P := fun d => Stages h.jobId d i ∧
      Winding (h.jobId ∈ c.store.cancelRequested) h.jobId d i)
      ⟨hstages.step hact, winding_of_returned hreturned hid hkept hact⟩ ?_
    rintro d j answer s' k' ⟨hstages, hwinding⟩ hkept hact
    exact ⟨hstages.step hact, winding_step hstages hkept hwinding hact⟩
  refine ⟨executes_of_winding hinv.2, fun hover => ?_⟩
  obtain ⟨st, hends, hstatus, -⟩ := ended_of_winding hinv.2 hover
  exact ⟨st, hstatus, hends⟩

/-- A queued job with an attempt to spare, which may be paused. -/
def spareJob : PlatformJob where
  idempotencyKey := none
  status := .queued
  attempt := 1
  maxAttempts := 2
  pausable := true
  resumable := false
  retryable := true
  hasInput := true
  past := []

def spare (request : Call) : Config Bool where
  store := ⟨[spareJob], {0}, ∅, ∅⟩
  call
    | true => .launch (spareJob.handler 0)
    | false => request

/-- The request is made while the body runs, which then returns. -/
def requestedMidway : List (Bool × Answer) :=
  [(true, {}), (true, {}), (true, {}), (false, {}), (false, {}), (false, {}), (true, {})]

/-- A cancellation is heeded in the place of the next attempt. -/
theorem spare_cancelled : ∃ c c' d, Run act Kept (spare (.requestCancel 0)) c ∧
    step act c true {} = some c' ∧ Run act Kept c' d ∧ executes (d.call true) = false ∧
      ∃ st, d.store.statusOf 0 = some st ∧ Ends (0 ∈ c.store.cancelRequested) st := by
  obtain ⟨c, hrun, hc⟩ := run_of_exec_any act Kept (spare (.requestCancel 0)) requestedMidway
    (fun c => c.call true = .find (.finishSuccess (spareJob.handler 0) false) && decide (Kept c true) &&
      (step act c true {}).any fun c' => (exec act Kept c' (List.replicate 7 (true, {}))).any
        fun d => d.call true = .done) (by decide)
  simp only [Bool.and_eq_true, decide_eq_true_eq, Option.any_eq_true] at hc
  obtain ⟨⟨hreturned, hkept⟩, c', hstep, d, hexec, hdone⟩ := hc
  have hrest := run_of_exec hexec
  obtain ⟨hnot, hends⟩ := @ends_of_kept Bool {} _ _ c d true (spareJob.handler 0) rfl (by decide) hrun
    _ _ hreturned hkept c' hstep hrest
  exact ⟨c, c', d, hrun, hstep, hrest, hnot, hends (by rw [hdone]; rfl)⟩

/-- A pause that comes too late for the body has its success counted as a failure, and the body is
run again. -/
theorem spare_executed_again : ¬ ∀ c d : Config Bool,
    Run act (fun _ _ => True) (spare (.requestPause 0)) c →
    c.call true = .find (.finishSuccess (spareJob.handler 0) false) →
    Run act (fun _ _ => True) c d → executes (d.call true) = false ∧
      (isOver (d.call true) = true → ∃ st, d.store.statusOf 0 = some st ∧
        Ends (0 ∈ c.store.cancelRequested) st) := by
  intro h
  obtain ⟨c, hrun, hc⟩ := run_of_exec_any act (fun _ _ => True) (spare (.requestPause 0)) requestedMidway
    (fun c => c.call true = .find (.finishSuccess (spareJob.handler 0) false) &&
      (exec act (fun _ _ => True) c (List.replicate 8 (true, {}))).any fun d => executes (d.call true))
    (by decide)
  simp only [Bool.and_eq_true, decide_eq_true_eq, Option.any_eq_true] at hc
  obtain ⟨hreturned, d, hexec, hexecutes⟩ := hc
  have hnot := (h c d hrun hreturned (run_of_exec hexec)).1
  rw [hexecutes] at hnot
  cases hnot

end UltraTorrent.Jobs.ReturnedBodies
