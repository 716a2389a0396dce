import UltraTorrent.Workflows.SubworkflowNesting

/-! Whether an execution that has ended stays ended, with any number of calls on it at once. A run,
a cancellation, an attempt to resume and the end of a child each write the status over whatever
is there; the transitions of `ExecutionSM` are asked by none of them. -/
namespace UltraTorrent.Workflows.SettledExecutions

open Library.EcmaScript Library.Interleaving GraphTypes ExecutionPlanner WorkflowStatus
  WorkflowExecution LoopInvariant DispatchRounds SubworkflowNesting

/-! ### Calls on several executions -/

/-- A call, the execution it works on, and the status of it that it last read or wrote, which the
code does not keep. -/
structure Job where
  execution : ℕ
  call : Call
  seen : Option WorkflowExecutionStatus

/-- The call reads the status, or writes it. -/
def looks : Call → Bool
  | .idle | .booting | .resume _ | .unpark | .load | .setRunning _ | .finalize _ | .flag
  | .loop _ .check | .loop _ (.park _) => true
  | _ => false

def writes : Call → Bool
  | .unpark | .setRunning _ | .finalize _ | .flag | .loop _ (.park _) => true
  | _ => false

def ended : Call → Option WorkflowExecutionStatus
  | .finalize outcome => some outcome
  | _ => none

/-- The port that a child fires in its parent. -/
def endPort : WorkflowExecutionStatus → String
  | .completed | .completedWithWarnings => "out"
  | _ => "failure"

/-- What the input of an execution names as its parent; executions are known by their place. -/
def reportsTo (s : List ExecutionRow) (p : Pinned) : Option (ℕ × String) :=
  match p.inputContext.lookup "__parentExecutionId", p.inputContext.lookup "__parentNodeId" with
  | some (.string id), some (.string nodeId) =>
    if nodeId = "" then none
    else ((List.range s.length).find? fun i => toString i = id).map fun i => (i, nodeId)
  | _, _ => none

def statusOf (s : List ExecutionRow) (i : ℕ) : Option WorkflowExecutionStatus :=
  s[i]?.map (·.execution.status)

/-- The last thing `finalize` does is to resume the parent. -/
def Job.next (k : Job) (s : List ExecutionRow) (call : Call) : Job :=
  match ended k.call, s[k.execution]?.bind fun row => reportsTo s row.pinned with
  | some outcome, some (parent, nodeId) => ⟨parent, .advance nodeId (endPort outcome), none⟩
  | _, _ => ⟨k.execution, call, if looks k.call then statusOf s k.execution else k.seen⟩

/-- A child's end comes from its own run only. -/
def fromOutside : Call → Answer → Bool
  | .idle, .childEnded _ _ => false
  | _, _ => true

def workOn (ws : PublishedWorkflows) (rt : Runtime) (s : List ExecutionRow) (k : Job)
    (answer : Answer) : Option (List ExecutionRow × Job) :=
  if fromOutside k.call answer then
    (work ws rt s ⟨k.execution, k.call⟩ (some answer)).map fun next =>
      (next.1, k.next next.1 next.2.call)
  else none

abbrev Config := Library.Interleaving.Config (ℕ × ℕ) (List ExecutionRow) Job

/-- Executions that are started from outside. Each row there comes to be has the run that `start`
leaves behind, and any number of calls besides. -/
def launched (ws : PublishedWorkflows) (requests : List (String × List (String × Value))) : Config where
  store := requests.filterMap fun r => start ws r.1 r.2 none 0
  call i := ⟨i.1, if i.2 = 0 then .load else .idle, none⟩

/-! ### What is asked of them -/

def isSettled (status : WorkflowExecutionStatus) : Bool :=
  status ∈ [.completed, .completedWithWarnings, .failed, .cancelled]

/-- Every step writes what the state machine allows, and what has ended stays as it is and
dispatches nothing more. -/
structure Absorbing (act : List ExecutionRow → Job → Answer → Option (List ExecutionRow × Job))
    (c : Config) : Prop where
  allowed : ∀ i answer c', step act c i answer = some c' → ∀ (e : ℕ) (row : ExecutionRow),
    c.store[e]? = some row → ∃ row', c'.store[e]? = some row' ∧
      row.execution.status.canTransition row'.execution.status = true
  stays : ∀ c', Run act (fun _ _ => True) c c' → ∀ (e : ℕ) (row : ExecutionRow),
    c.store[e]? = some row → isSettled row.execution.status = true → ∃ row', c'.store[e]? = some row' ∧
      row'.execution.status = row.execution.status ∧ row'.execution.calls = row.execution.calls

/-- A cancellation finds the execution running, no run begins on one that is being cancelled, and
the status is written while it is still the one that was seen; a child's end has seen none, and
finds its parent parked. -/
def inOrder (status : WorkflowExecutionStatus) (k : Call) (seen : Option WorkflowExecutionStatus)
    (answer : Answer) : Bool :=
  match k, answer with
  | .idle, .cancel => decide (status ∈ [.running, .cancelling])
  | .load, _ => decide (status ≠ .cancelling)
  | k, _ => !writes k || seen.elim status.isWaiting fun seen => decide (status = seen)

def orderly (s : List ExecutionRow) (k : Job) (answer : Answer) : Bool :=
  (statusOf s k.execution).all fun status => inOrder status k.call k.seen answer

/-! ### One call -/

def inLoop : Call → Bool
  | .loop _ (.start _) => false
  | .loop _ _ => true
  | _ => false

/-- From the read of the row to the last write of a run. -/
def drives : Call → Bool
  | .load | .loadStates _ | .setRunning _ | .finalize _ => true
  | k => inLoop k

def isLive (status : WorkflowExecutionStatus) : Bool :=
  status ∈ [.queued, .running, .cancelling]

/-- What a call has seen by the time it has come so far. -/
def Knows (seen : Option WorkflowExecutionStatus) : Call → Prop
  | .booting | .interrupting => False
  | .finding _ | .advance _ _ | .unpark | .loop _ (.start _) => ∀ status ∈ seen, status.isWaiting = true
  | .loadStates _ | .setRunning _ => seen = some .queued ∨ seen = some .running
  | .loop _ _ => seen = some .running
  | .finalize outcome => (seen = some .running ∧ outcome ∈ [.completed, .failed]) ∨
      (seen = some .cancelling ∧ outcome = .cancelled)
  | .flag => seen = some .running ∨ seen = some .cancelling
  | _ => True

/-- What holds of a call and of the execution it works on. -/
structure Fit (status : WorkflowExecutionStatus) (k : Call) (seen : Option WorkflowExecutionStatus) :
    Prop where
  knows : Knows seen k
  live : drives k = true → isLive status = true
  begun : inLoop k = true → status ≠ .queued

variable {rt : Runtime} {p : Pinned} {s s' : Execution} {k k' l : Call} {answer : Answer} {m : Loop}
  {seen seen' : Option WorkflowExecutionStatus} {status : WorkflowExecutionStatus}

theorem knows_of_inLoop (h : inLoop k = true) : Knows seen k ↔ seen = some .running := by
  cases k with
  | loop m stage =>
    cases stage with
    | start _ => cases h
    | _ => exact Iff.rfl
  | _ => cases h

theorem drives_of_inLoop (h : inLoop k = true) : drives k = true := by
  cases k with
  | loop m stage => exact h
  | _ => cases h

theorem inLoop_of_routine (h : isRoutine k = true) : inLoop k = true := by
  cases k with
  | loop m stage => cases stage <;> first | rfl | cases h
  | _ => cases h

theorem inLoop_visit {todo : List WorkflowNode} : inLoop (visit rt p s m todo).2 = true := by
  cases todo with
  | nil => exact inLoop_of_routine isRoutine_again
  | cons node todo =>
    rcases process_cases rt p m node todo with h | h | ⟨outcome, h⟩
    all_goals
      simp only [visit, h]
      rfl

theorem inLoop_retry {g : WorkflowGraph} {node : WorkflowNode} {attempt : ℕ} {ok : Bool}
    {todo : List WorkflowNode} : inLoop (.loop m (retry g node attempt ok todo)) = true := by
  rcases retry_cases g node attempt ok todo with ⟨h, -⟩ | ⟨outcome, h⟩ <;> rw [h] <;> rfl

theorem inLoop_afterWrite {job : Persist} : inLoop (afterWrite m job) = true := by
  rcases afterWrite_cases m job with h | h | h
  · exact inLoop_of_routine h
  · rw [h]
    rfl
  · rw [h]
    rfl

theorem status_visit {todo : List WorkflowNode} : (visit rt p s m todo).1.status = s.status := by
  cases todo <;> rfl

theorem status_park {node : WorkflowNode} {now : Instant} :
    (s.park p node now).status.isWaiting = true ∧
      WorkflowExecutionStatus.running.canTransition (s.park p node now).status = true := by
  unfold Execution.park
  dsimp only
  split <;> exact ⟨rfl, rfl⟩

theorem running_of_live (hlive : isLive status = true) (hqueued : status ≠ .queued)
    (hcancelling : status ≠ .cancelling) : status = .running := by
  simp only [isLive, List.mem_cons, List.not_mem_nil, or_false, decide_eq_true_eq] at hlive
  rcases hlive with hlive | hlive | hlive
  · exact absurd hlive hqueued
  · exact hlive
  · exact absurd hlive hcancelling

theorem canTransition_running (h : status.isWaiting = true) : status.canTransition .running = true := by
  cases status <;> first | rfl | cases h

theorem canTransition_self : status.canTransition status = true := by
  simp [WorkflowExecutionStatus.canTransition]

/-- A loop goes on with the status as it is, except where it looks at it, parks or ends. -/
theorem inLoop_step {stage : Stage} (hstage : inLoop (.loop m stage) = true)
    (hlooks : looks (.loop m stage) = false) (h : act rt p s (.loop m stage) answer = some (s', k')) :
    s'.status = s.status ∧ (inLoop k' = true ∨ ∃ failed, stage = .finish failed ∧
      k' = .finalize (if failed then .failed else .completed)) := by
  cases stage with
  | check | park _ => cases hlooks
  | start _ => cases hstage
  | prune view todo =>
    cases h
    exact ⟨rfl, .inl (inLoop_of_routine isRoutine_prune)⟩
  | process todo =>
    have hvisit : visit rt p s m todo = (s', k') := Option.some.inj h
    exact ⟨congrArg (fun next => next.1.status) hvisit ▸ status_visit,
      .inl (congrArg (fun next => inLoop next.2) hvisit ▸ inLoop_visit)⟩
  | calling node attempt todo =>
    obtain ⟨ok, -, h⟩ := Option.map_eq_some_iff.1 h
    cases h
    exact ⟨rfl, .inl inLoop_retry⟩
  | write job existing =>
    cases h
    exact ⟨rfl, .inl inLoop_afterWrite⟩
  | finish failed =>
    cases h
    exact ⟨rfl, .inr ⟨failed, rfl, rfl⟩⟩
  | _ =>
    cases h
    exact ⟨rfl, .inl rfl⟩

theorem Fit.of_inLoop (hcall : inLoop k = true) (hlive : isLive status = true)
    (hbegun : status ≠ .queued) : Fit status k (some .running) where
  knows := (knows_of_inLoop hcall).2 rfl
  live _ := hlive
  begun _ := hbegun

theorem Fit.of_quiet (hknows : Knows seen k) (hdrives : drives k = false) : Fit status k seen where
  knows := hknows
  live h := by rw [hdrives] at h; cases h
  begun h := by rw [drives_of_inLoop h] at hdrives; cases hdrives

theorem Fit.of_drives (hknows : Knows seen k) (hlive : isLive status = true)
    (houtside : inLoop k = false) : Fit status k seen where
  knows := hknows
  live _ := hlive
  begun h := by rw [houtside] at h; cases h

theorem seen_of_writes (horder : inOrder s.status k seen answer = true) (hwrites : writes k = true) :
    seen.elim s.status.isWaiting (fun seen => decide (s.status = seen)) = true := by
  cases k with
  | unpark | setRunning _ | finalize _ | flag => exact horder
  | loop m stage =>
    cases stage with
    | park node => exact horder
    | _ => cases hwrites
  | _ => cases hwrites

theorem status_of_writes (horder : inOrder s.status k (some status) answer = true)
    (hwrites : writes k = true) : s.status = status :=
  of_decide_eq_true (seen_of_writes horder hwrites)

theorem begins_with (horder : inOrder s.status .idle seen answer = true)
    (hout : fromOutside .idle answer = true) (h : act rt p s .idle answer = some (s', k')) :
    asks k' = true ∨ (k' = .flag ∧ (s.status = .running ∨ s.status = .cancelling)) := by
  rcases (begin_cases h).2 with hasks | ⟨nodeId, port, rfl, -⟩ | ⟨rfl, rfl⟩
  · exact .inl hasks
  · cases hout
  · have hrunning : s.status = .running ∨ s.status = .cancelling := by
      simpa [inOrder] using horder
    refine .inr ⟨?_, hrunning⟩
    rcases hrunning with hrunning | hrunning <;> rw [hrunning] <;> rfl

theorem knows_of_asks (h : asks k = true) : Knows seen k := by
  cases k with
  | woken _ | deciding _ _ | expiring | resume _ => trivial
  | _ => cases h

theorem drives_of_asks (h : asks k = true) : drives k = false := by
  cases k with
  | woken _ | deciding _ _ | expiring | resume _ => rfl
  | _ => cases h

theorem own_check (hlive : isLive s.status = true) (hbegun : s.status ≠ .queued)
    (h : act rt p s (.loop m .check) answer = some (s', k')) :
    Fit s'.status k' (some s'.status) ∧ s.status.canTransition s'.status = true := by
  rw [act, actStage] at h
  split_ifs at h with hcancelling <;> cases h
  · refine ⟨.of_drives ?_ hlive rfl, canTransition_self⟩
    exact .inr ⟨congrArg some hcancelling, rfl⟩
  · refine ⟨?_, canTransition_self⟩
    rw [running_of_live hlive hbegun hcancelling]
    exact .of_inLoop rfl rfl fun hqueued => by cases hqueued

theorem own_park {node : WorkflowNode} (hrunning : s.status = .running)
    (h : act rt p s (.loop m (.park node)) answer = some (s', k')) :
    Fit s'.status k' (some s'.status) ∧ s.status.canTransition s'.status = true := by
  obtain ⟨now, -, h⟩ := Option.map_eq_some_iff.1 h
  cases h
  have hpark : (s.park p node now).status.isWaiting = true ∧
      WorkflowExecutionStatus.running.canTransition (s.park p node now).status = true :=
    status_park
  have hknown : ∀ status ∈ some (s.park p node now).status, status.isWaiting = true := by
    intro status hstatus
    rw [← Option.mem_some.1 hstatus]
    exact hpark.1
  rw [hrunning]
  refine ⟨?_, hpark.2⟩
  unfold afterPark
  split_ifs
  · exact .of_quiet hknown rfl
  · exact .of_quiet hknown rfl
  · exact .of_quiet trivial rfl

theorem own_loop {stage : Stage} (hloop : inLoop (.loop m stage) = true)
    (hfit : Fit s.status (.loop m stage) seen)
    (horder : inOrder s.status (.loop m stage) seen answer = true)
    (h : act rt p s (.loop m stage) answer = some (s', k')) :
    Fit s'.status k' (if looks (.loop m stage) then some s'.status else seen) ∧
      s.status.canTransition s'.status = true := by
  have hlive := hfit.live hloop
  have hbegun := hfit.begun hloop
  have hseen : seen = some .running := (knows_of_inLoop hloop).1 hfit.knows
  subst hseen
  cases hlooks : looks (.loop m stage) with
  | false =>
    obtain ⟨hstatus, hnext⟩ := inLoop_step hloop hlooks h
    rw [hstatus, if_neg Bool.false_ne_true]
    refine ⟨?_, canTransition_self⟩
    rcases hnext with hnext | ⟨failed, -, rfl⟩
    · exact .of_inLoop hnext hlive hbegun
    · refine .of_drives (.inl ⟨rfl, ?_⟩) hlive rfl
      cases failed <;> simp
  | true =>
    rw [if_pos rfl]
    cases stage with
    | check => exact own_check hlive hbegun h
    | park node => exact own_park (status_of_writes horder rfl) h
    | _ => cases hlooks

theorem Fit.own (hfit : Fit s.status k seen) (horder : inOrder s.status k seen answer = true)
    (hout : fromOutside k answer = true) (h : act rt p s k answer = some (s', k')) :
    Fit s'.status k' (if looks k then some s'.status else seen) ∧
      s.status.canTransition s'.status = true := by
  cases k with
  | idle =>
    rw [begin_fst h]
    refine ⟨?_, canTransition_self⟩
    rcases begins_with horder hout h with hasks | ⟨rfl, hrunning⟩
    · exact .of_quiet (knows_of_asks hasks) (drives_of_asks hasks)
    · exact .of_quiet (hrunning.imp (congrArg some) (congrArg some)) rfl
  | booting | interrupting => exact hfit.knows.elim
  | woken eventKey =>
    cases h
    refine ⟨.of_quiet ?_ ?_, canTransition_self⟩ <;> split_ifs <;> trivial
  | deciding _ _ | expiring =>
    cases h
    exact ⟨.of_quiet trivial rfl, canTransition_self⟩
  | resume port =>
    cases h
    refine ⟨?_, canTransition_self⟩
    show Fit s.status (if s.status.isWaiting then .finding port else .idle) (some s.status)
    split_ifs with hwaiting
    · exact .of_quiet (fun status hstatus => Option.mem_some.1 hstatus ▸ hwaiting) rfl
    · exact .of_quiet trivial rfl
  | finding port =>
    cases h
    refine ⟨?_, canTransition_self⟩
    cases findWaiting s.nodes with
    | none => exact .of_quiet trivial rfl
    | some id => exact .of_quiet hfit.knows rfl
  | advance nodeId port =>
    cases h
    exact ⟨.of_quiet hfit.knows rfl, canTransition_self⟩
  | unpark =>
    have hwaiting : s.status.isWaiting = true := by
      cases seen with
      | none => exact seen_of_writes horder rfl
      | some status => exact status_of_writes horder rfl ▸ hfit.knows status rfl
    cases h
    exact ⟨.of_drives trivial rfl rfl, canTransition_running hwaiting⟩
  | load =>
    have hlive := hfit.live rfl
    have hcancelling : s.status ≠ .cancelling := of_decide_eq_true horder
    cases h
    refine ⟨?_, canTransition_self⟩
    show Fit s.status (if s.status.isActive then .loadStates s.vars else .idle) (some s.status)
    split_ifs
    · refine .of_drives ?_ hlive rfl
      by_cases hqueued : s.status = .queued
      · exact .inl (congrArg some hqueued)
      · exact .inr (congrArg some (running_of_live hlive hqueued hcancelling))
    · exact .of_quiet trivial rfl
  | loadStates saved =>
    obtain ⟨grant, -, h⟩ := Option.map_eq_some_iff.1 h
    cases h
    exact ⟨.of_drives hfit.knows (hfit.live rfl) rfl, canTransition_self⟩
  | setRunning l =>
    cases h
    refine ⟨.of_inLoop rfl rfl (fun hqueued => by cases hqueued), ?_⟩
    rcases hfit.knows with rfl | rfl <;> rw [status_of_writes horder rfl] <;> rfl
  | loop m stage =>
    by_cases hloop : inLoop (.loop m stage) = true
    · exact own_loop hloop hfit horder h
    · cases stage with
      | start node =>
        obtain ⟨ok, -, h⟩ := Option.map_eq_some_iff.1 h
        cases h
        refine ⟨?_, canTransition_self⟩
        cases ok
        · exact .of_quiet hfit.knows rfl
        · exact .of_quiet trivial rfl
      | _ => exact absurd rfl hloop
  | finalize outcome =>
    cases h
    refine ⟨.of_quiet trivial rfl, ?_⟩
    rcases hfit.knows with ⟨rfl, houtcome⟩ | ⟨rfl, rfl⟩ <;> rw [status_of_writes horder rfl]
    · simp only [List.mem_cons, List.not_mem_nil, or_false] at houtcome
      rcases houtcome with rfl | rfl <;> rfl
    · rfl
  | flag =>
    cases h
    refine ⟨.of_quiet trivial rfl, ?_⟩
    rcases hfit.knows with rfl | rfl <;> rw [status_of_writes horder rfl] <;> rfl

theorem aside_step (hfit : Fit s.status k seen) (horder : inOrder s.status k seen answer = true)
    (hout : fromOutside k answer = true) (hdrives : drives k = false)
    (h : act rt p s k answer = some (s', k')) :
    s.status.isWaiting = true ∨
      drives k' = false ∧ (s'.status = s.status ∨ s'.status = .cancelling) := by
  cases k with
  | idle =>
    rw [begin_fst h]
    refine .inr ⟨?_, .inl rfl⟩
    rcases begins_with horder hout h with hasks | ⟨rfl, -⟩
    · exact drives_of_asks hasks
    · rfl
  | booting | interrupting => exact hfit.knows.elim
  | woken _ | resume _ =>
    cases h
    refine .inr ⟨?_, .inl rfl⟩
    split_ifs <;> rfl
  | deciding _ _ | expiring | advance _ _ =>
    cases h
    exact .inr ⟨rfl, .inl rfl⟩
  | finding port =>
    cases h
    refine .inr ⟨?_, .inl rfl⟩
    cases findWaiting s.nodes <;> rfl
  | unpark =>
    refine .inl ?_
    cases seen with
    | none => exact seen_of_writes horder rfl
    | some status => exact status_of_writes horder rfl ▸ hfit.knows status rfl
  | load | loadStates _ | setRunning _ | finalize _ => cases hdrives
  | loop m stage =>
    cases stage with
    | start node =>
      obtain ⟨ok, -, h⟩ := Option.map_eq_some_iff.1 h
      cases h
      cases ok <;> exact .inr ⟨rfl, .inl rfl⟩
    | _ => cases hdrives
  | flag =>
    cases h
    exact .inr ⟨rfl, .inr rfl⟩

theorem not_isWaiting_of_live (h : isLive status = true) : status.isWaiting = false := by
  cases status <;> first | rfl | cases h

theorem not_isLive_of_settled (h : isSettled status = true) : isLive status = false := by
  cases status <;> first | rfl | cases h

theorem Fit.other (hfit : Fit s.status k seen) (horder : inOrder s.status k seen answer = true)
    (hout : fromOutside k answer = true) (h : act rt p s k answer = some (s', k'))
    (hother : Fit s.status l seen') (hapart : ¬ (drives k = true ∧ drives l = true)) :
    Fit s'.status l seen' ∧ ¬ (drives k' = true ∧ drives l = true) := by
  by_cases hl : drives l = true
  · have hlive := hother.live hl
    have hk : drives k = false := Bool.eq_false_iff.2 fun hk => hapart ⟨hk, hl⟩
    rcases aside_step hfit horder hout hk h with hwaiting | ⟨hk', hstatus⟩
    · rw [not_isWaiting_of_live hlive] at hwaiting
      cases hwaiting
    · refine ⟨?_, fun hboth => Bool.false_ne_true (hk'.symm.trans hboth.1)⟩
      rcases hstatus with hstatus | hstatus <;> rw [hstatus]
      · exact hother
      · exact ⟨hother.knows, fun _ => rfl, fun _ hqueued => by cases hqueued⟩
  · exact ⟨.of_quiet hother.knows (Bool.eq_false_iff.2 hl), fun hboth => hl hboth.2⟩

/-- What has ended stays as it is, and is dispatched no more. -/
theorem Fit.settled (hfit : Fit s.status k seen) (horder : inOrder s.status k seen answer = true)
    (hout : fromOutside k answer = true) (h : act rt p s k answer = some (s', k'))
    (hsettled : isSettled s.status = true) : s'.status = s.status ∧ s'.calls = s.calls := by
  have hterminal : s.status.isTerminal = true := by
    revert hsettled
    cases s.status <;> decide
  refine ⟨WorkflowExecutionStatus.eq_of_canTransition hterminal (hfit.own horder hout h).2, ?_⟩
  rcases counters_step h with ⟨m, node, attempt, todo, rfl⟩ | ⟨hcalls, -⟩
  · have hlive := hfit.live rfl
    rw [not_isLive_of_settled hsettled] at hlive
    cases hlive
  · exact hcalls

/-! ### Every call -/

section Calls

variable {ws : PublishedWorkflows} {rows rows' : List ExecutionRow} {j j' : Job} {c c' : Config}
  {answer : Answer} {row : ExecutionRow}

/-- What holds of a job: the execution it works on is there, or it has not begun. -/
structure JobFit (rows : List ExecutionRow) (j : Job) : Prop where
  there : ∀ row, rows[j.execution]? = some row → Fit row.execution.status j.call j.seen
  ahead : rows.length ≤ j.execution → j.call = .load ∨ j.call = .idle

/-- Two jobs do not drive one execution. -/
def Apart (j j' : Job) : Prop :=
  j.execution = j'.execution → ¬ (drives j.call = true ∧ drives j'.call = true)

theorem reportsTo_lt {p : Pinned} {i : ℕ} {nodeId : String} (h : reportsTo rows p = some (i, nodeId)) :
    i < rows.length := by
  unfold reportsTo at h
  split at h
  · split_ifs at h
    obtain ⟨i', hi, h⟩ := Option.map_eq_some_iff.1 h
    cases h
    exact List.mem_range.1 (List.mem_of_find?_eq_some hi)
  · cases h

theorem looks_of_starting {k : Call} (h : (starting k).isSome = true) :
    looks k = false ∧ ended k = none := by
  cases k with
  | loop m stage =>
    cases stage with
    | start node => exact ⟨rfl, rfl⟩
    | _ => cases h
  | _ => cases h

/-- A child is started, or the execution goes on; a child that has ended turns to its parent. -/
theorem workOn_cases (h : workOn ws rt rows j answer = some (rows', j')) :
    ∃ row, rows[j.execution]? = some row ∧ fromOutside j.call answer = true ∧
      ((∃ child, child.execution = queued ∧ rows' = rows ++ [child] ∧
          j' = ⟨j.execution, .idle, j.seen⟩) ∨
        ∃ next, act rt row.pinned row.execution j.call answer = some next ∧
          rows' = rows.set j.execution { row with execution := next.1 } ∧
          (j' = ⟨j.execution, next.2, if looks j.call then some next.1.status else j.seen⟩ ∨
            ∃ parent nodeId port, parent < rows'.length ∧ j' = ⟨parent, .advance nodeId port, none⟩)) := by
  unfold workOn at h
  split_ifs at h with hout
  obtain ⟨next, hwork, h⟩ := Option.map_eq_some_iff.1 h
  cases h
  obtain ⟨row, hrow, ⟨m, node, child, hstarting, hchild, hrows, hworker⟩ | ⟨next', hact, hrows, hworker⟩⟩ :=
    work_cases hwork
  · refine ⟨row, hrow, hout, .inl ⟨child, ?_, hrows, ?_⟩⟩
    · obtain ⟨g, -, rfl⟩ := start_eq_some hchild
      rfl
    · obtain ⟨hlooks, hended⟩ := looks_of_starting (k := j.call) (by rw [hstarting]; rfl)
      simp only [Job.next, hended, hlooks, hworker, Bool.false_eq_true, if_false]
  · refine ⟨row, hrow, hout, .inr ⟨next', hact, hrows, ?_⟩⟩
    have hlength : j.execution < rows.length := (List.getElem?_eq_some_iff.1 hrow).1
    have hstatus : statusOf next.1 j.execution = some next'.1.status := by
      rw [statusOf, hrows, List.getElem?_set_self hlength]
      rfl
    unfold Job.next
    split
    · rename_i outcome parent nodeId _ hparent
      obtain ⟨row', -, hparent⟩ := Option.bind_eq_some_iff.1 hparent
      exact .inr ⟨parent, nodeId, _, reportsTo_lt hparent, rfl⟩
    · refine .inl ?_
      rw [hworker, hstatus]

theorem fit_of_orderly (hfit : JobFit rows j) (horder : orderly rows j answer = true)
    (hrow : rows[j.execution]? = some row) : Fit row.execution.status j.call j.seen ∧
      inOrder row.execution.status j.call j.seen answer = true := by
  refine ⟨hfit.there row hrow, ?_⟩
  simpa only [orderly, statusOf, hrow, Option.map_some, Option.all_some] using horder

theorem row_step (hfit : JobFit rows j) (horder : orderly rows j answer = true)
    (h : workOn ws rt rows j answer = some (rows', j')) {e : ℕ} (hrow : rows[e]? = some row) :
    ∃ row', rows'[e]? = some row' ∧
      row.execution.status.canTransition row'.execution.status = true ∧
      (isSettled row.execution.status = true → row'.execution.status = row.execution.status ∧
        row'.execution.calls = row.execution.calls) := by
  have he : e < rows.length := (List.getElem?_eq_some_iff.1 hrow).1
  obtain ⟨own, hown, hout, ⟨child, -, rfl, -⟩ | ⟨next, hact, rfl, -⟩⟩ := workOn_cases h
  · exact ⟨row, (List.getElem?_append_left he).trans hrow, canTransition_self, fun _ => ⟨rfl, rfl⟩⟩
  · by_cases hself : j.execution = e
    · subst hself
      cases hown.symm.trans hrow
      obtain ⟨hjob, hin⟩ := fit_of_orderly hfit horder hrow
      exact ⟨_, List.getElem?_set_self he, (hjob.own hin hout hact).2, hjob.settled hin hout hact⟩
    · exact ⟨row, (List.getElem?_set_ne hself).trans hrow, canTransition_self, fun _ => ⟨rfl, rfl⟩⟩

theorem JobFit.own (hfit : JobFit rows j) (horder : orderly rows j answer = true)
    (h : workOn ws rt rows j answer = some (rows', j')) : JobFit rows' j' := by
  obtain ⟨row, hrow, hout, ⟨child, -, rfl, rfl⟩ | ⟨next, hact, rfl, hnext⟩⟩ := workOn_cases h
  · exact ⟨fun _ _ => .of_quiet trivial rfl, fun _ => .inr rfl⟩
  · have hlength : j.execution < rows.length := (List.getElem?_eq_some_iff.1 hrow).1
    obtain ⟨hjob, hin⟩ := fit_of_orderly hfit horder hrow
    rcases hnext with rfl | ⟨parent, nodeId, port, hparent, rfl⟩
    · refine ⟨fun row' hrow' => ?_, fun hahead => ?_⟩
      · cases (List.getElem?_set_self hlength).symm.trans hrow'
        exact (hjob.own hin hout hact).1
      · rw [List.length_set] at hahead
        exact absurd hlength (Nat.not_lt.2 hahead)
    · exact ⟨fun _ _ => .of_quiet nofun rfl, fun hahead => absurd hparent (Nat.not_lt.2 hahead)⟩

theorem JobFit.other {k : Job} (hfit : JobFit rows j) (horder : orderly rows j answer = true)
    (h : workOn ws rt rows j answer = some (rows', j')) (hother : JobFit rows k) (hapart : Apart j k) :
    JobFit rows' k ∧ Apart j' k := by
  obtain ⟨row, hrow, hout, ⟨child, hqueued, rfl, rfl⟩ | ⟨next, hact, rfl, hnext⟩⟩ := workOn_cases h
  · refine ⟨⟨fun row' hrow' => ?_, fun hahead => ?_⟩, fun _ hboth => by cases hboth.1⟩
    · rcases Nat.lt_or_ge k.execution rows.length with hthere | hahead
      · exact hother.there row' ((List.getElem?_append_left hthere).symm.trans hrow')
      · rw [List.getElem?_append_right hahead] at hrow'
        rw [List.mem_singleton.1 (List.mem_of_getElem? hrow'), hqueued]
        show Fit .queued k.call k.seen
        rcases hother.ahead hahead with hcall | hcall <;> rw [hcall]
        · exact .of_drives trivial rfl rfl
        · exact .of_quiet trivial rfl
    · rw [List.length_append] at hahead
      exact hother.ahead (Nat.le_of_add_right_le hahead)
  · have hlength : j.execution < rows.length := (List.getElem?_eq_some_iff.1 hrow).1
    obtain ⟨hjob, hin⟩ := fit_of_orderly hfit horder hrow
    by_cases hsame : j.execution = k.execution
    · obtain ⟨hstays, hdrive⟩ := hjob.other hin hout hact (hother.there row (hsame ▸ hrow)) (hapart hsame)
      refine ⟨⟨fun row' hrow' => ?_, fun hahead => ?_⟩, fun _ => ?_⟩
      · rw [← hsame] at hrow'
        cases (List.getElem?_set_self hlength).symm.trans hrow'
        exact hstays
      · rw [List.length_set, ← hsame] at hahead
        exact absurd hlength (Nat.not_lt.2 hahead)
      · rcases hnext with rfl | ⟨parent, nodeId, port, -, rfl⟩
        · exact hdrive
        · exact fun hboth => by cases hboth.1
    · refine ⟨⟨fun row' hrow' => ?_, fun hahead => ?_⟩, fun hexecution => ?_⟩
      · exact hother.there row' ((List.getElem?_set_ne hsame).symm.trans hrow')
      · rw [List.length_set] at hahead
        exact hother.ahead hahead
      · rcases hnext with rfl | ⟨parent, nodeId, port, -, rfl⟩
        · exact absurd hexecution hsame
        · exact fun hboth => by cases hboth.1

/-- Every job fits, and no two drive one execution. -/
abbrev Fitting : Config → Prop := Inv (fun _ => True) JobFit Apart

theorem fitting_launched {requests : List (String × List (String × Value))} :
    Fitting (launched ws requests) := by
  refine ⟨trivial, fun i => ⟨fun row hrow => ?_, fun _ => ?_⟩, fun i i' hne hexecution hboth => hne ?_⟩
  · have hqueued : row.execution.status = .queued := by
      obtain ⟨r, -, hr⟩ := List.mem_filterMap.1 (List.mem_of_getElem? hrow)
      obtain ⟨g, -, rfl⟩ := start_eq_some hr
      rfl
    rw [hqueued, launched]
    dsimp only
    split_ifs
    · exact .of_drives trivial rfl rfl
    · exact .of_quiet trivial rfl
  · rw [launched]
    dsimp only
    split_ifs
    · exact .inl rfl
    · exact .inr rfl
  · have hfirst : ∀ i : ℕ × ℕ, drives ((launched ws requests).call i).call = true → i.2 = 0 := by
      intro i hdrives
      by_contra hi
      rw [launched] at hdrives
      dsimp only at hdrives
      rw [if_neg hi] at hdrives
      cases hdrives
    exact Prod.ext hexecution ((hfirst i hboth.1).trans (hfirst i' hboth.2).symm)

theorem Fitting.step {i : ℕ × ℕ} (hfitting : Fitting c) (horder : orderly c.store (c.call i) answer = true)
    (h : workOn ws rt c.store (c.call i) answer = some (rows', j')) :
    Fitting ⟨rows', Function.update c.call i j'⟩ :=
  Inv.update (fun _ _ hapart hexecution hboth => hapart hexecution.symm hboth.symm) hfitting trivial
    ((hfitting.call i).own horder h) fun k hk =>
      (hfitting.call i).other horder h (hfitting.call k) (hfitting.pair i k hk.symm)

/-- As long as every action is in order, no execution that has ended is touched again. -/
theorem absorbing_of_orderly {requests : List (String × List (String × Value))}
    (h : Run (guarded orderly (workOn ws rt)) (fun _ _ => True) (launched ws requests) c) :
    Absorbing (guarded orderly (workOn ws rt)) c := by
  have hfitting : Fitting c := by
    refine h.invariant fitting_launched ?_
    intro c i answer rows' j' hfitting _ hact
    obtain ⟨horder, hact⟩ := guarded_eq_some.1 hact
    exact hfitting.step horder hact
  refine ⟨fun i answer c' hstep e row hrow => ?_, fun c' hrun e row hrow hsettled => ?_⟩
  · obtain ⟨rows', j', hact, rfl⟩ := step_eq_some.1 hstep
    obtain ⟨horder, hact⟩ := guarded_eq_some.1 hact
    obtain ⟨row', hrow', hallowed, -⟩ := row_step (hfitting.call i) horder hact hrow
    exact ⟨row', hrow', hallowed⟩
  · refine And.right (hrun.invariant (P := fun c' => Fitting c' ∧ ∃ row', c'.store[e]? = some row' ∧
      row'.execution.status = row.execution.status ∧ row'.execution.calls = row.execution.calls)
      ⟨hfitting, row, hrow, rfl, rfl⟩ ?_)
    rintro c' i answer rows' j' ⟨hfitting, mid, hmid, hstatus, hcalls⟩ - hact
    obtain ⟨horder, hact⟩ := guarded_eq_some.1 hact
    obtain ⟨row', hrow', -, hstays⟩ := row_step (hfitting.call i) horder hact hmid
    rw [hstatus, hcalls] at hstays
    exact ⟨hfitting.step horder hact, row', hrow', hstays hsettled⟩

end Calls

def ending : PublishedGraph where
  nodes := [manualTrigger]
  edges := []
  nodup := by decide

/-- A workflow that starts another, which ends at once. -/
def nested : PublishedWorkflows := [("parent", invoking "child"), ("child", ending)]

def parks : List ((ℕ × ℕ) × Answer) :=
  [((0, 0), .go), ((0, 0), .grant none)] ++ List.replicate 13 ((0, 0), .go) ++
    [((0, 0), .clock 0), ((0, 0), .started true)]

def childEnds : List ((ℕ × ℕ) × Answer) :=
  [((1, 0), .go), ((1, 0), .grant none)] ++ List.replicate 13 ((1, 0), .go)

/-- The run of the child has resumed its parent, and completes it. -/
def parentEnds : List ((ℕ × ℕ) × Answer) :=
  [((1, 0), .go), ((1, 0), .grant none)] ++ List.replicate 5 ((1, 0), .go)

theorem completed_stays : ∃ c, Run (guarded orderly (workOn nested .ascii)) (fun _ _ => True)
      (launched nested [("parent", [])]) c ∧ statusOf c.store 0 = some .completed ∧
    Absorbing (guarded orderly (workOn nested .ascii)) c := by
  obtain ⟨c, hrun, hc⟩ := run_of_exec_any (guarded orderly (workOn nested .ascii)) (fun _ _ => True)
    (launched nested [("parent", [])]) (parks ++ childEnds ++ parentEnds)
    (fun c => decide (statusOf c.store 0 = some .completed)) (by rfl)
  exact ⟨c, hrun, of_decide_eq_true hc, absorbing_of_orderly hrun⟩

/-- The parent is cancelled while it waits for its child, whose end sets it running again. -/
theorem cancelled_resumed : ¬ ∀ c, Run (workOn nested .ascii) (fun _ _ => True)
      (launched nested [("parent", [])]) c → Absorbing (workOn nested .ascii) c := by
  intro h
  obtain ⟨c, hrun, hc⟩ := run_of_exec_any (workOn nested .ascii) (fun _ _ => True)
    (launched nested [("parent", [])]) (parks ++ [((0, 1), .cancel), ((0, 1), .go)])
    (fun c => decide (statusOf c.store 0 = some .cancelled) &&
      (exec (workOn nested .ascii) (fun _ _ => True) c childEnds).any fun c' =>
        decide (statusOf c'.store 0 = some .running)) (by rfl)
  obtain ⟨hcancelled, hc⟩ := Bool.and_eq_true_iff.1 hc
  obtain ⟨c', hexec, hrunning⟩ := (Option.any_eq_true _ _).1 hc
  obtain ⟨row, hrow, hstatus⟩ := Option.map_eq_some_iff.1 (of_decide_eq_true hcancelled)
  obtain ⟨row', hrow', hsame, -⟩ := (h c hrun).stays c' (run_of_exec hexec) 0 row hrow (by rw [hstatus]; rfl)
  have hstatus' := of_decide_eq_true hrunning
  rw [statusOf, hrow', Option.map_some, hsame, hstatus] at hstatus'
  cases hstatus'

end UltraTorrent.Workflows.SettledExecutions
