import UltraTorrent.Workflows.ExecutedRuns
import UltraTorrent.Workflows.SettledExecutions

/-! Whether a failure without a failure edge always fails its execution. The failure of an action is
kept in the memory of the run that met it, where no other run finds it; that of a sub-workflow is
an output port like any other, and nobody asks whether an edge leaves by it. -/
namespace UltraTorrent.Workflows.SwallowedFailures

open Library.EcmaScript Library.Interleaving GraphTypes ExecutionPlanner WorkflowStatus
  WorkflowExecution LoopInvariant DispatchRounds SubworkflowNesting SettledExecutions NodeRegistry
  WorkflowValidator ResolvedGraph ExecutedRuns

/-! ### Runs -/

/-- An action of a call on one of the executions, or a crash, after which the boot comes to the
execution it was on. -/
def labour (ws : PublishedWorkflows) (rt : Runtime) (s : List ExecutionRow) (j : Job) :
    Option Answer → Option (List ExecutionRow × Job)
  | some answer => workOn ws rt s j answer
  | none => some (s, ⟨j.execution, .booting, none⟩)

def isCompleted (status : WorkflowExecutionStatus) : Bool :=
  status ∈ [.completed, .completedWithWarnings]

/-- A state that is a failure no edge leads on from. -/
def isUnhandled (g : WorkflowGraph) (id : String) (state : NodeRunState) : Bool :=
  state.status = .failed && !g.hasFailureEdge id

def anyUnhandled (g : WorkflowGraph) (rows : List NodeExecution) : Bool :=
  rows.any fun row => isUnhandled g row.nodeId row.state

def mayComplete : Call → Bool
  | .setRunning _ => true
  | .loop _ (.finish true) => false
  | .loop _ _ => true
  | .finalize outcome => isCompleted outcome
  | _ => false

/-- What a call is about to do with an execution: a sub-workflow that goes on by `failure` has an edge
there; no run begins from a failure without one; and none is written when the execution has
completed, or may be completed by another run. -/
def heeds (row : ExecutionRow) (others : Prop) : Call → Prop
  | .advance id port => port = "failure" → ∀ node ∈ row.pinned.graph.nodes, node.id = id →
      node.category = some .subworkflow → row.pinned.graph.hasFailureEdge id = true
  | .loadStates _ => anyUnhandled row.pinned.graph row.execution.nodes = false
  | .loop _ (.write job _) => isUnhandled row.pinned.graph job.node.id job.state = true →
      isCompleted row.execution.status = false ∧ others
  | _ => True

def heeded (c : SettledExecutions.Config) (i : ℕ × ℕ) : Prop :=
  ∀ row, c.store[(c.call i).execution]? = some row →
    heeds row (∀ i' ≠ i, (c.call i').execution = (c.call i).execution → mayComplete (c.call i').call = false)
      (c.call i).call

/-- Each action that failed has an edge that leads on from its failure, and so has each sub-workflow
that ended badly, or could not be started: these are resumed on the port `failure`. -/
structure Heeded (row : ExecutionRow) : Prop where
  actions : ∀ node ∈ row.pinned.graph.nodes, node.category = some .action →
    (∃ entry ∈ row.execution.nodes, entry.nodeId = node.id ∧ entry.state.status = .failed) →
      row.pinned.graph.hasFailureEdge node.id = true
  subworkflows : ∀ node ∈ row.pinned.graph.nodes, node.category = some .subworkflow →
    (node.id, "failure") ∈ row.execution.resumed → row.pinned.graph.hasFailureEdge node.id = true

/-! ### One execution -/

section One

variable {rt : Runtime} {p : Pinned} {g : WorkflowGraph} {s s' : Execution} {k k' : Call} {answer : Answer}
  {l : Loop} {rows : List NodeExecution} {node : WorkflowNode} {todo : List WorkflowNode} {id : String}

theorem not_mayComplete_of_asks (h : asks k = true) : mayComplete k = false := by
  cases k with
  | woken _ | deciding _ _ | expiring | resume _ => rfl
  | _ => cases h

theorem not_isCompleted_of_isWaiting {status : WorkflowExecutionStatus} (h : status.isWaiting = true) :
    isCompleted status = false := by
  cases status <;> first | rfl | cases h

/-- Only the rows a run loads bring it to where it may complete. -/
theorem mayComplete_step (h : act rt p s k answer = some (s', k')) (hnext : mayComplete k' = true) :
    mayComplete k = true ∨ ∃ saved, k = .loadStates saved := by
  cases k with
  | idle =>
    obtain ⟨-, hasks | ⟨nodeId, port, -, rfl⟩ | ⟨-, rfl⟩⟩ := begin_cases h
    · rw [not_mayComplete_of_asks hasks] at hnext
      cases hnext
    · cases hnext
    · split_ifs at hnext <;> cases hnext
  | booting =>
    obtain ⟨found, -, h⟩ := Option.map_eq_some_iff.1 h
    cases h
    split_ifs at hnext <;> cases hnext
  | woken _ | resume _ | load =>
    cases h
    split_ifs at hnext <;> cases hnext
  | finding port =>
    cases h
    cases hfind : findWaiting s.nodes <;> rw [hfind] at hnext <;> cases hnext
  | loadStates saved => exact .inr ⟨saved, rfl⟩
  | setRunning l => exact .inl rfl
  | loop l stage =>
    cases stage with
    | finish failed =>
      cases failed with
      | true =>
        cases h
        cases hnext
      | false => exact .inl rfl
    | _ => exact .inl rfl
  | _ =>
    cases h
    cases hnext

theorem isCompleted_step (h : act rt p s k answer = some (s', k')) (hnext : isCompleted s'.status = true) :
    isCompleted s.status = true ∨ ∃ outcome, k = .finalize outcome ∧ mayComplete k = true := by
  cases k with
  | finalize outcome =>
    cases h
    exact .inr ⟨outcome, rfl, hnext⟩
  | idle =>
    rw [begin_fst h] at hnext
    exact .inl hnext
  | unpark | setRunning _ | flag =>
    cases h
    cases hnext
  | booting | loadStates _ =>
    obtain ⟨_, -, h⟩ := Option.map_eq_some_iff.1 h
    cases h
    exact .inl hnext
  | loop l stage =>
    cases stage with
    | check =>
      rw [act, actStage] at h
      split_ifs at h <;> cases h <;> exact .inl hnext
    | process todo =>
      cases todo <;> cases h <;> exact .inl hnext
    | park node =>
      obtain ⟨now, -, h⟩ := Option.map_eq_some_iff.1 h
      cases h
      rw [not_isCompleted_of_isWaiting status_park.1] at hnext
      cases hnext
    | calling _ _ _ | start _ =>
      obtain ⟨_, -, h⟩ := Option.map_eq_some_iff.1 h
      cases h
      exact .inl hnext
    | _ =>
      cases h
      exact .inl hnext
  | _ =>
    cases h
    exact .inl hnext

/-! ### Rows -/

/-- No row is left running. -/
def Settled (rows : List NodeExecution) : Prop := ∀ row ∈ rows, row.state.status ≠ .running

/-- A row that is about to be written does not leave its node running, and stops the run if it is a
failure no edge leads on from. -/
def Careful (g : WorkflowGraph) (job : Persist) : Prop :=
  job.state.status ≠ .running ∧
    (isUnhandled g job.node.id job.state = true → ∃ todo, job.next = .processed true todo)

def writtenBy : Call → Option Persist
  | .loop _ stage => writing stage
  | _ => none

structure Sane (g : WorkflowGraph) (rows : List NodeExecution) (k : Call) : Prop where
  stops : anyUnhandled g rows = true → mayComplete k = false
  careful : ∀ job ∈ writtenBy k, Careful g job
  found : ∀ l job i, k = .loop l (.write job (some i)) → (rows.map (·.nodeId))[i]? = some job.node.id

theorem findNode_eq_some {i : ℕ} (h : findNode rows id = some i) : (rows.map (·.nodeId))[i]? = some id := by
  obtain ⟨hi, hid, -⟩ := List.findIdx?_eq_some_iff_getElem.1 h
  rw [List.getElem?_map, List.getElem?_eq_getElem hi]
  exact congrArg some (of_decide_eq_true hid)

/-- Rows are added, and keep their nodes. -/
theorem nodeIds_step (h : act rt p s k answer = some (s', k')) :
    s.nodes.map (·.nodeId) <+: s'.nodes.map (·.nodeId) := by
  have hmap : ∀ f : NodeExecution → NodeExecution, (∀ row, (f row).nodeId = row.nodeId) →
      (s.nodes.map f).map (·.nodeId) = s.nodes.map (·.nodeId) := by
    intro f hf
    rw [List.map_map]
    exact List.map_congr_left fun row _ => hf row
  rcases nodes_step h with ⟨hnodes, -⟩ | ⟨nodeId, port, -, hnodes, -⟩ | ⟨-, hnodes, -⟩ |
    ⟨l, job, existing, -, hnodes, -⟩ <;> rw [hnodes]
  · rw [hmap _ advance_nodeId]
  · rw [hmap _ interrupt_nodeId]
  · cases existing with
    | none => simp [writeNode]
    | some i =>
      have hsame : (s.nodes.modify i fun row => { row with state := job.state }).map (·.nodeId) =
          s.nodes.map (·.nodeId) := by
        refine List.ext_getElem? fun n => ?_
        rw [List.getElem?_map, List.getElem?_map, List.getElem?_modify]
        cases s.nodes[n]? with
        | none => rfl
        | some row =>
          by_cases hi : i = n <;> simp [hi]
      rw [writeNode, hsame]

theorem row_cases (h : act rt p s k answer = some (s', k')) {row : NodeExecution} (hrow : row ∈ s'.nodes) :
    row ∈ s.nodes ∨ row.state.status = .succeeded ∨ (∃ old ∈ s.nodes, old.state.status = .running) ∨
      ∃ l job existing, k = .loop l (.write job existing) ∧ row.state = job.state ∧
        (existing = none ∧ row.nodeId = job.node.id ∨
          ∃ i, existing = some i ∧ (s.nodes.map (·.nodeId))[i]? = some row.nodeId) := by
  rcases nodes_step h with ⟨hnodes, -⟩ | ⟨nodeId, port, -, hnodes, -⟩ | ⟨-, hnodes, -⟩ |
    ⟨l, job, existing, hk, hnodes, -⟩ <;> rw [hnodes] at hrow
  · exact .inl hrow
  · obtain ⟨old, hold, rfl⟩ := List.mem_map.1 hrow
    unfold NodeExecution.advance
    split_ifs
    · exact .inr (.inl rfl)
    · exact .inl hold
  · obtain ⟨old, hold, rfl⟩ := List.mem_map.1 hrow
    unfold NodeExecution.interrupt
    split_ifs with hrunning
    · exact .inr (.inr (.inl ⟨old, hold, hrunning⟩))
    · exact .inl hold
  · cases existing with
    | none =>
      rcases List.mem_append.1 hrow with hrow | hrow
      · exact .inl hrow
      · rw [List.mem_singleton.1 hrow]
        exact .inr (.inr (.inr ⟨l, job, none, hk, rfl, .inl ⟨rfl, rfl⟩⟩))
    | some i =>
      obtain ⟨n, hn⟩ := List.mem_iff_getElem?.1 hrow
      rw [writeNode, List.getElem?_modify] at hn
      obtain ⟨old, hold, hn⟩ := Option.map_eq_some_iff.1 hn
      split_ifs at hn with hi
      · rw [← hn]
        refine .inr (.inr (.inr ⟨l, job, some i, hk, rfl, .inr ⟨i, rfl, ?_⟩⟩))
        rw [List.getElem?_map, hi, hold]
        rfl
      · exact .inl (hn ▸ List.mem_of_getElem? hold)

theorem settled_step (hsettled : Settled s.nodes) (hcareful : ∀ job ∈ writtenBy k, Careful g job)
    (h : act rt p s k answer = some (s', k')) : Settled s'.nodes := by
  intro row hrow
  rcases row_cases h hrow with hold | hsucceeded | ⟨old, hold, hrunning⟩ | ⟨l, job, existing, rfl, hstate, -⟩
  · exact hsettled row hold
  · simp [hsucceeded]
  · exact absurd hrunning (hsettled old hold)
  · rw [hstate]
    exact (hcareful job rfl).1

theorem unhandled_step (hsettled : Settled s.nodes) (hsane : Sane g s.nodes k)
    (h : act rt p s k answer = some (s', k')) (hnext : anyUnhandled g s'.nodes = true) :
    anyUnhandled g s.nodes = true ∨
      ∃ l job existing, k = .loop l (.write job existing) ∧ isUnhandled g job.node.id job.state = true := by
  obtain ⟨row, hrow, hunhandled⟩ := List.any_eq_true.1 hnext
  rcases row_cases h hrow with hold | hsucceeded | ⟨old, hold, hrunning⟩ |
    ⟨l, job, existing, rfl, hstate, hnode⟩
  · exact .inl (List.any_eq_true.2 ⟨row, hold, hunhandled⟩)
  · simp [isUnhandled, hsucceeded] at hunhandled
  · exact absurd hrunning (hsettled old hold)
  · refine .inr ⟨l, job, existing, rfl, ?_⟩
    have hid : row.nodeId = job.node.id := by
      rcases hnode with ⟨-, hid⟩ | ⟨i, rfl, hid⟩
      · exact hid
      · exact Option.some.inj (hid.symm.trans (hsane.found l job i rfl))
    rwa [← hid, ← hstate]

/-! ### Jobs -/

theorem writtenBy_again : writtenBy (again g l) = none := by
  unfold again
  split_ifs <;> rfl

/-- A row that has just come up, and is careful. -/
def ComesUp (g : WorkflowGraph) (k : Call) (job : Persist) : Prop :=
  Careful g job ∧ ∃ l, k = .loop l (.find job)

theorem comesUp_prune {view : PlannerView} {job : Persist} (h : writtenBy (prune g l view todo) = some job) :
    ComesUp g (prune g l view todo) job := by
  cases todo with
  | nil =>
    unfold prune afterPrune at h
    split_ifs at h
    · cases h
    · rw [writtenBy_again] at h
      cases h
    · cases h
  | cons node todo =>
    rw [prune] at h ⊢
    split_ifs at h ⊢ <;> cases h
    exact ⟨⟨by simp, by simp [isUnhandled]⟩, l, rfl⟩

theorem careful_failure (node : WorkflowNode) (todo : List WorkflowNode) :
    Careful g ⟨node, (failure g node).state, .processed (failure g node).stops todo⟩ := by
  refine ⟨by simp [WorkflowExecution.failure], fun h => ⟨todo, ?_⟩⟩
  have hedge : g.hasFailureEdge node.id = false := by
    simpa [isUnhandled, WorkflowExecution.failure] using h
  simp [WorkflowExecution.failure, hedge]

theorem careful_refusal {outcome : Outcome} (h : refusal g l node = some outcome) (todo : List WorkflowNode) :
    Careful g ⟨node, outcome.state, .processed outcome.stops todo⟩ := by
  unfold refusal at h
  split at h
  · cases h
    exact ⟨by simp, fun _ => ⟨todo, rfl⟩⟩
  · cases h
    exact ⟨by simp, fun _ => ⟨todo, rfl⟩⟩
  · split_ifs at h
    cases h
    exact careful_failure node todo

theorem comesUp_visit {job : Persist} (h : writtenBy (visit rt p s l todo).2 = some job) :
    ComesUp p.graph (visit rt p s l todo).2 job := by
  cases todo with
  | nil =>
    rw [show (visit rt p s l []).2 = again p.graph l from rfl, writtenBy_again] at h
    cases h
  | cons node todo =>
    rw [visit] at h ⊢
    unfold process at h ⊢
    split_ifs at h ⊢
    · cases h
    · cases hrefusal : refusal p.graph l node with
      | none =>
        rw [hrefusal] at h
        cases h
      | some outcome =>
        rw [hrefusal] at h
        cases h
        exact ⟨careful_refusal hrefusal todo, l, rfl⟩
    · cases h
      exact ⟨⟨by simp, by simp [isUnhandled]⟩, _, rfl⟩

theorem comesUp_retry {attempt : ℕ} {ok : Bool} {job : Persist}
    (h : writtenBy (.loop l (retry g node attempt ok todo)) = some job) :
    ComesUp g (.loop l (retry g node attempt ok todo)) job := by
  unfold retry at h ⊢
  split_ifs at h ⊢
  · cases h
    exact ⟨⟨by simp, by simp [isUnhandled]⟩, l, rfl⟩
  · cases h
  · cases h
    exact ⟨careful_failure node todo, l, rfl⟩

theorem writtenBy_afterWrite {job : Persist} : writtenBy (afterWrite l job) = none := by
  obtain ⟨node, state, next⟩ := job
  cases next with
  | pruned view todo => rfl
  | processed stops todo => cases stops <;> rfl
  | armed =>
    unfold afterWrite
    dsimp only
    split_ifs <;> rfl

theorem isBusy_of_writtenBy (h : writtenBy k ≠ none) : isBusy k = true := by
  cases k with
  | loop l stage => cases stage <;> first | rfl | exact absurd rfl h
  | _ => exact absurd rfl h

/-- A row is looked for when it comes up, and written where it was found. -/
theorem writtenBy_step {job : Persist} (h : act rt p s k answer = some (s', k'))
    (hjob : writtenBy k' = some job) : ComesUp p.graph k' job ∨
      ∃ l, k = .loop l (.find job) ∧ s' = s ∧ k' = .loop l (.write job (findNode s.nodes job.node.id)) := by
  cases busies_of_act h (isBusy_of_writtenBy (by simp [hjob])) with
  | prune l view todo => exact .inl (comesUp_prune hjob)
  | visit l todo => exact .inl (comesUp_visit hjob)
  | retry l node attempt ok todo => exact .inl (comesUp_retry hjob)
  | save _ l node =>
    cases hjob
    exact .inl ⟨⟨by simp, by simp [isUnhandled]⟩, l, rfl⟩
  | find l job' =>
    cases hjob
    exact .inr ⟨l, rfl, rfl, rfl⟩
  | write _ l job' existing =>
    rw [writtenBy_afterWrite] at hjob
    cases hjob
  | dispatch _ _ _ _ _ | approval _ _ _ | start _ _ _ _ _ => cases hjob

/-! ### Calls -/

theorem Sane.own {row : ExecutionRow} {others : Prop} (h : Sane row.pinned.graph row.execution.nodes k)
    (hsettled : Settled row.execution.nodes) (hheeds : heeds row others k)
    (hact : act rt row.pinned row.execution k answer = some (s', k')) :
    Sane row.pinned.graph s'.nodes k' := by
  refine ⟨fun hunhandled => ?_, fun job hjob => ?_, fun l job i hcall => ?_⟩
  · by_contra hmay
    have hmay := eq_true_of_ne_false hmay
    rcases unhandled_step hsettled h hact hunhandled with hold | ⟨l, job, existing, rfl, hjob⟩
    · rcases mayComplete_step hact hmay with hbefore | ⟨saved, rfl⟩
      · exact Bool.false_ne_true ((h.stops hold).symm.trans hbefore)
      · exact Bool.false_ne_true (hheeds.symm.trans hold)
    · obtain ⟨todo, hnext⟩ := (h.careful job rfl).2 hjob
      cases hact
      rw [afterWrite, hnext] at hmay
      cases hmay
  · rcases writtenBy_step hact hjob with hup | ⟨l, rfl, -, -⟩
    · exact hup.1
    · exact h.careful job rfl
  · rcases writtenBy_step hact (show writtenBy k' = some job by rw [hcall]; rfl) with ⟨-, l', hup⟩ | ⟨l', -, rfl, hcall'⟩
    · rw [hcall] at hup
      cases hup
    · rw [hcall] at hcall'
      obtain ⟨-, hstage⟩ := Call.loop.inj hcall'
      exact findNode_eq_some (Stage.write.inj hstage).2.symm

theorem Sane.other {row : ExecutionRow} {others : Prop} {other : Call}
    (hother : Sane row.pinned.graph row.execution.nodes other)
    (h : Sane row.pinned.graph row.execution.nodes k)
    (hsettled : Settled row.execution.nodes) (hheeds : heeds row others k)
    (hothers : others → mayComplete other = false)
    (hact : act rt row.pinned row.execution k answer = some (s', k')) :
    Sane row.pinned.graph s'.nodes other := by
  refine ⟨fun hunhandled => ?_, hother.careful, fun l job i hcall => ?_⟩
  · rcases unhandled_step hsettled h hact hunhandled with hold | ⟨l, job, existing, rfl, hjob⟩
    · exact hother.stops hold
    · exact hothers (hheeds hjob).2
  · have hfound := hother.found l job i hcall
    obtain ⟨rest, hrest⟩ := nodeIds_step hact
    rw [← hrest]
    exact List.getElem?_append_left (List.getElem?_eq_some_iff.1 hfound).1 ▸ hfound

theorem Sane.aside (hmay : mayComplete k = false) (hwritten : writtenBy k = none) : Sane g rows k where
  stops _ := hmay
  careful job hjob := by
    rw [hwritten] at hjob
    cases hjob
  found l job i hcall := by
    rw [hcall] at hwritten
    cases hwritten

/-- What holds of an execution all along. -/
structure RowKept (row : ExecutionRow) : Prop where
  settled : Settled row.execution.nodes
  completed : isCompleted row.execution.status = true →
    anyUnhandled row.pinned.graph row.execution.nodes = false
  resumed : ∀ node ∈ row.pinned.graph.nodes, node.category = some .subworkflow →
    (node.id, "failure") ∈ row.execution.resumed → row.pinned.graph.hasFailureEdge node.id = true

theorem RowKept.step {row : ExecutionRow} {others : Prop} (h : RowKept row)
    (hsane : Sane row.pinned.graph row.execution.nodes k) (hheeds : heeds row others k)
    (hact : act rt row.pinned row.execution k answer = some (s', k')) :
    RowKept { row with execution := s' } := by
  refine ⟨settled_step h.settled hsane.careful hact, fun hcompleted => ?_, fun node hnode hcategory hport => ?_⟩
  · by_contra hunhandled
    rcases unhandled_step h.settled hsane hact (eq_true_of_ne_false hunhandled) with
      hold | ⟨l, job, existing, rfl, hjob⟩
    · rcases isCompleted_step hact hcompleted with hbefore | ⟨outcome, -, hmay⟩
      · exact Bool.false_ne_true ((h.completed hbefore).symm.trans hold)
      · exact Bool.false_ne_true ((hsane.stops hold).symm.trans hmay)
    · rcases isCompleted_step hact hcompleted with hbefore | ⟨outcome, hcall, -⟩
      · exact Bool.false_ne_true ((hheeds hjob).1.symm.trans hbefore)
      · cases hcall
  · rcases nodes_step hact with ⟨-, hresumed⟩ | ⟨id, port, rfl, -, hresumed⟩ | ⟨-, -, hresumed⟩ |
      ⟨-, -, -, -, -, hresumed⟩ <;> rw [hresumed] at hport
    · exact h.resumed node hnode hcategory hport
    · rcases List.mem_append.1 hport with hport | hport
      · exact h.resumed node hnode hcategory hport
      · obtain ⟨hid, hfailure⟩ := Prod.mk.inj (List.mem_singleton.1 hport)
        rw [hid]
        exact hheeds hfailure.symm node hnode hid hcategory
    · exact h.resumed node hnode hcategory hport
    · exact h.resumed node hnode hcategory hport

end One

/-! ### All of them -/

section All

variable {ws : PublishedWorkflows} {rt : Runtime} {rows rows' : List ExecutionRow} {j j' : Job}
  {answer : Option Answer} {c : SettledExecutions.Config}

/-- A call on an execution that is not there yet. -/
def waitsToBegin : Call → Bool
  | .load | .idle | .booting => true
  | _ => false

theorem Sane.of_waitsToBegin {g : WorkflowGraph} {nodes : List NodeExecution} {k : Call}
    (h : waitsToBegin k = true) : Sane g nodes k := by
  cases k with
  | load | idle | booting => exact .aside rfl rfl
  | _ => cases h

/-- What holds of all the executions and of all the calls on them. -/
structure Kept (c : SettledExecutions.Config) : Prop where
  row : ∀ (e : ℕ) (row : ExecutionRow), c.store[e]? = some row → RowKept row
  job : ∀ i row, c.store[(c.call i).execution]? = some row →
    Sane row.pinned.graph row.execution.nodes (c.call i).call
  ahead : ∀ i, c.store.length ≤ (c.call i).execution → waitsToBegin (c.call i).call = true

theorem rowKept_queued {row : ExecutionRow} (h : row.execution = queued) : RowKept row := by
  refine ⟨?_, ?_, ?_⟩ <;> rw [h]
  · exact fun entry hentry => absurd hentry List.not_mem_nil
  · exact fun hcompleted => by cases hcompleted
  · exact fun node _ _ hport => absurd hport List.not_mem_nil

theorem kept_launched {requests : List (String × List (String × Value))} : Kept (launched ws requests) where
  row e row hrow := by
    obtain ⟨r, -, hr⟩ := List.mem_filterMap.1 (List.mem_of_getElem? hrow)
    obtain ⟨g, -, rfl⟩ := start_eq_some hr
    exact rowKept_queued rfl
  job i row _ := by
    refine .of_waitsToBegin ?_
    unfold launched
    dsimp only
    split_ifs <;> rfl
  ahead i _ := by
    unfold launched
    dsimp only
    split_ifs <;> rfl

/-- It is enough that a step keeps the rows, the call that takes it, and every other call. -/
theorem Kept.of_update {i : ℕ × ℕ} (hrow : ∀ (e : ℕ) row, rows'[e]? = some row → RowKept row)
    (hown : (∀ row, rows'[j'.execution]? = some row → Sane row.pinned.graph row.execution.nodes j'.call) ∧
      (rows'.length ≤ j'.execution → waitsToBegin j'.call = true))
    (hother : ∀ i' ≠ i, (∀ row, rows'[(c.call i').execution]? = some row →
        Sane row.pinned.graph row.execution.nodes (c.call i').call) ∧
      (rows'.length ≤ (c.call i').execution → waitsToBegin (c.call i').call = true)) :
    Kept ⟨rows', Function.update c.call i j'⟩ := by
  refine ⟨hrow, fun i' => ?_, fun i' => ?_⟩ <;> dsimp only <;> by_cases hi : i' = i
  · rw [hi, Function.update_self]
    exact hown.1
  · rw [Function.update_of_ne hi]
    exact (hother i' hi).1
  · rw [hi, Function.update_self]
    exact hown.2
  · rw [Function.update_of_ne hi]
    exact (hother i' hi).2

theorem Kept.workOn {i : ℕ × ℕ} {given : Answer} (h : Kept c) (hheeded : heeded c i)
    (hwork : workOn ws rt c.store (c.call i) given = some (rows', j')) :
    Kept ⟨rows', Function.update c.call i j'⟩ := by
  obtain ⟨row, hrow, -, ⟨child, hqueued, rfl, rfl⟩ | ⟨next, hact, rfl, hnext⟩⟩ := workOn_cases hwork
  · refine .of_update (fun e row' hrow' => ?_) ⟨fun _ _ => .aside rfl rfl, fun _ => rfl⟩ fun i' _ =>
      ⟨fun row' hrow' => ?_, fun hahead => ?_⟩
    · rcases append_cases hrow' with hold | ⟨-, rfl⟩
      · exact h.row e row' hold
      · exact rowKept_queued hqueued
    · rcases append_cases hrow' with hold | ⟨hlast, rfl⟩
      · exact h.job i' row' hold
      · exact .of_waitsToBegin (h.ahead i' hlast.ge)
    · rw [List.length_append] at hahead
      exact h.ahead i' (Nat.le_of_add_right_le hahead)
  · have hsane := h.job i row hrow
    have hkept := h.row _ row hrow
    have hheeds := hheeded row hrow
    have hlength : (c.call i).execution < c.store.length := (List.getElem?_eq_some_iff.1 hrow).1
    refine .of_update (fun e row' hrow' => ?_) ⟨fun row' hrow' => ?_, fun hahead => ?_⟩ fun i' hi =>
      ⟨fun row' hrow' => ?_, fun hahead => ?_⟩
    · rw [set_row hrow] at hrow'
      split_ifs at hrow'
      · cases hrow'
        exact hkept.step hsane hheeds hact
      · exact h.row e row' hrow'
    · rcases hnext with rfl | ⟨parent, nodeId, port, -, rfl⟩
      · rw [set_row hrow, if_pos rfl] at hrow'
        cases hrow'
        exact hsane.own hkept.settled hheeds hact
      · exact .aside rfl rfl
    · rw [List.length_set] at hahead
      rcases hnext with rfl | ⟨parent, nodeId, port, hparent, rfl⟩
      · exact absurd hlength (Nat.not_lt.2 hahead)
      · rw [List.length_set] at hparent
        exact absurd hparent (Nat.not_lt.2 hahead)
    · rw [set_row hrow] at hrow'
      split_ifs at hrow' with hsame
      · cases hrow'
        have hbefore := h.job i' row (hsame.symm ▸ hrow)
        exact hbefore.other hsane hkept.settled hheeds (fun hall => hall i' hi hsame) hact
      · exact h.job i' row' hrow'
    · rw [List.length_set] at hahead
      exact h.ahead i' hahead

theorem Kept.step {i : ℕ × ℕ} (h : Kept c) (hheeded : heeded c i)
    (hact : labour ws rt c.store (c.call i) answer = some (rows', j')) :
    Kept ⟨rows', Function.update c.call i j'⟩ := by
  cases answer with
  | none =>
    cases hact
    exact .of_update h.row ⟨fun _ _ => .aside rfl rfl, fun _ => rfl⟩ fun i' _ => ⟨h.job i', h.ahead i'⟩
  | some given => exact h.workOn hheeded hact

/-- Whatever the executions and the calls on them, as long as each call heeds what it finds, an
execution that has completed has swallowed no failure. -/
theorem completed_heeded (ws : PublishedWorkflows) (rt : Runtime) (requests : List (String × List (String × Value)))
    (c : SettledExecutions.Config) (h : Run (labour ws rt) heeded (launched ws requests) c) :
    ∀ (e : ℕ) (row : ExecutionRow), c.store[e]? = some row → isCompleted row.execution.status = true →
      Heeded row := by
  have hkept : Kept c := by
    refine h.invariant kept_launched ?_
    intro c i answer rows' j' hkept hheeded hact
    exact hkept.step hheeded hact
  intro e row hrow hcompleted
  have hrowKept := hkept.row e row hrow
  refine ⟨fun node hnode _ hfailed => ?_, hrowKept.resumed⟩
  obtain ⟨entry, hentry, hid, hstatus⟩ := hfailed
  have hnone := List.any_eq_false.1 (hrowKept.completed hcompleted) entry hentry
  rw [hid] at hnone
  simpa [isUnhandled, hstatus] using hnone

end All

/-! ### Two workflows -/

/-- A call that meets no failure without an edge heeds what it finds, whatever the others do. -/
def unharmed (row : ExecutionRow) : Call → Bool
  | .advance id port => port ≠ "failure" || row.pinned.graph.hasFailureEdge id
  | .loadStates _ => !anyUnhandled row.pinned.graph row.execution.nodes
  | .loop _ (.write job _) => !isUnhandled row.pinned.graph job.node.id job.state
  | _ => true

theorem heeds_of_unharmed {row : ExecutionRow} {others : Prop} {k : Call} (h : unharmed row k = true) :
    heeds row others k := by
  unfold unharmed at h
  split at h
  · rename_i id port
    intro hport _ _ _ _
    simpa [hport] using h
  · simpa [heeds] using h
  · intro hunhandled
    rw [hunhandled] at h
    cases h
  · unfold heeds
    split <;> simp_all

/-- Every call is one that meets no such failure. -/
def unharmedAt (c : SettledExecutions.Config) (i : ℕ × ℕ) : Prop :=
  (c.store[(c.call i).execution]?.all fun row => unharmed row (c.call i).call) = true

instance (c : SettledExecutions.Config) (i : ℕ × ℕ) : Decidable (unharmedAt c i) :=
  inferInstanceAs (Decidable (_ = true))

theorem heeded_of_unharmedAt {c : SettledExecutions.Config} {i : ℕ × ℕ} (h : unharmedAt c i) : heeded c i := by
  intro row hrow
  rw [unharmedAt, hrow] at h
  exact heeds_of_unharmed h

/-- A sub-workflow that nobody has published, with or without an edge for its failure. -/
def caller (wired : Bool) : StoredGraph where
  schemaVersion := 1
  nodes :=
    [{ id := "start", type := "trigger.manual" },
     { id := "sub", type := "control.subworkflow", config := [("workflowId", .string "missing")] },
     { id := "end", type := "control.end" }]
  edges :=
    [{ id := "e1", sourceNodeId := "start", sourcePort := some "out", targetNodeId := "sub" },
     { id := "e2", sourceNodeId := "sub", sourcePort := some (if wired then "failure" else "out"),
       targetNodeId := "end" }]

theorem nodup_caller (wired : Bool) :
    ((resolveGraph .ascii nodeRegistry (caller wired)).nodes.map (·.id)).Nodup := by
  simp [resolveGraph, caller, resolve]

def callers (wired : Bool) : PublishedWorkflows :=
  [("caller", { toWorkflowGraph := resolveGraph .ascii nodeRegistry (caller wired)
                nodup := nodup_caller wired })]

/-- The node is parked at, no child is started, and the run goes on for some steps. -/
def refused (n : ℕ) : List ((ℕ × ℕ) × Option Answer) :=
  ((loaded 13).map fun step => ((0, 0), step.2)) ++
    [((0, 0), some (.clock 0)), ((0, 0), some (.started false)), ((0, 0), some .go), ((0, 0), some .go)] ++
    (loaded n).map fun step => ((0, 0), step.2)


/-- With an edge for it, the failure is gone on from, and the execution completes. -/
theorem wired_heeded : ∃ c, Run (labour (callers true) .ascii) heeded (launched (callers true) [("caller", [])]) c ∧
    ∃ row, c.store[0]? = some row ∧ isCompleted row.execution.status = true ∧ Heeded row := by
  obtain ⟨c, hrun, hc⟩ := run_of_exec_any (labour (callers true) .ascii) unharmedAt
    (launched (callers true) [("caller", [])]) (refused 11)
    (fun c => c.store[0]?.any fun row => isCompleted row.execution.status) (by decide +kernel)
  obtain ⟨row, hrow, hcompleted⟩ := (Option.any_eq_true _ _).1 hc
  have hheeded : Run (labour (callers true) .ascii) heeded (launched (callers true) [("caller", [])]) c :=
    hrun.mono fun _ _ => heeded_of_unharmedAt
  exact ⟨c, hheeded, row, hrow, hcompleted,
    completed_heeded (callers true) .ascii [("caller", [])] c hheeded 0 row hrow hcompleted⟩

/-- An action that is tried once. -/
def pauser : StoredGraph where
  schemaVersion := 1
  nodes := [{ id := "start", type := "trigger.manual" }, { id := "pause", type := "action.pause" }]
  edges := [{ id := "e1", sourceNodeId := "start", sourcePort := some "out", targetNodeId := "pause" }]

theorem nodup_pauser : ((resolveGraph .ascii nodeRegistry pauser).nodes.map (·.id)).Nodup := by
  simp [resolveGraph, pauser, resolve]

def pausers : PublishedWorkflows :=
  [("pauser", { toWorkflowGraph := resolveGraph .ascii nodeRegistry pauser, nodup := nodup_pauser })]

/-- The action fails, its row is written, and the process crashes; the boot runs the execution again. -/
def crashed : List ((ℕ × ℕ) × Option Answer) :=
  ((loaded 11).map fun step => ((0, 0), step.2)) ++
    [((0, 0), some (.action false)), ((0, 0), some .go), ((0, 0), some .go)] ++
    (reboot ++ loaded 5).map fun step => ((0, 0), step.2)

/-- Without an edge for it, the failure of the sub-workflow is lost; and so is that of the action,
when the run that met it crashed. Both executions complete. -/
theorem unwired_swallowed :
    (isValid .ascii nodeRegistry {} (caller false) = true ∧
      ∃ c, Run (labour (callers false) .ascii) (fun _ _ => True) (launched (callers false) [("caller", [])]) c ∧
        ∃ row, c.store[0]? = some row ∧ isCompleted row.execution.status = true ∧ ¬ Heeded row) ∧
    (isValid .ascii nodeRegistry {} pauser = true ∧
      ∃ c, Run (labour pausers .ascii) (fun _ _ => True) (launched pausers [("pauser", [])]) c ∧
        ∃ row, c.store[0]? = some row ∧ isCompleted row.execution.status = true ∧ ¬ Heeded row) := by
  refine ⟨⟨by decide +kernel, ?_⟩, by decide +kernel, ?_⟩
  · obtain ⟨c, hrun, hc⟩ := run_of_exec_any (labour (callers false) .ascii) (fun _ _ => True)
      (launched (callers false) [("caller", [])]) (refused 8)
      (fun c => c.store[0]?.any fun row => isCompleted row.execution.status &&
        row.pinned.graph.nodes.any fun node => decide (node.category = some .subworkflow) &&
          decide ((node.id, "failure") ∈ row.execution.resumed) && !row.pinned.graph.hasFailureEdge node.id)
      (by decide +kernel)
    obtain ⟨row, hrow, hrest⟩ := (Option.any_eq_true _ _).1 hc
    obtain ⟨hcompleted, hnode⟩ := Bool.and_eq_true_iff.1 hrest
    obtain ⟨node, hmem, hnode⟩ := List.any_eq_true.1 hnode
    simp only [Bool.and_eq_true, decide_eq_true_eq, Bool.not_eq_true'] at hnode
    refine ⟨c, hrun, row, hrow, hcompleted, fun h => ?_⟩
    have hedge := h.subworkflows node hmem hnode.1.1 hnode.1.2
    rw [hnode.2] at hedge
    cases hedge
  · obtain ⟨c, hrun, hc⟩ := run_of_exec_any (labour pausers .ascii) (fun _ _ => True)
      (launched pausers [("pauser", [])]) crashed
      (fun c => c.store[0]?.any fun row => isCompleted row.execution.status &&
        row.pinned.graph.nodes.any fun node => decide (node.category = some .action) &&
          (row.execution.nodes.any fun entry => decide (entry.nodeId = node.id) &&
            decide (entry.state.status = .failed)) && !row.pinned.graph.hasFailureEdge node.id)
      (by decide +kernel)
    obtain ⟨row, hrow, hrest⟩ := (Option.any_eq_true _ _).1 hc
    obtain ⟨hcompleted, hnode⟩ := Bool.and_eq_true_iff.1 hrest
    obtain ⟨node, hmem, hnode⟩ := List.any_eq_true.1 hnode
    simp only [Bool.and_eq_true, decide_eq_true_eq, Bool.not_eq_true', List.any_eq_true] at hnode
    refine ⟨c, hrun, row, hrow, hcompleted, fun h => ?_⟩
    have hedge := h.actions node hmem hnode.1.1 hnode.1.2
    rw [hnode.2] at hedge
    cases hedge

end UltraTorrent.Workflows.SwallowedFailures
