import UltraTorrent.Library.Spawning
import UltraTorrent.Workflows.DispatchRounds

/-! Executions that start one another. What a sub-workflow node may start is guarded by the depth
of its execution, which `start` is never told: every row keeps the default, 0. -/
namespace UltraTorrent.Workflows.SubworkflowNesting

open Library.EcmaScript Library.Interleaving Library.Spawning GraphTypes ExecutionPlanner
  WorkflowExecution LoopInvariant DispatchRounds

/-- `MAX_SUBWORKFLOW_DEPTH`. -/
def maxSubworkflowDepth : ℕ := 5

/-- A row of `workflow_executions`, pinned to its version. The last two fields are not stored: which
execution started it from which node, and how many executions are above it. -/
structure ExecutionRow where
  workflowId : String
  pinned : Pinned
  execution : Execution
  parent : Option (ℕ × String)
  level : ℕ

/-- The published version of each workflow that has one. -/
abbrev PublishedWorkflows := List (String × PublishedGraph)

/-- `start`, which fails without a published version. -/
def start (ws : PublishedWorkflows) (workflowId : String) (inputContext : List (String × Value))
    (parent : Option (ℕ × String)) (level : ℕ) : Option ExecutionRow :=
  (ws.lookup workflowId).map fun g => ⟨workflowId, pinned g inputContext, queued, parent, level⟩

/-- `{ ...value }`. -/
def spread : Value → List (String × Value)
  | .object fields => fields
  | .array elements => elements.mapIdx fun i element => (toString i, element)
  | .string text => text.toList.mapIdx fun i c => (toString i, .string (.singleton c))
  | _ => []

/-- What a child is started with: the trigger of its parent, and where to report. -/
def childContext (p : Pinned) (l : Loop) (execution : ℕ) (node : WorkflowNode) :
    List (String × Value) :=
  ("__parentExecutionId", .string (toString execution)) :: ("__parentNodeId", .string node.id) ::
    (spread ((context p l.vars).get "trigger")).filter fun field =>
      field.1 ≠ "__parentExecutionId" && field.1 ≠ "__parentNodeId"

structure Worker where
  execution : ℕ
  call : Call

def starting : Call → Option (Loop × WorkflowNode)
  | .loop l (.start node) => some (l, node)
  | _ => none

/-- A step of what works on one of the executions; a child begins as a row of its own. -/
def work (ws : PublishedWorkflows) (rt : Runtime) (s : List ExecutionRow) (w : Worker)
    (answer : Option Answer) : Option (List ExecutionRow × Worker) :=
  s[w.execution]?.bind fun row =>
    match starting w.call, answer.bind Answer.started? with
    | some (l, node), some true =>
      (start ws node.config.workflowId (childContext row.pinned l w.execution node)
        (some (w.execution, node.id)) (row.level + 1)).map fun child =>
          (s ++ [child], { w with call := .idle })
    | _, _ =>
      (crashing rt row.pinned row.execution w.call answer).map fun next =>
        (s.set w.execution { row with execution := next.1 }, { w with call := next.2 })

abbrev Config := Library.Interleaving.Config ℕ (List ExecutionRow) Worker

/-- One execution, and one worker for each there may come to be. -/
def begun (row : ExecutionRow) : Config := ⟨[row], fun i => ⟨i, .load⟩⟩

def parentOf (s : List ExecutionRow) (i : ℕ) : Option (ℕ × String) := s[i]?.bind (·.parent)

def levelOf (s : List ExecutionRow) (i : ℕ) : ℕ := s[i]?.elim 0 (·.level)

def parked : Call → Option WorkflowNode
  | .loop _ (.park node) => some node
  | _ => none

theorem parked_eq_some {k : Call} {node : WorkflowNode} (h : parked k = some node) :
    ∃ l, k = .loop l (.park node) := by
  unfold parked at h
  split at h <;> cases h
  exact ⟨_, rfl⟩

def PublishedWorkflows.startable (ws : PublishedWorkflows) (node : WorkflowNode) : Bool :=
  decide (node.category = some .subworkflow) && (ws.lookup node.config.workflowId).isSome

/-- Where a sub-workflow is about to be started, the guard decides on the depth that is stored as
it would on the number of executions above. -/
def depthKept (ws : PublishedWorkflows) (s : List ExecutionRow) (w : Worker) (_ : Option Answer) :
    Bool :=
  (parked w.call).all fun node => !ws.startable node || s[w.execution]?.all fun row =>
    canInvoke row.pinned node = canInvoke { row.pinned with depth := row.level } node

/-! ### One execution -/

section Execution

variable {rt : Runtime} {p : Pinned} {s s' : Execution} {k k' : Call} {answer : Answer} {l : Loop}
  {node : WorkflowNode}

def parkedAt : Call → Option WorkflowNode
  | .loop _ stage => parking stage
  | _ => none

theorem parkedAt_of_routine (h : isRoutine k = true) : parkedAt k = none := by
  cases k with
  | loop l stage => cases stage <;> first | rfl | cases h
  | _ => cases h

theorem parkedAt_visit {todo : List WorkflowNode} : parkedAt (visit rt p s l todo).2 = none := by
  cases todo with
  | nil => exact parkedAt_of_routine isRoutine_again
  | cons node todo =>
    rcases process_cases rt p l node todo with h | h | ⟨outcome, h⟩
    all_goals
      simp only [visit, parkedAt, h]
      rfl

theorem parkedAt_retry {g : WorkflowGraph} {attempt : ℕ} {ok : Bool} {todo : List WorkflowNode} :
    parkedAt (.loop l (retry g node attempt ok todo)) = none := by
  rcases retry_cases g node attempt ok todo with ⟨h, -⟩ | ⟨outcome, h⟩ <;> rw [h] <;> rfl

theorem parkedAt_afterWrite {job : Persist} (h : parkedAt (afterWrite l job) = some node) :
    job.node = node ∧ starting (afterWrite l job) = none := by
  rcases afterWrite_cases l job with hnext | hnext | hnext
  · cases (parkedAt_of_routine hnext).symm.trans h
  · rw [hnext] at h ⊢
    cases h
    exact ⟨rfl, rfl⟩
  · rw [hnext] at h ⊢
    cases h
    exact ⟨rfl, rfl⟩

theorem isBusy_of_parkedAt (h : parkedAt k ≠ none) : isBusy k = true := by
  cases k with
  | loop l stage => cases stage <;> first | rfl | exact absurd rfl h
  | _ => exact absurd rfl h

/-- A call parks at the node whose row it has written; it starts a sub-workflow when it has parked
at its node and the guard allows it. -/
theorem parkedAt_step (h : act rt p s k answer = some (s', k')) (hparked : parkedAt k' = some node) :
    (starting k' = none ∧ ((∃ l job existing, k = .loop l (.write job existing) ∧ job.node = node) ∨
        ∃ l, k = .loop l (.approval node))) ∨
      ∃ l, k = .loop l (.park node) ∧ k' = .loop l (.start node) ∧
        node.category = some .subworkflow ∧ canInvoke p node = true := by
  cases busies_of_act h (isBusy_of_parkedAt (by simp [hparked])) with
  | prune l view todo =>
    rw [parkedAt_of_routine isRoutine_prune] at hparked
    cases hparked
  | visit l todo =>
    rw [parkedAt_visit] at hparked
    cases hparked
  | retry l node' attempt ok todo =>
    rw [parkedAt_retry] at hparked
    cases hparked
  | write _ l job existing =>
    obtain ⟨hnode, hstarting⟩ := parkedAt_afterWrite hparked
    exact .inl ⟨hstarting, .inl ⟨l, job, existing, rfl, hnode⟩⟩
  | approval _ l node' =>
    cases hparked
    exact .inl ⟨rfl, .inr ⟨l, rfl⟩⟩
  | start _ l node' hcategory hinvoke =>
    cases hparked
    exact .inr ⟨l, rfl, rfl, hcategory, hinvoke⟩
  | dispatch _ _ _ _ _ | save _ _ _ | find _ _ => cases hparked

end Execution

/-! ### All of them -/

variable {ws : PublishedWorkflows} {rt : Runtime} {s s' : List ExecutionRow} {w w' : Worker}
  {answer : Option Answer} {row child : ExecutionRow} {c : Config}

theorem work_cases (h : work ws rt s w answer = some (s', w')) :
    ∃ row, s[w.execution]? = some row ∧
      ((∃ l node child, starting w.call = some (l, node) ∧
          start ws node.config.workflowId (childContext row.pinned l w.execution node)
            (some (w.execution, node.id)) (row.level + 1) = some child ∧
          s' = s ++ [child] ∧ w' = { w with call := .idle }) ∨
        ∃ next, crashing rt row.pinned row.execution w.call answer = some next ∧
          s' = s.set w.execution { row with execution := next.1 } ∧ w' = { w with call := next.2 }) := by
  obtain ⟨row, hrow, h⟩ := Option.bind_eq_some_iff.1 h
  refine ⟨row, hrow, ?_⟩
  split at h
  · rename_i l node hstarting _
    obtain ⟨child, hchild, h⟩ := Option.map_eq_some_iff.1 h
    cases h
    exact .inl ⟨l, node, child, hstarting, hchild, rfl, rfl⟩
  · obtain ⟨next, hnext, h⟩ := Option.map_eq_some_iff.1 h
    cases h
    exact .inr ⟨next, hnext, rfl, rfl⟩

theorem start_eq_some {workflowId : String} {inputContext : List (String × Value)}
    {parent : Option (ℕ × String)} {level : ℕ}
    (h : start ws workflowId inputContext parent level = some child) :
    ∃ g, ws.lookup workflowId = some g ∧ child = ⟨workflowId, pinned g inputContext, queued, parent, level⟩ := by
  obtain ⟨g, hg, hchild⟩ := Option.map_eq_some_iff.1 h
  exact ⟨g, hg, hchild.symm⟩

/-- What holds of a row and of what works on it. -/
structure RowFit (ws : PublishedWorkflows) (row : ExecutionRow) (k : Call) : Prop where
  graph : ∃ g, ws.lookup row.workflowId = some g ∧ row.pinned.graph = g.toWorkflowGraph
  depth : row.pinned.depth = 0
  tidy : Tidy row.execution.nodes
  sound : SoundCall row.pinned.graph row.execution.nodes k

/-- Every child was started from a node that has its row by now, and no node twice. -/
structure Nested (ws : PublishedWorkflows) (c : Config) : Prop where
  worker : ∀ i, (c.call i).execution = i
  ahead : ∀ i, c.store.length ≤ i → (c.call i).call = .load
  row : ∀ i row, c.store[i]? = some row → RowFit ws row (c.call i).call
  spawned : Spawned c.store.length (parentOf c.store) (levelOf c.store)
  used : ∀ i q n, parentOf c.store i = some (q, n) → ∃ row, c.store[q]? = some row ∧
    n ∈ row.pinned.graph.nodes.map (·.id) ∧ ¬ Fresh row.execution.nodes n
  unstarted : ∀ i row node, c.store[i]? = some row → parkedAt (c.call i).call = some node →
    ∀ j, parentOf c.store j ≠ some (i, node.id)

theorem parentOf_lt {i : ℕ} {link : ℕ × String} (h : parentOf s i = some link) : i < s.length := by
  obtain ⟨row, hrow, -⟩ := Option.bind_eq_some_iff.1 h
  exact List.getElem?_eq_some_iff.1 hrow |>.1

theorem set_row {e i : ℕ} {execution : Execution} (hrow : s[e]? = some row) :
    (s.set e { row with execution })[i]? =
      if i = e then some { row with execution } else s[i]? := by
  have he := (List.getElem?_eq_some_iff.1 hrow).1
  rw [List.getElem?_set]
  split_ifs with hei hie hie
  · rfl
  · exact absurd hei.symm hie
  · exact absurd hie.symm hei
  · rfl

theorem parentOf_set {e : ℕ} (execution : Execution) (hrow : s[e]? = some row) :
    parentOf (s.set e { row with execution }) = parentOf s ∧
      levelOf (s.set e { row with execution }) = levelOf s := by
  refine ⟨funext fun i => ?_, funext fun i => ?_⟩
  · rw [parentOf, parentOf, set_row hrow]
    split_ifs with hi
    · rw [hi, hrow]
      rfl
    · rfl
  · rw [levelOf, levelOf, set_row hrow]
    split_ifs with hi
    · rw [hi, hrow]
      rfl
    · rfl

theorem append_row {i : ℕ} (hi : i < s.length) : (s ++ [child])[i]? = s[i]? :=
  List.getElem?_append_left hi

theorem append_last : (s ++ [child])[s.length]? = some child := by simp

theorem parentOf_append {i : ℕ} (hi : i < s.length) :
    parentOf (s ++ [child]) i = parentOf s i ∧ levelOf (s ++ [child]) i = levelOf s i := by
  rw [parentOf, levelOf, append_row hi]
  exact ⟨rfl, rfl⟩

theorem parentOf_last : parentOf (s ++ [child]) s.length = child.parent ∧
    levelOf (s ++ [child]) s.length = child.level := by
  rw [parentOf, levelOf, append_last]
  exact ⟨rfl, rfl⟩

/-- A link is an old one, or that of the child. -/
theorem parentOf_append_cases {i : ℕ} {link : ℕ × String} (h : parentOf (s ++ [child]) i = some link) :
    parentOf s i = some link ∨ i = s.length ∧ child.parent = some link := by
  have hi := parentOf_lt h
  rw [List.length_append, List.length_singleton] at hi
  rcases Nat.lt_succ_iff_lt_or_eq.1 hi with hi | rfl
  · exact .inl ((parentOf_append hi).1 ▸ h)
  · exact .inr ⟨rfl, parentOf_last.1 ▸ h⟩

theorem append_cases {i : ℕ} (h : (s ++ [child])[i]? = some row) :
    s[i]? = some row ∨ i = s.length ∧ row = child := by
  rcases Nat.lt_trichotomy i s.length with hi | rfl | hi
  · exact .inl (append_row hi ▸ h)
  · rw [append_last] at h
    exact .inr ⟨rfl, (Option.some.inj h).symm⟩
  · rw [List.getElem?_eq_none (by simp; omega)] at h
    cases h

theorem RowFit.nodup {k : Call} (h : RowFit ws row k) : (row.pinned.graph.nodes.map (·.id)).Nodup := by
  obtain ⟨g, -, hgraph⟩ := h.graph
  rw [hgraph]
  exact g.nodup

theorem RowFit.step {k : Call} {next : Execution × Call} (h : RowFit ws row k)
    (hact : crashing rt row.pinned row.execution k answer = some next) :
    RowFit ws { row with execution := next.1 } next.2 := by
  obtain ⟨s', k'⟩ := next
  cases answer with
  | none =>
    cases hact
    exact ⟨h.graph, h.depth, h.tidy, trivial⟩
  | some answer =>
    obtain ⟨htidy, hsound⟩ := soundCall_step h.nodup h.tidy h.sound hact
    exact ⟨h.graph, h.depth, htidy, hsound⟩

theorem fresh_of_crashing {k : Call} {p : Pinned} {execution : Execution} {next : Execution × Call}
    {id : String} (hact : crashing rt p execution k answer = some next)
    (hfresh : Fresh next.1.nodes id) : Fresh execution.nodes id := by
  cases answer with
  | none =>
    cases hact
    exact hfresh
  | some answer => exact hfresh.of_step hact

theorem parkedAt_crashing {k : Call} {p : Pinned} {execution : Execution} {next : Execution × Call}
    {node : WorkflowNode} (hact : crashing rt p execution k answer = some next)
    (hparked : parkedAt next.2 = some node) :
    parkedAt k = some node ∨ ∃ l job existing, k = .loop l (.write job existing) ∧ job.node = node := by
  cases answer with
  | none =>
    cases hact
    cases hparked
  | some answer =>
    rcases parkedAt_step hact hparked with ⟨-, hwrite | ⟨l, rfl⟩⟩ | ⟨l, rfl, -⟩
    · exact .inr hwrite
    · exact .inl rfl
    · exact .inl rfl

theorem Nested.worker_update (h : Nested ws c) (i : ℕ) (k : Call) (j : ℕ) :
    (Function.update c.call i { c.call i with call := k } j).execution = j := by
  by_cases hji : j = i
  · rw [hji, Function.update_self]
    exact h.worker i
  · rw [Function.update_of_ne hji]
    exact h.worker j

theorem Nested.go {i : ℕ} {next : Execution × Call} (h : Nested ws c) (hrow : c.store[i]? = some row)
    (hact : crashing rt row.pinned row.execution (c.call i).call answer = some next) :
    Nested ws ⟨c.store.set i { row with execution := next.1 },
      Function.update c.call i { c.call i with call := next.2 }⟩ := by
  obtain ⟨hparent, hlevel⟩ := parentOf_set next.1 hrow
  have hi : i < c.store.length := (List.getElem?_eq_some_iff.1 hrow).1
  refine ⟨fun j => ?_, fun j hj => ?_, fun j other hother => ?_, ?_, fun j q n hlink => ?_,
    fun j other node hother hparked m => ?_⟩ <;> dsimp only at *
  · exact h.worker_update i _ j
  · rw [List.length_set] at hj
    rw [Function.update_of_ne (by omega)]
    exact h.ahead j hj
  · rw [set_row hrow] at hother
    by_cases hji : j = i
    · rw [if_pos hji] at hother
      cases hother
      rw [hji, Function.update_self]
      exact (h.row i row hrow).step hact
    · rw [if_neg hji] at hother
      rw [Function.update_of_ne hji]
      exact h.row j other hother
  · rw [List.length_set, hparent, hlevel]
    exact h.spawned
  · rw [hparent] at hlink
    obtain ⟨starter, hstarter, hnode, hused⟩ := h.used j q n hlink
    by_cases hq : q = i
    · subst hq
      cases hrow.symm.trans hstarter
      refine ⟨{ row with execution := next.1 }, ?_, hnode, fun hfresh => hused (fresh_of_crashing hact hfresh)⟩
      rw [set_row hrow, if_pos rfl]
    · refine ⟨starter, ?_, hnode, hused⟩
      rw [set_row hrow, if_neg hq]
      exact hstarter
  · rw [hparent]
    rw [set_row hrow] at hother
    by_cases hji : j = i
    · subst hji
      rw [Function.update_self] at hparked
      rcases parkedAt_crashing hact hparked with hbefore | ⟨l, job, existing, hcall, rfl⟩
      · exact h.unstarted j row node hrow hbefore m
      · intro hlink
        obtain ⟨starter, hstarter, -, hused⟩ := h.used m j job.node.id hlink
        cases hrow.symm.trans hstarter
        have hsound : Sound row.pinned.graph row.execution.nodes l (.write job existing) := by
          have hsound := (h.row j row hrow).sound
          rwa [hcall] at hsound
        exact hused (hsound.fresh job.node List.mem_cons_self)
    · rw [if_neg hji] at hother
      rw [Function.update_of_ne hji] at hparked
      exact h.unstarted j other node hother hparked m

theorem starting_eq_some {k : Call} {l : Loop} {node : WorkflowNode} :
    starting k = some (l, node) ↔ k = .loop l (.start node) := by
  constructor
  · intro h
    unfold starting at h
    split at h <;> cases h
    rfl
  · rintro rfl
    rfl

theorem Nested.start {i : ℕ} {l : Loop} {node : WorkflowNode} (h : Nested ws c)
    (hrow : c.store[i]? = some row) (hstarting : starting (c.call i).call = some (l, node))
    (hchild : SubworkflowNesting.start ws node.config.workflowId
      (childContext row.pinned l i node) (some (i, node.id)) (row.level + 1) = some child) :
    Nested ws ⟨c.store ++ [child], Function.update c.call i { c.call i with call := .idle }⟩ := by
  have hcall := starting_eq_some.1 hstarting
  have hi : i < c.store.length := (List.getElem?_eq_some_iff.1 hrow).1
  have hsound : Sound row.pinned.graph row.execution.nodes l (.start node) := by
    have hsound := (h.row i row hrow).sound
    rwa [hcall] at hsound
  obtain ⟨hmem, hwaiting⟩ := hsound.ofParked node rfl
  have hunused : ∀ j, parentOf c.store j ≠ some (i, node.id) :=
    h.unstarted i row node hrow (by rw [hcall]; rfl)
  obtain ⟨g, hg, rfl⟩ := start_eq_some hchild
  refine ⟨fun j => ?_, fun j hj => ?_, fun j other hother => ?_, ?_, fun j q n hlink => ?_,
    fun j other node' hother hparked m hlink => ?_⟩ <;> dsimp only at *
  · exact h.worker_update i _ j
  · rw [List.length_append] at hj
    rw [Function.update_of_ne (by omega)]
    exact h.ahead j (by omega)
  · rcases append_cases hother with hother | ⟨rfl, rfl⟩
    · have hfit := h.row j other hother
      by_cases hji : j = i
      · rw [hji, Function.update_self]
        exact ⟨hfit.graph, hfit.depth, hfit.tidy, trivial⟩
      · rw [Function.update_of_ne hji]
        exact hfit
    · rw [Function.update_of_ne (by omega), h.ahead _ le_rfl]
      exact ⟨⟨g, hg, rfl⟩, rfl, ⟨List.nodup_nil, by simp [queued]⟩, trivial⟩
  · rw [List.length_append, List.length_singleton]
    refine h.spawned.start (fun j hj => parentOf_append hj) hi parentOf_last.1 ?_ fun j _ => hunused j
    rw [parentOf_last.2, levelOf, hrow]
    rfl
  · rcases parentOf_append_cases hlink with hlink | ⟨-, hnew⟩
    · obtain ⟨starter, hstarter, hused⟩ := h.used j q n hlink
      refine ⟨starter, ?_, hused⟩
      rw [append_row (List.getElem?_eq_some_iff.1 hstarter).1]
      exact hstarter
    · cases hnew
      refine ⟨row, ?_, List.mem_map_of_mem hmem, fun hfresh => ?_⟩
      · rw [append_row hi]
        exact hrow
      · rw [loadStates_eq_none.2 hfresh] at hwaiting
        cases hwaiting
  · have hold : ∃ hlt : j < c.store.length, j ≠ i ∧ parkedAt (c.call j).call = some node' := by
      by_cases hji : j = i
      · rw [hji, Function.update_self] at hparked
        cases hparked
      · rw [Function.update_of_ne hji] at hparked
        rcases append_cases hother with hother | ⟨rfl, -⟩
        · exact ⟨(List.getElem?_eq_some_iff.1 hother).1, hji, hparked⟩
        · rw [h.ahead _ le_rfl] at hparked
          cases hparked
    obtain ⟨hlt, hji, hparked⟩ := hold
    rw [append_row hlt] at hother
    rcases parentOf_append_cases hlink with hlink | ⟨-, hnew⟩
    · exact h.unstarted j other node' hother hparked m hlink
    · exact hji (congrArg Prod.fst (Option.some.inj hnew)).symm

theorem Nested.step {i : ℕ} (h : Nested ws c) (hwork : work ws rt c.store (c.call i) answer = some (s', w')) :
    Nested ws ⟨s', Function.update c.call i w'⟩ := by
  obtain ⟨row, hrow, ⟨l, node, child, hstarting, hchild, rfl, rfl⟩ | ⟨next, hact, rfl, rfl⟩⟩ := work_cases hwork
  · rw [h.worker i] at hrow hchild
    exact h.start hrow hstarting hchild
  · rw [h.worker i] at hrow
    simpa only [h.worker i] using h.go hrow hact

/-! ### Depth -/

theorem canInvoke_iff {p : Pinned} {node : WorkflowNode} :
    canInvoke p node = true ↔ node.config.workflowId ≠ "" ∧ p.depth + 1 ≤ maxSubworkflowDepth := by
  simp [canInvoke, maxSubworkflowDepth]

theorem starting_crashing {k : Call} {p : Pinned} {execution : Execution} {next : Execution × Call}
    {l : Loop} {node : WorkflowNode} (hact : crashing rt p execution k answer = some next)
    (hstarting : starting next.2 = some (l, node)) :
    parked k = some node ∧ node.category = some .subworkflow ∧ canInvoke p node = true := by
  have hnext := starting_eq_some.1 hstarting
  cases answer with
  | none =>
    cases hact
    cases hstarting
  | some answer =>
    rcases parkedAt_step hact (by rw [hnext]; rfl : parkedAt next.2 = some node) with
      ⟨hnone, -⟩ | ⟨l, rfl, -, hcategory, hinvoke⟩
    · cases hnone.symm.trans hstarting
    · exact ⟨rfl, hcategory, hinvoke⟩

/-- No execution is too deep, nor will be what is about to be started. -/
structure Shallow (ws : PublishedWorkflows) (c : Config) : Prop where
  level : ∀ (i : ℕ) (row : ExecutionRow), c.store[i]? = some row → row.level ≤ maxSubworkflowDepth
  next : ∀ (i : ℕ) (row : ExecutionRow) l node, c.store[i]? = some row →
    starting (c.call i).call = some (l, node) → (ws.lookup node.config.workflowId).isSome = true →
    row.level + 1 ≤ maxSubworkflowDepth

theorem Shallow.step {i : ℕ} (hnested : Nested ws c) (h : Shallow ws c)
    (hkept : depthKept ws c.store (c.call i) answer = true)
    (hwork : work ws rt c.store (c.call i) answer = some (s', w')) :
    Shallow ws ⟨s', Function.update c.call i w'⟩ := by
  obtain ⟨row, hrow, hcases⟩ := work_cases hwork
  rw [hnested.worker i] at hrow hcases
  rcases hcases with ⟨l, node, child, hstarting, hchild, rfl, rfl⟩ | ⟨next, hact, rfl, rfl⟩
  · obtain ⟨g, hg, rfl⟩ := start_eq_some hchild
    refine ⟨fun j other hother => ?_, fun j other l' node' hother hstarting' hpublished => ?_⟩ <;>
      dsimp only at *
    · rcases append_cases hother with hother | ⟨-, rfl⟩
      · exact h.level j other hother
      · exact h.next i row l node hrow hstarting (by rw [hg]; rfl)
    · by_cases hji : j = i
      · rw [hji, Function.update_self] at hstarting'
        cases hstarting'
      · rw [Function.update_of_ne hji] at hstarting'
        rcases append_cases hother with hother | ⟨rfl, -⟩
        · exact h.next j other l' node' hother hstarting' hpublished
        · have hcall := starting_eq_some.1 hstarting'
          cases (hnested.ahead _ le_rfl).symm.trans hcall
  · refine ⟨fun j other hother => ?_, fun j other l' node' hother hstarting' hpublished => ?_⟩ <;>
      dsimp only at * <;> rw [set_row hrow] at hother <;> by_cases hji : j = i
    · rw [if_pos hji] at hother
      cases hother
      exact h.level i row hrow
    · rw [if_neg hji] at hother
      exact h.level j other hother
    · rw [if_pos hji] at hother
      cases hother
      rw [hji, Function.update_self] at hstarting'
      obtain ⟨hparked, hcategory, hinvoke⟩ := starting_crashing hact hstarting'
      have hsame : canInvoke row.pinned node' = canInvoke { row.pinned with depth := row.level } node' := by
        have hstartable : ws.startable node' = true := by
          simp [PublishedWorkflows.startable, hcategory, hpublished]
        simpa [depthKept, hparked, hstartable, hnested.worker i, hrow] using hkept
      rw [hsame, canInvoke_iff] at hinvoke
      exact hinvoke.2
    · rw [if_neg hji] at hother
      rw [Function.update_of_ne hji] at hstarting'
      exact h.next j other l' node' hother hstarting' hpublished

def PublishedWorkflows.width (ws : PublishedWorkflows) : ℕ :=
  (ws.map fun w => w.2.nodes.length).foldr max 0

theorem length_le_width {workflowId : String} {g : PublishedGraph}
    (h : ws.lookup workflowId = some g) : g.nodes.length ≤ ws.width := by
  obtain ⟨before, after, hws, -⟩ := List.lookup_eq_some_iff.1 h
  have hmem : (workflowId, g) ∈ ws := by rw [hws]; simp
  exact List.le_max_of_le' 0 (List.mem_map_of_mem (f := fun w => w.2.nodes.length) hmem) le_rfl

/-! ### Runs -/

theorem nested_begun {workflowId : String} {inputContext : List (String × Value)}
    (hstart : start ws workflowId inputContext none 0 = some row) : Nested ws (begun row) := by
  obtain ⟨g, hg, rfl⟩ := start_eq_some hstart
  have hone : ∀ {i : ℕ} {row : ExecutionRow}, i < [row].length → i = 0 := fun hi => by simpa using hi
  refine ⟨fun i => rfl, fun i _ => rfl, fun i row hrow => ?_, ?_, fun i q n hlink => ?_,
    fun i row node _ hparked => by cases hparked⟩
  · obtain rfl := hone (List.getElem?_eq_some_iff.1 hrow).1
    cases hrow
    exact ⟨⟨g, hg, rfl⟩, rfl, ⟨List.nodup_nil, by simp [queued]⟩, trivial⟩
  · refine ⟨fun i hi _ => ?_, fun i hi q slot hlink => ?_, fun i hi j hj _ => ?_⟩
    · obtain rfl := hone hi
      rfl
    · obtain rfl := hone hi
      cases hlink
    · exact (hone hi).trans (hone hj).symm
  · obtain rfl := hone (parentOf_lt hlink)
    cases hlink

theorem shallow_begun {workflowId : String} {inputContext : List (String × Value)}
    (hstart : start ws workflowId inputContext none 0 = some row) : Shallow ws (begun row) := by
  obtain ⟨g, -, rfl⟩ := start_eq_some hstart
  refine ⟨fun i row hrow => ?_, fun i row l node _ hstarting => by cases hstarting⟩
  have hi := (List.getElem?_eq_some_iff.1 hrow).1
  obtain rfl : i = 0 := by simpa [begun] using hi
  cases hrow
  exact Nat.zero_le _

/-! ### References -/

/-- Workflows that are reached over so many sub-workflow references. -/
inductive Refers (ws : PublishedWorkflows) (workflowId : String) : ℕ → String → Prop
  | refl : Refers ws workflowId 0 workflowId
  | tail {k : ℕ} {w : String} {g : PublishedGraph} {node : WorkflowNode} : Refers ws workflowId k w →
      ws.lookup w = some g → node ∈ g.nodes → ws.startable node = true →
      Refers ws workflowId (k + 1) node.config.workflowId

/-- An execution lies as deep as its workflow is reached. -/
structure Referred (ws : PublishedWorkflows) (workflowId : String) (c : Config) : Prop where
  reached : ∀ row ∈ c.store, Refers ws workflowId row.level row.workflowId
  category : ∀ i l node, starting (c.call i).call = some (l, node) → node.category = some .subworkflow

theorem Referred.step {workflowId : String} {i : ℕ} (hnested : Nested ws c)
    (h : Referred ws workflowId c) (hwork : work ws rt c.store (c.call i) answer = some (s', w')) :
    Referred ws workflowId ⟨s', Function.update c.call i w'⟩ := by
  obtain ⟨row, hrow, hcases⟩ := work_cases hwork
  rw [hnested.worker i] at hrow
  have hfit := hnested.row i row hrow
  have hmem : row ∈ c.store := List.mem_of_getElem? hrow
  rcases hcases with ⟨l, node, child, hstarting, hchild, rfl, rfl⟩ | ⟨next, hact, rfl, rfl⟩
  · obtain ⟨g', hg', rfl⟩ := start_eq_some hchild
    obtain ⟨g, hg, hgraph⟩ := hfit.graph
    have hsound : Sound row.pinned.graph row.execution.nodes l (.start node) := by
      have hsound := hfit.sound
      rwa [starting_eq_some.1 hstarting] at hsound
    have hnode : node ∈ g.nodes := hgraph ▸ (hsound.ofParked node rfl).1
    have hstartable : ws.startable node = true := by
      simp [PublishedWorkflows.startable, h.category i l node hstarting, hg']
    refine ⟨fun other hother => ?_, fun j l' node' hstarting' => ?_⟩ <;> dsimp only at *
    · rcases List.mem_append.1 hother with hother | hother
      · exact h.reached other hother
      · rw [List.mem_singleton.1 hother]
        exact .tail (h.reached row hmem) hg hnode hstartable
    · by_cases hji : j = i
      · rw [hji, Function.update_self] at hstarting'
        cases hstarting'
      · rw [Function.update_of_ne hji] at hstarting'
        exact h.category j l' node' hstarting'
  · refine ⟨fun other hother => ?_, fun j l' node' hstarting' => ?_⟩ <;> dsimp only at *
    · rcases List.mem_or_eq_of_mem_set hother with hother | rfl
      · exact h.reached other hother
      · exact h.reached row hmem
    · by_cases hji : j = i
      · rw [hji, Function.update_self] at hstarting'
        exact (starting_crashing hact hstarting').2.1
      · rw [Function.update_of_ne hji] at hstarting'
        exact h.category j l' node' hstarting'

/-- Where no workflow is reached over more references than the nesting allows, no run of the first
one comes to where the stored depth misleads the guard. -/
theorem guarded_of_refers {workflowId : String} {inputContext : List (String × Value)}
    (hrefers : ∀ k w, Refers ws workflowId k w → k ≤ maxSubworkflowDepth)
    (hstart : start ws workflowId inputContext none 0 = some row)
    (h : Run (work ws rt) (fun _ _ => True) (begun row) c) :
    Run (guarded (depthKept ws) (work ws rt)) (fun _ _ => True) (begun row) c := by
  have hbegun : Referred ws workflowId (begun row) := by
    obtain ⟨g, -, rfl⟩ := start_eq_some hstart
    refine ⟨fun other hother => ?_, fun i l node hstarting => by cases hstarting⟩
    rw [List.mem_singleton.1 hother]
    exact .refl
  refine And.left (h.invariant (P := fun c =>
    Run (guarded (depthKept ws) (work ws rt)) (fun _ _ => True) (begun row) c ∧ Nested ws c ∧
      Referred ws workflowId c) ⟨.refl, nested_begun hstart, hbegun⟩ ?_)
  rintro c i answer s' w' ⟨hrun, hnested, hreferred⟩ - hwork
  refine ⟨.tail i answer hrun trivial (step_eq_some.2 ⟨s', w', guarded_eq_some.2 ⟨?_, hwork⟩, rfl⟩),
    hnested.step hwork, hreferred.step hnested hwork⟩
  rw [depthKept, Option.all_eq_true]
  intro node hparked
  by_cases hstartable : ws.startable node = true
  · have hreach : ∀ row, c.store[i]? = some row →
        canInvoke row.pinned node = canInvoke { row.pinned with depth := row.level } node := by
      intro row hrow
      have hfit := hnested.row i row hrow
      obtain ⟨g, hg, hgraph⟩ := hfit.graph
      have hmem : node ∈ g.nodes := by
        obtain ⟨l, hcall⟩ := parked_eq_some hparked
        have hsound := hfit.sound
        rw [hcall] at hsound
        exact hgraph ▸ (hsound.ofParked node rfl).1
      have hdeep := hrefers _ _ (.tail (hreferred.reached row (List.mem_of_getElem? hrow)) hg hmem hstartable)
      rw [Bool.eq_iff_iff, canInvoke_iff, canInvoke_iff, hfit.depth]
      exact and_congr_right fun _ => ⟨fun _ => hdeep, fun _ => by decide⟩
    rw [hnested.worker i, hstartable, Bool.not_true, Bool.false_or, Option.all_eq_true]
    exact fun row hrow => decide_eq_true (hreach row hrow)
  · simp [hstartable]

/-- No chain of executions is longer than the deepest nesting allows, and their number is bounded by
the workflows alone. -/
def Bounded (ws : PublishedWorkflows) (s : List ExecutionRow) : Prop :=
  (∀ chain, List.IsChain (StartedBy (parentOf s)) chain → (∀ i ∈ chain, i < s.length) →
      chain.length ≤ maxSubworkflowDepth + 1) ∧
    s.length ≤ ∑ k ∈ Finset.range (maxSubworkflowDepth + 1), ws.width ^ k

theorem bounded_of_guarded {workflowId : String} {inputContext : List (String × Value)}
    (hstart : start ws workflowId inputContext none 0 = some row)
    (h : Run (guarded (depthKept ws) (work ws rt)) (fun _ _ => True) (begun row) c) :
    Bounded ws c.store := by
  have hinv : Nested ws c ∧ Shallow ws c := by
    refine h.invariant (P := fun c => Nested ws c ∧ Shallow ws c) ⟨nested_begun hstart, shallow_begun hstart⟩ ?_
    rintro c i answer s' w' ⟨hnested, hshallow⟩ - hwork
    obtain ⟨hkept, hwork⟩ := guarded_eq_some.1 hwork
    exact ⟨hnested.step hwork, hshallow.step hnested hkept hwork⟩
  obtain ⟨hnested, hshallow⟩ := hinv
  have hdepth : ∀ i < c.store.length, levelOf c.store i ≤ maxSubworkflowDepth := by
    intro i hi
    have hrow := List.getElem?_eq_getElem hi
    rw [levelOf, hrow]
    exact hshallow.level i _ hrow
  refine ⟨fun chain hchain hmem => hnested.spawned.length_le hdepth hchain hmem, ?_⟩
  refine hnested.spawned.size_le (fun q => (c.store[q]?.elim [] fun row =>
    row.pinned.graph.nodes.map (·.id)).toFinset) hdepth (fun i hi q slot hlink => ?_) fun q hq => ?_
  · obtain ⟨starter, hstarter, hmem, -⟩ := hnested.used i q slot hlink
    rw [hstarter]
    exact List.mem_toFinset.2 hmem
  · have hrow := List.getElem?_eq_getElem hq
    obtain ⟨g, hg, hgraph⟩ := (hnested.row q _ hrow).graph
    rw [hrow]
    refine (List.toFinset_card_le _).trans ?_
    rw [Option.elim_some, List.length_map, hgraph]
    exact length_le_width hg

/-- Where no workflow is reached over more references than the nesting allows, every run of the first
one is bounded; and so is every run in which the guard is always as on the actual depth. -/
theorem nesting_bounded {workflowId : String} {inputContext : List (String × Value)}
    (hstart : start ws workflowId inputContext none 0 = some row) :
    ((∀ k w, Refers ws workflowId k w → k ≤ maxSubworkflowDepth) →
        ∀ c, Run (work ws rt) (fun _ _ => True) (begun row) c → Bounded ws c.store) ∧
      ∀ c, Run (guarded (depthKept ws) (work ws rt)) (fun _ _ => True) (begun row) c →
        Bounded ws c.store :=
  ⟨fun hrefers _ h => bounded_of_guarded hstart (guarded_of_refers hrefers hstart h),
    fun _ h => bounded_of_guarded hstart h⟩

def subworkflow (workflowId : String) : WorkflowNode where
  id := "sub"
  definition := some ⟨.subworkflow, ["out", "failure"], none⟩
  config := { workflowId := workflowId }

/-- A workflow that only starts another. -/
def invoking (workflowId : String) : PublishedGraph where
  nodes := [manualTrigger, subworkflow workflowId]
  edges := [⟨"trigger", none, "sub"⟩]
  nodup := by simp [manualTrigger, subworkflow]

/-- A run that starts a sub-workflow. -/
def invocation (execution : ℕ) : List (ℕ × Option Answer) :=
  [(execution, some .go), (execution, some (.grant none))] ++
    List.replicate 13 (execution, some .go) ++
    [(execution, some (.clock 0)), (execution, some (.started true))]

/-- Two workflows that start each other. -/
def eachOther : PublishedWorkflows := [("a", invoking "b"), ("b", invoking "a")]

/-- The second one refers to a workflow that is not published. -/
def oneAfterAnother : PublishedWorkflows := [("a", invoking "b"), ("b", invoking "c")]

def first : ExecutionRow := ⟨"a", pinned (invoking "b") [], queued, none, 0⟩

theorem start_first : start eachOther "a" [] none 0 = some first := rfl

theorem refers_oneAfterAnother {k : ℕ} {w : String} (h : Refers oneAfterAnother "a" k w) :
    k = 0 ∧ w = "a" ∨ k = 1 ∧ w = "b" := by
  induction h with
  | refl => exact .inl ⟨rfl, rfl⟩
  | tail _ hg hnode hstartable ih =>
    rcases ih with ⟨rfl, rfl⟩ | ⟨rfl, rfl⟩ <;> cases hg
    all_goals
      rcases List.mem_pair.1 hnode with rfl | rfl
      all_goals revert hstartable; decide

/-- Once in a run of any kind, and once in one whose guard is as it should be. -/
theorem nested_once :
    (∃ c, Run (work oneAfterAnother .ascii) (fun _ _ => True) (begun first) c ∧
      c.store.length = 2 ∧ Bounded oneAfterAnother c.store) ∧
    ∃ c, Run (guarded (depthKept eachOther) (work eachOther .ascii)) (fun _ _ => True) (begun first) c ∧
      c.store.length = 2 ∧ Bounded eachOther c.store := by
  have hrefers : ∀ k w, Refers oneAfterAnother "a" k w → k ≤ maxSubworkflowDepth := by
    intro k w h
    rcases refers_oneAfterAnother h with ⟨rfl, -⟩ | ⟨rfl, -⟩ <;> decide
  obtain ⟨c, hrun, hc⟩ := run_of_exec_any (work oneAfterAnother .ascii) (fun _ _ => True)
    (begun first) (invocation 0) (fun c => c.store.length = 2) (by decide +kernel)
  obtain ⟨c', hrun', hc'⟩ := run_of_exec_any (guarded (depthKept eachOther) (work eachOther .ascii))
    (fun _ _ => True) (begun first) (invocation 0) (fun c => c.store.length = 2) (by decide +kernel)
  exact ⟨⟨c, hrun, of_decide_eq_true hc, (nesting_bounded rfl).1 hrefers c hrun⟩,
    c', hrun', of_decide_eq_true hc', (nesting_bounded start_first).2 c' hrun'⟩

/-- Each execution is stored at depth 0, and the seventh is started like the second. -/
theorem nested_sevenfold : ¬ ∀ c, Run (work eachOther .ascii) (fun _ _ => True) (begun first) c →
    ∀ chain, List.IsChain (StartedBy (parentOf c.store)) chain → (∀ i ∈ chain, i < c.store.length) →
      chain.length ≤ maxSubworkflowDepth + 1 := by
  intro h
  obtain ⟨c, hrun, hc⟩ := run_of_exec_any (work eachOther .ascii) (fun _ _ => True) (begun first)
    ((List.range 6).flatMap invocation)
    (fun c => c.store.length = 7 && (List.range 6).all fun i => parentOf c.store (i + 1) = some (i, "sub"))
    (by decide +kernel)
  obtain ⟨hlength, hparent⟩ := Bool.and_eq_true_iff.1 hc
  have hlength := of_decide_eq_true hlength
  have hstarted : ∀ i < 6, StartedBy (parentOf c.store) (i + 1) i := fun i hi =>
    ⟨"sub", of_decide_eq_true (List.all_eq_true.1 hparent i (List.mem_range.2 hi))⟩
  have hchain : List.IsChain (StartedBy (parentOf c.store)) [6, 5, 4, 3, 2, 1, 0] := by
    simp [hstarted]
  have hshort := h c hrun _ hchain (by simp [hlength])
  exact absurd hshort (by decide)

end UltraTorrent.Workflows.SubworkflowNesting
