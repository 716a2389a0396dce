import UltraTorrent.Workflows.WorkflowExecution

/-! What a run of the loop keeps while nothing else works on its execution: every node has one row
at most, the loop knows what is in the rows, and what it has yet to come to has no row. -/
namespace UltraTorrent.Workflows.LoopInvariant

open Library.EcmaScript GraphTypes ExecutionPlanner WorkflowStatus WorkflowExecution

/-- No row is of this node. -/
def Fresh (rows : List NodeExecution) (id : String) : Prop := ∀ row ∈ rows, row.nodeId ≠ id

/-- A status that a row is written with. -/
def isStored : NodeRunStatus → Bool
  | .pending | .running => false
  | .waiting | .succeeded | .failed | .skipped => true

/-- The rows of an execution: one of a node, and none left before its end. -/
structure Tidy (rows : List NodeExecution) : Prop where
  nodup : (rows.map (·.nodeId)).Nodup
  stored : ∀ row ∈ rows, isStored row.state.status = true

/-- What the loop goes on to when the row is written. -/
def rest : Next → List WorkflowNode
  | .pruned view todo => todo ++ view.ready
  | .processed _ todo => todo
  | .armed => []

/-- The nodes whose rows the wave has still to write. -/
def ahead : Stage → List WorkflowNode
  | .prune view todo => todo ++ view.ready
  | .process todo => todo
  | .dispatch node _ todo | .calling node _ todo => node :: todo
  | .save node => [node]
  | .find job | .write job _ => job.node :: rest job.next
  | .check | .approval _ | .park _ | .start _ | .finish _ => []

/-- The node the loop parks at, its row written. -/
def parking : Stage → Option WorkflowNode
  | .approval node | .park node | .start node => some node
  | _ => none

/-- The row that is about to be written. -/
def writing : Stage → Option Persist
  | .find job | .write job _ => some job
  | _ => none

/-- The rows of the loop's nodes are as it expects them. -/
structure Sound (g : WorkflowGraph) (rows : List NodeExecution) (l : Loop) (stage : Stage) : Prop where
  states : parking stage = none → l.states = loadStates rows
  nodup : ((ahead stage).map (·.id)).Nodup
  fresh : ∀ n ∈ ahead stage, Fresh rows n.id
  mem : ∀ n ∈ ahead stage, n ∈ g.nodes
  stored : ∀ job ∈ writing stage, isStored job.state.status = true
  found : ∀ job existing, stage = .write job existing → existing = none
  armed : ∀ job ∈ writing stage, job.next = .armed → job.state = ⟨.waiting, []⟩
  ofParked : ∀ node ∈ parking stage, node ∈ g.nodes ∧ loadStates rows node.id = some ⟨.waiting, []⟩

/-- The same for any call; only a loop holds on to what it has read. -/
def SoundCall (g : WorkflowGraph) (rows : List NodeExecution) : Call → Prop
  | .setRunning l => l.states = loadStates rows
  | .loop l stage => Sound g rows l stage
  | _ => True

variable {g : WorkflowGraph} {rows : List NodeExecution} {id : String} {state : NodeRunState}

/-! ### Rows -/

theorem findNode_of_fresh (h : Fresh rows id) : findNode rows id = none := by
  rw [findNode, List.findIdx?_eq_none_iff]
  intro row hrow
  exact decide_eq_false (h row hrow)

theorem loadStates_eq_none : loadStates rows id = none ↔ Fresh rows id := by
  simp [loadStates, Fresh]

theorem loadStates_append :
    loadStates (rows ++ [⟨id, state⟩]) = Function.update (loadStates rows) id (some state) := by
  funext other
  by_cases hother : other = id
  · rw [hother, Function.update_self]
    simp [loadStates]
  · rw [Function.update_of_ne hother]
    simp [loadStates, Ne.symm hother]

/-- A row says where its node stands. -/
theorem loadStates_of_mem (htidy : Tidy rows) {row : NodeExecution} (hrow : row ∈ rows) :
    loadStates rows row.nodeId = some row.state := by
  cases hfind : rows.reverse.find? fun other => other.nodeId = row.nodeId with
  | none =>
    have hnone := List.find?_eq_none.1 hfind row (List.mem_reverse.2 hrow)
    simp at hnone
  | some other =>
    have hmem := List.mem_reverse.1 (List.mem_of_find?_eq_some hfind)
    have hid : other.nodeId = row.nodeId := by simpa using List.find?_some hfind
    rw [loadStates, hfind, List.inj_on_of_nodup_map htidy.nodup hmem hrow hid]
    rfl

/-- Nothing is stored as pending, so a node that is pending was never written. -/
theorem fresh_of_pending (htidy : Tidy rows)
    (h : ((loadStates rows id).map (·.status)).getD .pending = .pending) : Fresh rows id := by
  rw [← loadStates_eq_none]
  cases hstate : loadStates rows id with
  | none => rfl
  | some state =>
    obtain ⟨row, hrow, rfl⟩ := Option.map_eq_some_iff.1 hstate
    have hstored := htidy.stored row (List.mem_reverse.1 (List.mem_of_find?_eq_some hrow))
    rw [hstate] at h
    rw [show row.state.status = .pending from h] at hstored
    cases hstored

theorem Tidy.append (htidy : Tidy rows) (hfresh : Fresh rows id)
    (hstored : isStored state.status = true) : Tidy (rows ++ [⟨id, state⟩]) := by
  refine ⟨?_, fun row hrow => ?_⟩
  · rw [List.map_append, List.nodup_append]
    refine ⟨htidy.nodup, List.nodup_singleton id, fun a ha b hb => ?_⟩
    obtain ⟨row, hrow, rfl⟩ := List.mem_map.1 ha
    rw [List.mem_singleton.1 hb]
    exact hfresh row hrow
  · rcases List.mem_append.1 hrow with hrow | hrow
    · exact htidy.stored row hrow
    · rw [List.mem_singleton.1 hrow]
      exact hstored

theorem Tidy.map {f : NodeExecution → NodeExecution} (htidy : Tidy rows)
    (hid : ∀ row, (f row).nodeId = row.nodeId)
    (hstored : ∀ row, isStored row.state.status = true → isStored (f row).state.status = true) :
    Tidy (rows.map f) := by
  refine ⟨?_, fun row hrow => ?_⟩
  · rw [List.map_map]
    exact (List.map_congr_left fun row _ => hid row) ▸ htidy.nodup
  · obtain ⟨old, hold, rfl⟩ := List.mem_map.1 hrow
    exact hstored old (htidy.stored old hold)

theorem advance_nodeId {port : String} (row : NodeExecution) :
    (row.advance id port).nodeId = row.nodeId := by
  unfold NodeExecution.advance
  split_ifs <;> rfl

theorem interrupt_nodeId (row : NodeExecution) : row.interrupt.nodeId = row.nodeId := by
  unfold NodeExecution.interrupt
  split_ifs <;> rfl

theorem Tidy.advance {port : String} (htidy : Tidy rows) :
    Tidy (rows.map (·.advance id port)) := by
  refine htidy.map (fun row => advance_nodeId row) fun row hrow => ?_
  unfold NodeExecution.advance
  split_ifs
  · rfl
  · exact hrow

theorem Tidy.interrupt (htidy : Tidy rows) : Tidy (rows.map NodeExecution.interrupt) := by
  refine htidy.map interrupt_nodeId fun row hrow => ?_
  unfold NodeExecution.interrupt
  split_ifs
  · rfl
  · exact hrow

/-! ### The loop -/

section Loop

variable {rt : Runtime} {p : Pinned} {s s' : Execution} {k k' : Call} {l l' : Loop}
  {stage stage' : Stage} {answer : Answer}

theorem Sound.next (h : Sound g rows l stage) (hparking : parking stage = none)
    (hstates : l'.states = l.states) (hahead : (ahead stage').Sublist (ahead stage))
    (hparking' : parking stage' = none) (hwriting : writing stage' = none) :
    Sound g rows l' stage' where
  states _ := hstates.trans (h.states hparking)
  nodup := h.nodup.sublist (hahead.map _)
  fresh n hn := h.fresh n (hahead.subset hn)
  mem n hn := h.mem n (hahead.subset hn)
  stored job hjob := by simp [hwriting] at hjob
  found job existing hstage := by simp [hstage, writing] at hwriting
  armed job hjob := by simp [hwriting] at hjob
  ofParked node hnode := by simp [hparking'] at hnode

theorem Sound.persist (h : Sound g rows l stage) (hparking : parking stage = none)
    (hstates : l'.states = l.states) (job : Persist)
    (hahead : (job.node :: rest job.next).Sublist (ahead stage))
    (hstored : isStored job.state.status = true)
    (harmed : job.next = .armed → job.state = ⟨.waiting, []⟩) : Sound g rows l' (.find job) where
  states _ := hstates.trans (h.states hparking)
  nodup := h.nodup.sublist (hahead.map _)
  fresh n hn := h.fresh n (hahead.subset hn)
  mem n hn := h.mem n (hahead.subset hn)
  stored job' hjob := by
    cases hjob
    exact hstored
  found job' existing hstage := by cases hstage
  armed job' hjob := by
    cases hjob
    exact harmed
  ofParked node hnode := by cases hnode

theorem Sound.quiet (hstates : l.states = loadStates rows) (hnodup : ((ahead stage).map (·.id)).Nodup)
    (hahead : ∀ n ∈ ahead stage, Fresh rows n.id ∧ n ∈ g.nodes) (hparking : parking stage = none)
    (hwriting : writing stage = none) : Sound g rows l stage where
  states _ := hstates
  nodup := hnodup
  fresh n hn := (hahead n hn).1
  mem n hn := (hahead n hn).2
  stored job hjob := by simp [hwriting] at hjob
  found job existing hstage := by simp [hstage, writing] at hwriting
  armed job hjob := by simp [hwriting] at hjob
  ofParked node hnode := by simp [hparking] at hnode

theorem Sound.parked {node : WorkflowNode} (hparking : parking stage = some node)
    (hahead : ahead stage = []) (hwriting : writing stage = none) (hmem : node ∈ g.nodes)
    (hrow : loadStates rows node.id = some ⟨.waiting, []⟩) : Sound g rows l stage where
  states hnone := by simp [hparking] at hnone
  nodup := by simp [hahead]
  fresh n hn := by simp [hahead] at hn
  mem n hn := by simp [hahead] at hn
  stored job hjob := by simp [hwriting] at hjob
  found job existing hstage := by simp [hstage, writing] at hwriting
  armed job hjob := by simp [hwriting] at hjob
  ofParked other hother := by
    cases hparking.symm.trans hother
    exact ⟨hmem, hrow⟩

theorem Sound.bare (hstates : l.states = loadStates rows) (hahead : ahead stage = [])
    (hparking : parking stage = none) (hwriting : writing stage = none) : Sound g rows l stage :=
  Sound.quiet hstates (by simp [hahead]) (by simp [hahead]) hparking hwriting

theorem soundCall_again (hstates : l.states = loadStates rows) : SoundCall g rows (again g l) := by
  unfold again
  split_ifs <;> exact Sound.bare hstates rfl rfl rfl

theorem sound_plan (hnodup : (g.nodes.map (·.id)).Nodup) (htidy : Tidy rows)
    (hstates : l.states = loadStates rows) :
    Sound g rows l (.prune (planExecution g l.states) (planExecution g l.states).dead) := by
  refine Sound.quiet hstates (nodup_planned hnodup) (fun n hn => ?_) rfl rfl
  have hplanned : n ∈ g.nodes ∧ (verdict g l.states n = .ready ∨ verdict g l.states n = .dead) := by
    rcases List.mem_append.1 hn with hn | hn
    · exact ⟨(mem_dead.1 hn).1, .inr (mem_dead.1 hn).2⟩
    · exact ⟨(mem_ready.1 hn).1, .inl (mem_ready.1 hn).2⟩
  exact ⟨fresh_of_pending htidy (hstates ▸ pending_of_verdict hplanned.2), hplanned.1⟩

theorem soundCall_prune {view : PlannerView} {todo : List WorkflowNode}
    (h : Sound g rows l (.prune view todo)) : SoundCall g rows (prune g l view todo) := by
  have hstates := h.states rfl
  cases todo with
  | nil =>
    unfold prune afterPrune
    split_ifs
    · exact Sound.bare hstates rfl rfl rfl
    · exact soundCall_again hstates
    · exact h.next rfl rfl (List.Sublist.refl _) rfl rfl
  | cons node todo =>
    rw [prune]
    split_ifs
    · exact h.next rfl rfl (List.sublist_cons_self _ _) rfl rfl
    · exact h.persist rfl rfl _ (List.Sublist.refl _) rfl (by simp)

theorem isStored_failure (node : WorkflowNode) : isStored (failure g node).state.status = true := rfl

theorem isStored_refusal {node : WorkflowNode} {outcome : Outcome}
    (h : refusal g l node = some outcome) : isStored outcome.state.status = true := by
  unfold refusal at h
  split at h
  · cases h
    rfl
  · cases h
    rfl
  · split_ifs at h
    cases h
    exact isStored_failure node

theorem soundCall_visit {todo : List WorkflowNode} (h : Sound p.graph rows l (.process todo)) :
    SoundCall p.graph rows (visit rt p s l todo).2 := by
  cases todo with
  | nil => exact soundCall_again (h.states rfl)
  | cons node todo =>
    have hself : (node :: todo).Sublist (ahead (.process (node :: todo))) := .refl _
    rw [visit]
    unfold process
    split_ifs
    · exact h.next rfl rfl ((List.nil_sublist todo).cons_cons node) rfl rfl
    · cases hrefusal : refusal p.graph l node with
      | none => exact h.next rfl rfl hself rfl rfl
      | some outcome => exact h.persist rfl rfl _ hself (isStored_refusal hrefusal) (by simp)
    · change Sound p.graph rows { l with vars := assign rt node (context p l.vars) l.vars } (.find _)
      refine h.persist rfl ?_ _ hself rfl (by simp)
      rfl

theorem sound_retry {node : WorkflowNode} {attempt : ℕ} {ok : Bool} {todo : List WorkflowNode}
    (h : Sound g rows l (.calling node attempt todo)) :
    Sound g rows l (retry g node attempt ok todo) := by
  unfold retry
  split_ifs
  · exact h.persist rfl rfl _ (List.Sublist.refl _) rfl (by simp)
  · exact h.next rfl rfl (List.Sublist.refl _) rfl rfl
  · exact h.persist rfl rfl _ (List.Sublist.refl _) rfl (by simp)

theorem soundCall_write {job : Persist} (h : Sound g rows l (.write job none)) :
    SoundCall g (rows ++ [⟨job.node.id, job.state⟩]) (afterWrite l job) := by
  have hnodup : job.node.id ∉ (rest job.next).map (·.id) ∧ ((rest job.next).map (·.id)).Nodup :=
    List.nodup_cons.1 (List.map_cons ▸ h.nodup)
  have hrest : ∀ n ∈ rest job.next, Fresh (rows ++ [⟨job.node.id, job.state⟩]) n.id ∧ n ∈ g.nodes := by
    refine fun n hn => ⟨fun row hrow => ?_, h.mem n (List.mem_cons_of_mem _ hn)⟩
    rcases List.mem_append.1 hrow with hrow | hrow
    · exact h.fresh n (List.mem_cons_of_mem _ hn) row hrow
    · rw [List.mem_singleton.1 hrow]
      intro hid
      exact hnodup.1 (List.mem_map.2 ⟨n, hn, hid.symm⟩)
  have hstates : Function.update l.states job.node.id (some job.state) =
      loadStates (rows ++ [⟨job.node.id, job.state⟩]) := by
    rw [loadStates_append, h.states rfl]
  have hrow : job.next = .armed →
      loadStates (rows ++ [⟨job.node.id, job.state⟩]) job.node.id = some ⟨.waiting, []⟩ := by
    intro hnext
    rw [loadStates_append, Function.update_self, h.armed job rfl hnext]
  have hmem := h.mem job.node List.mem_cons_self
  obtain ⟨node, state, next⟩ := job
  cases next with
  | pruned view todo => exact Sound.quiet hstates hnodup.2 hrest rfl rfl
  | processed stops todo =>
    cases stops with
    | true => exact Sound.bare hstates rfl rfl rfl
    | false => exact Sound.quiet hstates hnodup.2 hrest rfl rfl
  | armed =>
    unfold afterWrite
    dsimp only
    split_ifs
    all_goals exact Sound.parked rfl rfl rfl hmem (hrow rfl)

theorem park_nodes {node : WorkflowNode} {now : Instant} :
    (s.park p node now).nodes = s.nodes ∧ (s.park p node now).resumed = s.resumed := by
  unfold Execution.park
  dsimp only
  split <;> exact ⟨rfl, rfl⟩

/-- A call that is about to ask for the status. -/
def asks : Call → Bool
  | .woken _ | .deciding _ _ | .expiring | .resume _ => true
  | _ => false

/-- How a call begins. -/
theorem begin_cases (h : begin s answer = some (s', k')) : s' = s ∧ (asks k' = true ∨
    (∃ nodeId port, answer = .childEnded nodeId port ∧ k' = .advance nodeId port) ∨
      (answer = .cancel ∧ k' = if s.status.isWaiting then .finalize .cancelled else .flag)) := by
  cases answer with
  | event _ | respond _ _ _ | due _ =>
    rw [begin] at h
    split_ifs at h
    cases h
    exact ⟨rfl, .inl rfl⟩
  | childEnded nodeId port =>
    cases h
    exact ⟨rfl, .inr (.inl ⟨nodeId, port, rfl, rfl⟩)⟩
  | cancel =>
    simp only [begin] at h
    split at h
    · cases h
      exact ⟨rfl, .inr (.inr ⟨rfl, rfl⟩)⟩
    · cases h
  | expired now =>
    rw [begin] at h
    split_ifs at h
    split at h <;> cases h <;> exact ⟨rfl, .inl rfl⟩
  | _ => cases h

theorem begin_fst (h : begin s answer = some (s', k')) : s' = s := (begin_cases h).1

theorem soundCall_of_asks (h : asks k = true) : SoundCall g rows k := by
  cases k with
  | woken _ | deciding _ _ | expiring | resume _ => trivial
  | _ => cases h

theorem soundCall_begin (htidy : Tidy s.nodes) (h : begin s answer = some (s', k')) :
    Tidy s'.nodes ∧ SoundCall g s'.nodes k' := by
  obtain ⟨rfl, hasks | ⟨nodeId, port, -, rfl⟩ | ⟨-, rfl⟩⟩ := begin_cases h
  · exact ⟨htidy, soundCall_of_asks hasks⟩
  · exact ⟨htidy, trivial⟩
  · refine ⟨htidy, ?_⟩
    split_ifs <;> trivial

/-- What a loop does between two nodes. -/
def isRoutine : Call → Bool
  | .loop _ .check | .loop _ (.prune _ _) | .loop _ (.process _) | .loop _ (.find _)
  | .loop _ (.finish _) => true
  | _ => false

theorem loop_of_routine (h : isRoutine k = true) : ∃ l' stage', k = .loop l' stage' := by
  cases k with
  | loop l' stage' => exact ⟨l', stage', rfl⟩
  | _ => cases h

theorem isRoutine_again : isRoutine (again g l) = true := by
  unfold again
  split_ifs <;> rfl

theorem isRoutine_prune {view : PlannerView} {todo : List WorkflowNode} :
    isRoutine (prune g l view todo) = true := by
  cases todo with
  | nil =>
    unfold prune afterPrune
    split_ifs
    · rfl
    · exact isRoutine_again
    · rfl
  | cons node todo =>
    rw [prune]
    split_ifs <;> rfl

/-- A node the loop comes to is parked at, dispatched, or done. -/
theorem process_cases (rt : Runtime) (p : Pinned) (l : Loop) (node : WorkflowNode)
    (todo : List WorkflowNode) : (process rt p l node todo).2 = .save node ∨
      (process rt p l node todo).2 = .dispatch node 1 todo ∨
        ∃ outcome : Outcome, (process rt p l node todo).2 = outcome.persist node todo := by
  unfold process
  split_ifs
  · exact .inl rfl
  · cases refusal p.graph l node with
    | none => exact .inr (.inl rfl)
    | some outcome => exact .inr (.inr ⟨outcome, rfl⟩)
  · exact .inr (.inr ⟨_, rfl⟩)

theorem retry_cases (g : WorkflowGraph) (node : WorkflowNode) (attempt : ℕ) (ok : Bool)
    (todo : List WorkflowNode) : (retry g node attempt ok todo = .dispatch node (attempt + 1) todo ∧
        ((attempt + 1 : ℕ) : ℚ) ≤ node.attemptLimit) ∨
      ∃ outcome : Outcome, retry g node attempt ok todo = outcome.persist node todo := by
  unfold retry
  split_ifs with hok hlimit
  · exact .inr ⟨_, rfl⟩
  · exact .inl ⟨rfl, hlimit⟩
  · exact .inr ⟨_, rfl⟩

theorem afterWrite_cases (l : Loop) (job : Persist) : isRoutine (afterWrite l job) = true ∨
    afterWrite l job = .loop l (.approval job.node) ∨ afterWrite l job = .loop l (.park job.node) := by
  unfold afterWrite
  split
  · exact .inl rfl
  · split_ifs <;> exact .inl rfl
  · split_ifs
    · exact .inr (.inl rfl)
    · exact .inr (.inr rfl)

theorem actStage_call (h : actStage rt p s l stage answer = some (s', k')) :
    (∃ l' stage', k' = .loop l' stage') ∨ (∃ status, k' = .finalize status) ∨
      ∃ node, (stage = .park node ∨ stage = .start node) ∧
        (k' = .idle ∨ k' = .advance node.id "failure") := by
  cases stage with
  | check =>
    rw [actStage] at h
    split_ifs at h <;> cases h
    · exact .inr (.inl ⟨_, rfl⟩)
    · exact .inl ⟨_, _, rfl⟩
  | prune view todo =>
    cases h
    exact .inl (loop_of_routine isRoutine_prune)
  | process todo =>
    cases todo with
    | nil =>
      cases h
      exact .inl (loop_of_routine isRoutine_again)
    | cons node todo =>
      cases h
      exact .inl ⟨_, _, rfl⟩
  | calling node attempt todo =>
    obtain ⟨ok, -, h⟩ := Option.map_eq_some_iff.1 h
    cases h
    exact .inl ⟨_, _, rfl⟩
  | write job existing =>
    cases h
    rcases afterWrite_cases l job with hnext | hnext | hnext
    · exact .inl (loop_of_routine hnext)
    · exact .inl ⟨l, _, hnext⟩
    · exact .inl ⟨l, _, hnext⟩
  | park node =>
    obtain ⟨now, -, h⟩ := Option.map_eq_some_iff.1 h
    cases h
    unfold afterPark
    split_ifs
    · exact .inl ⟨_, _, rfl⟩
    · exact .inr (.inr ⟨node, .inl rfl, .inr rfl⟩)
    · exact .inr (.inr ⟨node, .inl rfl, .inl rfl⟩)
  | start node =>
    obtain ⟨ok, -, h⟩ := Option.map_eq_some_iff.1 h
    cases h
    cases ok
    · exact .inr (.inr ⟨node, .inr rfl, .inr rfl⟩)
    · exact .inr (.inr ⟨node, .inr rfl, .inl rfl⟩)
  | finish failed =>
    cases h
    exact .inr (.inl ⟨_, rfl⟩)
  | _ =>
    cases h
    exact .inl ⟨_, _, rfl⟩

/-- At work on one node. -/
def isBusy : Call → Bool
  | .loop _ (.dispatch _ _ _) | .loop _ (.calling _ _ _) | .loop _ (.save _) | .loop _ (.find _)
  | .loop _ (.write _ _) | .loop _ (.approval _) | .loop _ (.park _) | .loop _ (.start _) => true
  | _ => false

/-- How a call comes to be at work on a node, and goes on with it. -/
inductive Busies (rt : Runtime) (p : Pinned) (s : Execution) : Execution → Call → Call → Prop where
  | prune (l : Loop) (view : PlannerView) (todo : List WorkflowNode) :
      Busies rt p s s (.loop l (.prune view todo)) (prune p.graph l view todo)
  | visit (l : Loop) (todo : List WorkflowNode) :
      Busies rt p s (visit rt p s l todo).1 (.loop l (.process todo)) (visit rt p s l todo).2
  | dispatch (s' : Execution) (l : Loop) (node : WorkflowNode) (attempt : ℕ) (todo : List WorkflowNode) :
      Busies rt p s s' (.loop l (.dispatch node attempt todo)) (.loop l (.calling node attempt todo))
  | retry (l : Loop) (node : WorkflowNode) (attempt : ℕ) (ok : Bool) (todo : List WorkflowNode) :
      Busies rt p s s (.loop l (.calling node attempt todo)) (.loop l (retry p.graph node attempt ok todo))
  | save (s' : Execution) (l : Loop) (node : WorkflowNode) :
      Busies rt p s s' (.loop l (.save node)) (.loop l (.find ⟨node, ⟨.waiting, []⟩, .armed⟩))
  | find (l : Loop) (job : Persist) :
      Busies rt p s s (.loop l (.find job)) (.loop l (.write job (findNode s.nodes job.node.id)))
  | write (s' : Execution) (l : Loop) (job : Persist) (existing : Option ℕ) :
      Busies rt p s s' (.loop l (.write job existing)) (afterWrite l job)
  | approval (s' : Execution) (l : Loop) (node : WorkflowNode) :
      Busies rt p s s' (.loop l (.approval node)) (.loop l (.park node))
  | start (s' : Execution) (l : Loop) (node : WorkflowNode) (hcategory : node.category = some .subworkflow)
      (hinvoke : canInvoke p node = true) : Busies rt p s s' (.loop l (.park node)) (.loop l (.start node))

theorem not_isBusy_of_asks (h : asks k = true) : isBusy k = false := by
  cases k with
  | woken _ | deciding _ _ | expiring | resume _ => rfl
  | _ => cases h

/-- Only the loop comes to nodes. -/
theorem busies_of_act (h : act rt p s k answer = some (s', k')) (hbusy : isBusy k' = true) :
    Busies rt p s s' k k' := by
  have hidle : ∀ {k : Call}, isBusy k = false → k' ≠ k := by
    rintro k hk rfl
    exact Bool.false_ne_true (hk.symm.trans hbusy)
  cases k with
  | idle =>
    obtain ⟨-, hasks | ⟨nodeId, port, -, hk⟩ | ⟨-, hk⟩⟩ := begin_cases h
    · exact absurd rfl (hidle (not_isBusy_of_asks hasks))
    · exact absurd hk (hidle rfl)
    · exact absurd hk (hidle (by split_ifs <;> rfl))
  | booting =>
    obtain ⟨found, -, h⟩ := Option.map_eq_some_iff.1 h
    exact absurd (congrArg Prod.snd h).symm (hidle (by dsimp only; split_ifs <;> rfl))
  | loadStates saved =>
    obtain ⟨grant, -, h⟩ := Option.map_eq_some_iff.1 h
    exact absurd (congrArg Prod.snd h).symm (hidle rfl)
  | finding port =>
    cases h
    exact absurd rfl (hidle (by cases findWaiting s.nodes <;> rfl))
  | woken _ | resume _ | load =>
    cases h
    exact absurd rfl (hidle (by split_ifs <;> rfl))
  | loop l stage =>
    cases stage with
    | check =>
      rw [act, actStage] at h
      split_ifs at h <;> cases h <;> exact absurd rfl (hidle rfl)
    | prune view todo =>
      cases h
      exact .prune l view todo
    | process todo =>
      have hvisit : visit rt p s l todo = (s', k') := Option.some.inj h
      rw [← show (visit rt p s l todo).1 = s' by rw [hvisit], ← show (visit rt p s l todo).2 = k' by rw [hvisit]]
      exact .visit l todo
    | dispatch node attempt todo =>
      cases h
      exact .dispatch _ l node attempt todo
    | calling node attempt todo =>
      obtain ⟨ok, -, h⟩ := Option.map_eq_some_iff.1 h
      cases h
      exact .retry l node attempt ok todo
    | save node =>
      cases h
      exact .save _ l node
    | find job =>
      cases h
      exact .find l job
    | write job existing =>
      cases h
      exact .write _ l job existing
    | approval node =>
      cases h
      exact .approval _ l node
    | park node =>
      obtain ⟨now, -, h⟩ := Option.map_eq_some_iff.1 h
      cases h
      dsimp only [afterPark] at hbusy ⊢
      split_ifs at hbusy ⊢ with hcategory hinvoke
      · exact .start _ l node hcategory hinvoke
      · cases hbusy
      · cases hbusy
    | start node =>
      obtain ⟨ok, -, h⟩ := Option.map_eq_some_iff.1 h
      exact absurd (congrArg Prod.snd h).symm (hidle (by cases ok <;> rfl))
    | finish failed =>
      cases h
      exact absurd rfl (hidle rfl)
  | _ =>
    cases h
    exact absurd rfl (hidle rfl)

theorem soundCall_actStage (hnodup : (p.graph.nodes.map (·.id)).Nodup) (htidy : Tidy s.nodes)
    (h : Sound p.graph s.nodes l stage) (hact : actStage rt p s l stage answer = some (s', k')) :
    Tidy s'.nodes ∧ SoundCall p.graph s'.nodes k' := by
  cases stage with
  | check =>
    rw [actStage] at hact
    split_ifs at hact <;> cases hact
    · exact ⟨htidy, trivial⟩
    · exact ⟨htidy, sound_plan hnodup htidy (h.states rfl)⟩
  | prune view todo =>
    cases hact
    exact ⟨htidy, soundCall_prune h⟩
  | process todo =>
    have hvisit : visit rt p s l todo = (s', k') := Option.some.inj hact
    have hsound : SoundCall p.graph s.nodes (visit rt p s l todo).2 := soundCall_visit h
    have hnodes : (visit rt p s l todo).1.nodes = s.nodes := by cases todo <;> rfl
    rw [hvisit] at hsound hnodes
    dsimp only at hsound hnodes
    rw [hnodes]
    exact ⟨htidy, hsound⟩
  | dispatch node attempt todo =>
    cases hact
    exact ⟨htidy, h.next rfl rfl (List.Sublist.refl _) rfl rfl⟩
  | calling node attempt todo =>
    obtain ⟨ok, -, hact⟩ := Option.map_eq_some_iff.1 hact
    cases hact
    exact ⟨htidy, sound_retry h⟩
  | save node =>
    cases hact
    exact ⟨htidy, h.persist rfl rfl ⟨node, ⟨.waiting, []⟩, .armed⟩ (List.Sublist.refl _) rfl fun _ => rfl⟩
  | find job =>
    cases hact
    have hnone := findNode_of_fresh (h.fresh job.node List.mem_cons_self)
    refine ⟨htidy, ⟨fun _ => h.states rfl, h.nodup, h.fresh, h.mem, h.stored,
      fun job' existing hstage => ?_, h.armed, fun node hnode => ?_⟩⟩
    · cases hstage
      exact hnone
    · cases hnode
  | write job existing =>
    cases h.found job existing rfl
    cases hact
    exact ⟨htidy.append (h.fresh job.node List.mem_cons_self) (h.stored job rfl), soundCall_write h⟩
  | approval node =>
    cases hact
    obtain ⟨hmem, hrow⟩ := h.ofParked node rfl
    exact ⟨htidy, Sound.parked rfl rfl rfl hmem hrow⟩
  | park node =>
    obtain ⟨now, -, hact⟩ := Option.map_eq_some_iff.1 hact
    cases hact
    obtain ⟨hmem, hrow⟩ := h.ofParked node rfl
    refine ⟨?_, ?_⟩
    · rw [park_nodes.1]
      exact htidy
    · rw [park_nodes.1]
      unfold afterPark
      split_ifs
      · exact Sound.parked rfl rfl rfl hmem hrow
      · trivial
      · trivial
  | start node =>
    obtain ⟨ok, -, hact⟩ := Option.map_eq_some_iff.1 hact
    cases hact
    refine ⟨htidy, ?_⟩
    split_ifs <;> trivial
  | finish failed =>
    cases hact
    exact ⟨htidy, trivial⟩

theorem nodes_step (h : act rt p s k answer = some (s', k')) :
    (s'.nodes = s.nodes ∧ s'.resumed = s.resumed) ∨
      (∃ id port, k = .advance id port ∧ s'.nodes = s.nodes.map (·.advance id port) ∧
        s'.resumed = s.resumed ++ [(id, port)]) ∨
      (k = .interrupting ∧ s'.nodes = s.nodes.map NodeExecution.interrupt ∧ s'.resumed = s.resumed) ∨
      ∃ l job existing, k = .loop l (.write job existing) ∧
        s'.nodes = writeNode s.nodes existing job.node.id job.state ∧ s'.resumed = s.resumed := by
  cases k with
  | advance nodeId port =>
    cases h
    exact .inr (.inl ⟨nodeId, port, rfl, rfl, rfl⟩)
  | interrupting =>
    cases h
    exact .inr (.inr (.inl ⟨rfl, rfl, rfl⟩))
  | idle =>
    rw [begin_fst h]
    exact .inl ⟨rfl, rfl⟩
  | booting | loadStates _ =>
    obtain ⟨_, -, h⟩ := Option.map_eq_some_iff.1 h
    cases h
    exact .inl ⟨rfl, rfl⟩
  | loop l stage =>
    cases stage with
    | write job existing =>
      cases h
      exact .inr (.inr (.inr ⟨l, job, existing, rfl, rfl, rfl⟩))
    | check =>
      rw [act, actStage] at h
      split_ifs at h <;> cases h <;> exact .inl ⟨rfl, rfl⟩
    | process todo =>
      cases todo <;> cases h <;> exact .inl ⟨rfl, rfl⟩
    | calling _ _ _ | start _ =>
      obtain ⟨_, -, h⟩ := Option.map_eq_some_iff.1 h
      cases h
      exact .inl ⟨rfl, rfl⟩
    | park node =>
      obtain ⟨_, -, h⟩ := Option.map_eq_some_iff.1 h
      cases h
      exact .inl park_nodes
    | _ =>
      cases h
      exact .inl ⟨rfl, rfl⟩
  | _ =>
    cases h
    exact .inl ⟨rfl, rfl⟩

theorem Fresh.of_map {f : NodeExecution → NodeExecution} (hid : ∀ row, (f row).nodeId = row.nodeId)
    (hfresh : Fresh (rows.map f) id) : Fresh rows id := by
  intro row hrow
  rw [← hid row]
  exact hfresh _ (List.mem_map_of_mem hrow)

theorem Fresh.of_step (h : act rt p s k answer = some (s', k')) (hfresh : Fresh s'.nodes id) :
    Fresh s.nodes id := by
  rcases nodes_step h with ⟨hnodes, -⟩ | ⟨nodeId, port, -, hnodes, -⟩ | ⟨-, hnodes, -⟩ |
    ⟨l, job, existing, -, hnodes, -⟩ <;> rw [hnodes] at hfresh
  · exact hfresh
  · exact hfresh.of_map advance_nodeId
  · exact hfresh.of_map interrupt_nodeId
  · intro row hrow
    cases existing with
    | none => exact hfresh row (List.mem_append_left _ hrow)
    | some i =>
      obtain ⟨n, hn⟩ := List.mem_iff_getElem?.1 hrow
      have hmem : (if i = n then { row with state := job.state } else row) ∈
          writeNode s.nodes (some i) job.node.id job.state := by
        refine List.mem_iff_getElem?.2 ⟨n, ?_⟩
        rw [writeNode, List.getElem?_modify, hn]
        rfl
      have hrowid := hfresh _ hmem
      split_ifs at hrowid <;> exact hrowid

theorem soundCall_step (hnodup : (p.graph.nodes.map (·.id)).Nodup) (htidy : Tidy s.nodes)
    (h : SoundCall p.graph s.nodes k) (hact : act rt p s k answer = some (s', k')) :
    Tidy s'.nodes ∧ SoundCall p.graph s'.nodes k' := by
  cases k with
  | loop l stage => exact soundCall_actStage hnodup htidy h hact
  | setRunning l =>
    cases hact
    exact ⟨htidy, Sound.bare h rfl rfl rfl⟩
  | loadStates saved =>
    obtain ⟨grant, -, hact⟩ := Option.map_eq_some_iff.1 hact
    cases hact
    exact ⟨htidy, rfl⟩
  | advance nodeId port =>
    cases hact
    exact ⟨htidy.advance, trivial⟩
  | interrupting =>
    cases hact
    exact ⟨htidy.interrupt, trivial⟩
  | idle => exact soundCall_begin htidy hact
  | booting =>
    obtain ⟨found, -, hact⟩ := Option.map_eq_some_iff.1 hact
    cases hact
    refine ⟨htidy, ?_⟩
    split_ifs <;> trivial
  | finding port =>
    cases hact
    refine ⟨htidy, ?_⟩
    cases findWaiting s.nodes <;> trivial
  | woken _ | resume _ | load =>
    cases hact
    refine ⟨htidy, ?_⟩
    split_ifs <;> trivial
  | deciding _ _ | expiring | unpark | finalize _ | flag =>
    cases hact
    exact ⟨htidy, trivial⟩

end Loop

end UltraTorrent.Workflows.LoopInvariant
