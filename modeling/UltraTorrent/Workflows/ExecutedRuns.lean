import UltraTorrent.Workflows.DispatchRounds
import UltraTorrent.Workflows.SimulatedRuns

/-! The run loop on a graph without pauses, where every action succeeds: it is a complete run of the
graph's program, wave by wave. -/
namespace UltraTorrent.Workflows.ExecutedRuns

open Library.EcmaScript Library.Dataflow Library.Interleaving Template GraphTypes ExecutionPlanner
  WorkflowStatus WorkflowExecution LoopInvariant DispatchRounds NodeRegistry WorkflowValidator ResolvedGraph
  GraphProgram WorkflowSimulator SimulatedRuns

/-! ### What is watched -/

/-- An execution with the nodes its loop came to and the variables each found, the last first, and
with the actions that were dispatched. -/
structure Traced where
  execution : Execution
  played : History String (List (String × Value))
  dispatched : List ActionInput

def fieldsOf : Value → List (String × Value)
  | .object fields => fields
  | _ => []

def coming : Call → Option (Loop × WorkflowNode)
  | .loop l (.process (node :: _)) => some (l, node)
  | _ => none

/-- The action a loop is about to call for the first time. -/
def dispatching : Call → Option (Loop × WorkflowNode)
  | .loop l (.dispatch node attempt _) => if attempt = 1 then some (l, node) else none
  | _ => none

section Traced

variable (rt : Runtime) (graph : StoredGraph) (trigger : List (String × Value)) (depth : ℕ)

def pinnedTo : Pinned where
  graph := resolveGraph rt nodeRegistry graph
  inputContext := trigger
  depth := depth

def calledWith (l : Loop) (node : WorkflowNode) : Option ActionInput :=
  match node.definition.bind (·.actionId), byId graph node.id with
  | some actionId, some stored =>
    some ⟨node.id, actionId,
      renderConfig rt stored.config (context (pinnedTo rt graph trigger depth) l.vars)⟩
  | _, _ => none

def tracing (t : Traced) (k : Call) (answer : Answer) : Option (Traced × Call) :=
  (act rt (pinnedTo rt graph trigger depth) t.execution k answer).map fun next =>
    ({ execution := next.1
       played := ((coming k).map fun at_ => (at_.2.id, fieldsOf at_.1.vars)).toList ++ t.played
       dispatched := t.dispatched ++
        ((dispatching k).bind fun at_ => calledWith rt graph trigger depth at_.1 at_.2).toList },
      next.2)

def permits (held : Option IdentityGrant) : Bool :=
  graph.nodes.all fun node =>
    ((nodeRegistry node.type).bind fun d => d.actionId).all fun actionId => !denied held actionId

/-- Permissions are granted, every action call succeeds, and nothing but the run itself is at
work on the execution. -/
def smooth (_ : Traced) (k : Call) (answer : Answer) : Bool :=
  match k with
  | .idle => false
  | .loadStates _ => answer.grant?.all (permits graph)
  | .loop _ (.calling _ _ _) => answer.action?.all id
  | _ => true

def meets (u v : StoredNode) : Bool :=
  (setsKey rt nodeRegistry u).any (fun key =>
    setsKey rt nodeRegistry v = some key || readsKey rt nodeRegistry v key) ||
      (setsKey rt nodeRegistry v).any fun key => readsKey rt nodeRegistry u key

/-- No node that the loop has come to, and that meets the one it is about to come to at a variable,
is one that the dry run comes to later. -/
def inStep (t : Traced) (k : Call) (_ : Answer) : Bool :=
  (coming k).all fun next => t.played.all fun earlier =>
    (byId graph earlier.1).all fun u => (byId graph next.2.id).all fun v =>
      !meets rt u v || decide (place graph earlier.1 < place graph next.2.id)

end Traced

/-! ### Where the run stands -/

section Plays

variable {rt : Runtime} (hrt : Extensional rt) (graph : StoredGraph)
  (trigger : List (String × Value)) (depth : ℕ)

/-- The graph as the executor reads it. -/
abbrev executedGraph (rt : Runtime) : WorkflowGraph := resolveGraph rt nodeRegistry graph

/-- The states of the nodes, but for one whose row is not written yet: what was played succeeded,
and anything else that has a state was skipped, with nothing left that could start it. -/
structure Known (played : History String (List (String × Value))) (states : States)
    (writing : Option String) : Prop where
  succeeded : ∀ id fields, (id, fields) ∈ played → some id ≠ writing →
    states id = some ⟨.succeeded, (graphProgram hrt graph trigger).output id fields⟩
  skipped : ∀ id state, states id = some state → id ∉ played.map Prod.fst →
    state = ⟨.skipped, []⟩ ∧ ∃ node ∈ (executedGraph graph rt).nodes, node.id = id ∧
      judge node (((executedGraph graph rt).incoming id).map (edgeState states)) = .dead
  unwritten : ∀ id, writing = some id → states id = none

/-- Nodes that the wave has still to come to. -/
structure Planned (played : History String (List (String × Value))) (states : States)
    (todo : List WorkflowNode) : Prop where
  nodup : (todo.map (·.id)).Nodup
  mem : ∀ node ∈ todo, node ∈ (executedGraph graph rt).nodes
  fresh : ∀ node ∈ todo, states node.id = none ∧ node.id ∉ played.map Prod.fst
  ready : ∀ node ∈ todo, (graphProgram hrt graph trigger).ready
    ((graphProgram hrt graph trigger).outputs played) node.id

structure Doomed (rt : Runtime) (states : States) (todo : List WorkflowNode) : Prop where
  mem : ∀ node ∈ todo, node ∈ (executedGraph graph rt).nodes
  dead : ∀ node ∈ todo, states node.id = none ∧
    judge node (((executedGraph graph rt).incoming node.id).map (edgeState states)) = .dead

/-- What holds all along: the run has fired what it played, in step with the dry run. -/
structure Core (t : Traced) (l : Loop) : Prop where
  fired : (graphProgram hrt graph trigger).Fired t.played
  inOrder : (graphProgram hrt graph trigger).InOrder (place graph) t.played
  vars : l.vars = .object ((graphProgram hrt graph trigger).after t.played)
  permitted : permits graph l.grant = true
  running : t.execution.status = .running
  unsaved : t.execution.vars = none

def Dispatched (rt : Runtime) (t : Traced) : Prop :=
  t.dispatched = (t.played.filterMap fun e => inputOf graph trigger rt e.1 e.2).reverse

/-- The dead nodes are being skipped; when nothing is ready, nothing will be. -/
structure Pruning (t : Traced) (l : Loop) (view : PlannerView) (todo : List WorkflowNode) : Prop where
  core : Core hrt graph trigger t l
  dispatched : Dispatched graph trigger rt t
  known : Known hrt graph trigger t.played l.states none
  nodup : ((todo ++ view.ready).map (·.id)).Nodup
  doomed : Doomed graph rt l.states todo
  planned : Planned hrt graph trigger t.played l.states view.ready
  quiescent : view.ready = [] → view.quiescent = true ∧ (graphProgram hrt graph trigger).Complete t.played
  iter : l.iter ≤ t.played.length

/-- The ready nodes are being run, and each of them counts against the bound on the waves. -/
structure Playing (t : Traced) (l : Loop) (writing : Option String) (todo : List WorkflowNode) : Prop where
  core : Core hrt graph trigger t l
  known : Known hrt graph trigger t.played l.states writing
  planned : Planned hrt graph trigger t.played l.states todo
  apart : ∀ node ∈ todo, some node.id ≠ writing
  iter : l.iter + 1 ≤ t.played.length + todo.length

/-- A run that is over. -/
structure Finished (t : Traced) : Prop where
  fired : (graphProgram hrt graph trigger).Fired t.played
  inOrder : (graphProgram hrt graph trigger).InOrder (place graph) t.played
  complete : (graphProgram hrt graph trigger).Complete t.played
  dispatched : Dispatched graph trigger rt t
  saved : t.execution.vars.getD (.object []) =
    .object ((graphProgram hrt graph trigger).after t.played)

/-- Where a run from the start can stand. -/
inductive Plays : Traced → Call → Prop
  | load : Plays ⟨queued, [], []⟩ .load
  | loadStates : Plays ⟨queued, [], []⟩ (.loadStates none)
  | setRunning (held : Option IdentityGrant) (h : permits graph held = true) :
    Plays ⟨queued, [], []⟩ (.setRunning ⟨held, fun _ => none, .object [], 0⟩)
  | check {t l} (core : Core hrt graph trigger t l) (dispatched : Dispatched graph trigger rt t)
    (known : Known hrt graph trigger t.played l.states none) (iter : l.iter ≤ t.played.length) :
    Plays t (.loop l .check)
  | prune {t l view todo} (h : Pruning hrt graph trigger t l view todo) :
    Plays t (.loop l (.prune view todo))
  | process {t l todo} (h : Playing hrt graph trigger t l none todo)
    (dispatched : Dispatched graph trigger rt t) : Plays t (.loop l (.process todo))
  | dispatch {t l node todo fields past} (h : Playing hrt graph trigger t l (some node.id) todo)
    (played : t.played = (node.id, fields) :: past)
    (output : (graphProgram hrt graph trigger).output node.id fields = ["out"])
    (dispatched : t.dispatched = (past.filterMap fun e => inputOf graph trigger rt e.1 e.2).reverse)
    (called : calledWith rt graph trigger depth l node = inputOf graph trigger rt node.id fields) :
    Plays t (.loop l (.dispatch node 1 todo))
  | calling {t l node todo fields past} (h : Playing hrt graph trigger t l (some node.id) todo)
    (played : t.played = (node.id, fields) :: past)
    (output : (graphProgram hrt graph trigger).output node.id fields = ["out"])
    (dispatched : Dispatched graph trigger rt t) : Plays t (.loop l (.calling node 1 todo))
  | skip {t l node view todo stage} (h : Pruning hrt graph trigger t l view (node :: todo))
    (stored : writing stage = some ⟨node, ⟨.skipped, []⟩, .pruned view todo⟩) :
    Plays t (.loop l stage)
  | persist {t l node todo fields past stage} (h : Playing hrt graph trigger t l (some node.id) todo)
    (played : t.played = (node.id, fields) :: past) (dispatched : Dispatched graph trigger rt t)
    (stored : writing stage = some ⟨node,
      ⟨.succeeded, (graphProgram hrt graph trigger).output node.id fields⟩, .processed false todo⟩) :
    Plays t (.loop l stage)
  | finish {t l} (core : Core hrt graph trigger t l) (dispatched : Dispatched graph trigger rt t)
    (complete : (graphProgram hrt graph trigger).Complete t.played) :
    Plays t (.loop l (.finish false))
  | finalize {t} (status : WorkflowExecutionStatus) (h : Finished hrt graph trigger t) :
    Plays t (.finalize status)
  | idle {t} (h : Finished hrt graph trigger t) : Plays t .idle

variable {hrt graph trigger depth}

/-! ### What the planner makes of what was played -/

section Known

variable {played : History String (List (String × Value))} {states : States} {writing : Option String}
  {id : String} {fields : List (String × Value)} {node : WorkflowNode} {stored : StoredNode}
  {todo : List WorkflowNode}

theorem mem_classes {c : EdgeState} :
    c ∈ ((executedGraph graph rt).incoming id).map (edgeState states) ↔
      ∃ edge ∈ graph.edges, edge.targetNodeId = id ∧ edgeState states (resolveEdge edge) = c := by
  simp only [WorkflowGraph.incoming, executedGraph, resolveGraph, List.mem_map, List.mem_filter,
    decide_eq_true_eq]
  constructor
  · rintro ⟨_, ⟨⟨edge, hedge, rfl⟩, htarget⟩, hc⟩
    exact ⟨edge, hedge, htarget, hc⟩
  · rintro ⟨edge, hedge, htarget, hc⟩
    exact ⟨resolveEdge edge, ⟨⟨edge, hedge, rfl⟩, htarget⟩, hc⟩

/-- The planner's live edges are those that the program has live. -/
theorem live_iff (hknown : Known hrt graph trigger played states none)
    (hfired : (graphProgram hrt graph trigger).Fired played) (edge : StoredEdge) :
    edgeState states (resolveEdge edge) = .live ↔
      IsLive ((graphProgram hrt graph trigger).outputs played) edge := by
  rw [IsLive]
  by_cases hmem : edge.sourceNodeId ∈ played.map Prod.fst
  · obtain ⟨⟨id, fields⟩, hplayed, hid⟩ := List.mem_map.1 hmem
    dsimp only at hid
    rw [← hid, hfired.outputs_of_mem hplayed, edgeState,
      show (resolveEdge edge).sourceNodeId = id from hid.symm,
      hknown.succeeded id fields hplayed (Option.some_ne_none id)]
    by_cases hport : edge.sourcePort.getD "out" ∈ (graphProgram hrt graph trigger).output id fields
    · simp [WorkflowEdge.port, resolveEdge, hport]
    · simp [WorkflowEdge.port, resolveEdge, hport]
  · have hnone : (graphProgram hrt graph trigger).outputs played edge.sourceNodeId = none := by
      cases houtput : (graphProgram hrt graph trigger).outputs played edge.sourceNodeId with
      | none => rfl
      | some ports =>
        obtain ⟨fields, hfields, -⟩ := mem_of_outputs houtput
        exact absurd (mem_fired hfields) hmem
    rw [hnone]
    refine iff_of_false ?_ (by simp)
    rw [edgeState, show (resolveEdge edge).sourceNodeId = edge.sourceNodeId from rfl]
    cases hstate : states edge.sourceNodeId with
    | none => simp
    | some state =>
      rw [(hknown.skipped _ _ hstate hmem).1]
      simp

theorem judge_ready_iff (hknown : Known hrt graph trigger played states none)
    (hfired : (graphProgram hrt graph trigger).Fired played)
    (hstored : byId graph stored.id = some stored) :
    judge (resolve rt nodeRegistry stored)
        (((executedGraph graph rt).incoming stored.id).map (edgeState states)) = .ready ↔
      (graphProgram hrt graph trigger).ready ((graphProgram hrt graph trigger).outputs played)
        stored.id := by
  rw [ready_iff hstored, judge, category_resolve]
  by_cases htrigger : categoryOf nodeRegistry stored = some .trigger
  · simp [htrigger]
  rw [if_neg htrigger, or_iff_right htrigger]
  have hlive : ∀ edge ∈ graph.edges, edge.targetNodeId = stored.id →
      (edgeState states (resolveEdge edge) = .live ↔
        IsLive ((graphProgram hrt graph trigger).outputs played) edge) :=
    fun edge _ _ => live_iff hknown hfired edge
  by_cases hnone : ((executedGraph graph rt).incoming stored.id).map (edgeState states) = []
  · have hempty : ∀ edge ∈ graph.edges, edge.targetNodeId ≠ stored.id := by
      intro edge hedge htarget
      have hclass : edgeState states (resolveEdge edge) ∈
          ((executedGraph graph rt).incoming stored.id).map (edgeState states) :=
        mem_classes.2 ⟨edge, hedge, htarget, rfl⟩
      rw [hnone] at hclass
      cases hclass
    rw [if_pos hnone]
    refine iff_of_false (by simp) ?_
    split_ifs
    · rintro ⟨⟨edge, hedge, htarget⟩, -⟩
      exact hempty edge hedge htarget
    · rintro ⟨edge, hedge, htarget, -⟩
      exact hempty edge hedge htarget
  rw [if_neg hnone]
  by_cases hjoin : categoryOf nodeRegistry stored = some .join
  · rw [if_pos hjoin, if_pos hjoin]
    obtain ⟨c, hc⟩ := List.exists_mem_of_ne_nil _ hnone
    obtain ⟨first, hfirst, htarget, -⟩ := mem_classes.1 hc
    have hall : (∀ c ∈ ((executedGraph graph rt).incoming stored.id).map (edgeState states),
        c = .live) ↔ ∀ edge ∈ graph.edges, edge.targetNodeId = stored.id →
          IsLive ((graphProgram hrt graph trigger).outputs played) edge := by
      constructor
      · intro h edge hedge htarget
        exact (hlive edge hedge htarget).1 (h _ (mem_classes.2 ⟨edge, hedge, htarget, rfl⟩))
      · intro h c hc
        obtain ⟨edge, hedge, htarget, rfl⟩ := mem_classes.1 hc
        exact (hlive edge hedge htarget).2 (h edge hedge htarget)
    split_ifs with hdead hready
    · refine iff_of_false (by simp) fun h => ?_
      cases hall.2 h.2 _ hdead.1
    · exact iff_of_true rfl ⟨⟨first, hfirst, htarget⟩, hall.1 hready⟩
    · exact iff_of_false (by simp) fun h => hready (hall.2 h.2)
  · rw [if_neg hjoin, if_neg hjoin]
    have hsome : EdgeState.live ∈ ((executedGraph graph rt).incoming stored.id).map (edgeState states) ↔
        ∃ edge ∈ graph.edges, edge.targetNodeId = stored.id ∧
          IsLive ((graphProgram hrt graph trigger).outputs played) edge := by
      rw [mem_classes]
      constructor
      · rintro ⟨edge, hedge, htarget, h⟩
        exact ⟨edge, hedge, htarget, (hlive edge hedge htarget).1 h⟩
      · rintro ⟨edge, hedge, htarget, h⟩
        exact ⟨edge, hedge, htarget, (hlive edge hedge htarget).2 h⟩
    split_ifs with hready
    · exact iff_of_true rfl (hsome.1 hready)
    · exact iff_of_false (by simp) fun h => hready (hsome.2 h)
    · exact iff_of_false (by simp) fun h => hready (hsome.2 h)

theorem pending_notMem_of_dead {classes : List EdgeState} (h : judge node classes = .dead) :
    .pending ∉ classes := by
  rw [judge] at h
  split_ifs at h with htrigger hnone hjoin hdead hready hlive hpending
  · simp [hnone]
  · exact hdead.2
  · exact hpending

theorem dead_update {state : NodeRunState} {target : String} (hid : states id = none)
    (h : judge node (((executedGraph graph rt).incoming target).map (edgeState states)) = .dead) :
    judge node (((executedGraph graph rt).incoming target).map
      (edgeState (Function.update states id (some state)))) = .dead := by
  have hpending := pending_notMem_of_dead h
  rw [← h]
  refine congrArg (judge node) (List.map_congr_left fun edge hedge => ?_)
  by_cases hsource : edge.sourceNodeId = id
  · refine absurd (List.mem_map.2 ⟨edge, hedge, ?_⟩) hpending
    rw [edgeState, hsource, hid]
  · rw [edgeState, edgeState, Function.update_of_ne hsource]

theorem Known.status (h : Known hrt graph trigger played states none) {state : NodeRunState}
    (hstate : states id = some state) : state.status = .succeeded ∨ state.status = .skipped := by
  by_cases hmem : id ∈ played.map Prod.fst
  · obtain ⟨⟨id, fields⟩, hplayed, rfl⟩ := List.mem_map.1 hmem
    rw [h.succeeded id fields hplayed (Option.some_ne_none id)] at hstate
    cases hstate
    exact .inl rfl
  · rw [(h.skipped id state hstate hmem).1]
    exact .inr rfl

theorem Known.fresh (h : Known hrt graph trigger played states none)
    (hverdict : verdict (executedGraph graph rt) states node = .ready ∨
      verdict (executedGraph graph rt) states node = .dead) : states node.id = none := by
  have hpending := pending_of_verdict hverdict
  cases hstate : states node.id with
  | none => rfl
  | some state =>
    rw [hstate, Option.map_some, Option.getD_some] at hpending
    rcases h.status hstate with hstatus | hstatus <;> rw [hstatus] at hpending <;> cases hpending

theorem Known.notMem (h : Known hrt graph trigger played states none) (hid : states id = none) :
    id ∉ played.map Prod.fst := by
  intro hmem
  obtain ⟨⟨id, fields⟩, hplayed, rfl⟩ := List.mem_map.1 hmem
  rw [h.succeeded id fields hplayed (Option.some_ne_none id)] at hid
  cases hid

theorem verdict_of_none (hid : states node.id = none) : verdict (executedGraph graph rt) states node =
    judge node (((executedGraph graph rt).incoming node.id).map (edgeState states)) := by
  rw [verdict, hid]
  rfl

theorem Known.verdict_ne (h : Known hrt graph trigger played states none) :
    verdict (executedGraph graph rt) states node ≠ .active := by
  cases hstate : states node.id with
  | none =>
    rw [verdict_of_none hstate, judge]
    split_ifs <;> simp
  | some state =>
    rw [verdict, hstate, Option.map_some, Option.getD_some]
    rcases h.status hstate with hstatus | hstatus <;> rw [hstatus] <;> simp

theorem Known.quiescent (h : Known hrt graph trigger played states none)
    (hready : (planExecution (executedGraph graph rt) states).ready = []) :
    (planExecution (executedGraph graph rt) states).quiescent = true := by
  have hactive : (executedGraph graph rt).nodes.filter
      (fun n => verdict (executedGraph graph rt) states n = .active) = [] :=
    List.filter_eq_nil_iff.2 fun node _ hverdict => h.verdict_ne (of_decide_eq_true hverdict)
  change (List.isEmpty _ && List.isEmpty _) = true
  rw [hactive, List.isEmpty_nil, Bool.true_and, List.isEmpty_iff]
  exact hready

theorem mem_executed : node ∈ (executedGraph graph rt).nodes ↔
    ∃ stored ∈ graph.nodes, resolve rt nodeRegistry stored = node := List.mem_map

theorem nodup_executed (hwf : WellFormed nodeRegistry graph) :
    ((executedGraph graph rt).nodes.map (·.id)).Nodup := by
  rw [executedGraph, resolveGraph, List.map_map]
  exact hwf.nodup

theorem Known.complete (hwf : WellFormed nodeRegistry graph)
    (h : Known hrt graph trigger played states none)
    (hfired : (graphProgram hrt graph trigger).Fired played)
    (hready : (planExecution (executedGraph graph rt) states).ready = []) :
    (graphProgram hrt graph trigger).Complete played := by
  intro id hnew hprogram
  have hfound : IsReady nodeRegistry graph _ id := hprogram
  obtain ⟨stored, hstored, -⟩ := hfound
  obtain ⟨hmem, rfl⟩ := mem_of_byId hstored
  have hjudge := (judge_ready_iff h hfired hstored).2 hprogram
  cases hstate : states stored.id with
  | none =>
    have hplanned : resolve rt nodeRegistry stored ∈ (planExecution (executedGraph graph rt) states).ready :=
      mem_ready.2 ⟨mem_executed.2 ⟨stored, hmem, rfl⟩, (verdict_of_none hstate).trans hjudge⟩
    rw [hready] at hplanned
    cases hplanned
  | some state =>
    obtain ⟨-, node, hnode, hid, hdead⟩ := h.skipped _ _ hstate hnew
    obtain ⟨other, hother, rfl⟩ := mem_executed.1 hnode
    rw [List.inj_on_of_nodup_map hwf.nodup hother hmem hid, hjudge] at hdead
    cases hdead

/-! ### What a step leaves of it -/

theorem Known.skip (h : Known hrt graph trigger played states none)
    (hnew : id ∉ played.map Prod.fst) (hid : states id = none)
    (hnode : node ∈ (executedGraph graph rt).nodes) (hnodeId : node.id = id)
    (hdead : judge node (((executedGraph graph rt).incoming id).map (edgeState states)) = .dead) :
    Known hrt graph trigger played (Function.update states id (some ⟨.skipped, []⟩)) none where
  succeeded other fields hplayed hwriting := by
    have hne : other ≠ id := fun heq => hnew (heq ▸ mem_fired hplayed)
    rw [Function.update_of_ne hne]
    exact h.succeeded other fields hplayed hwriting
  skipped other state hstate hother := by
    by_cases heq : other = id
    · rw [heq, Function.update_self] at hstate
      cases hstate
      exact ⟨rfl, node, hnode, hnodeId.trans heq.symm, dead_update hid (heq ▸ hdead)⟩
    · rw [Function.update_of_ne heq] at hstate
      obtain ⟨hskipped, node, hnode, hnodeId, hdead⟩ := h.skipped other state hstate hother
      exact ⟨hskipped, node, hnode, hnodeId, dead_update hid hdead⟩
  unwritten other hother := by cases hother

theorem Known.play (h : Known hrt graph trigger played states none)
    (hid : states id = none) :
    Known hrt graph trigger ((id, fields) :: played) states (some id) where
  succeeded other found hplayed hwriting := by
    rcases List.mem_cons.1 hplayed with heq | hplayed
    · cases heq
      exact absurd rfl hwriting
    · exact h.succeeded other found hplayed (Option.some_ne_none other)
  skipped other state hstate hother :=
    h.skipped other state hstate fun hmem => hother (List.mem_cons_of_mem _ hmem)
  unwritten other hother := by
    cases hother
    exact hid

theorem Known.write (h : Known hrt graph trigger ((id, fields) :: played) states (some id))
    (hfired : (graphProgram hrt graph trigger).Fired ((id, fields) :: played)) :
    Known hrt graph trigger ((id, fields) :: played) (Function.update states id
      (some ⟨.succeeded, (graphProgram hrt graph trigger).output id fields⟩)) none where
  succeeded other found hplayed _ := by
    by_cases heq : other = id
    · subst heq
      rw [Function.update_self, hfired.unique hplayed List.mem_cons_self]
    · rw [Function.update_of_ne heq]
      exact h.succeeded other found hplayed fun hsome => heq (Option.some.inj hsome)
  skipped other state hstate hother := by
    have hne : other ≠ id := fun heq => hother (heq ▸ List.mem_cons_self)
    rw [Function.update_of_ne hne] at hstate
    obtain ⟨hskipped, node, hnode, hnodeId, hdead⟩ := h.skipped other state hstate hother
    exact ⟨hskipped, node, hnode, hnodeId, dead_update (h.unwritten id rfl) hdead⟩
  unwritten other hother := by cases hother

theorem Planned.tail (h : Planned hrt graph trigger played states (node :: todo)) :
    Planned hrt graph trigger played states todo where
  nodup := (List.nodup_cons.1 h.nodup).2
  mem other hother := h.mem other (List.mem_cons_of_mem node hother)
  fresh other hother := h.fresh other (List.mem_cons_of_mem node hother)
  ready other hother := h.ready other (List.mem_cons_of_mem node hother)

theorem Planned.play (h : Planned hrt graph trigger played states todo)
    (hnew : id ∉ played.map Prod.fst) (hother : ∀ node ∈ todo, node.id ≠ id) :
    Planned hrt graph trigger ((id, fields) :: played) states todo where
  nodup := h.nodup
  mem := h.mem
  fresh node hnode := ⟨(h.fresh node hnode).1, fun hmem =>
    (List.mem_cons.1 hmem).elim (hother node hnode) (h.fresh node hnode).2⟩
  ready node hnode := by
    refine (graphProgram hrt graph trigger).ready_mono (fun u o ho => ?_) (h.ready node hnode)
    obtain ⟨found, hfound, rfl⟩ := mem_of_outputs ho
    have hne : u ≠ id := fun heq => hnew (heq ▸ mem_fired hfound)
    rw [outputs_cons, if_neg hne]
    exact ho

theorem Planned.write {state : NodeRunState} (h : Planned hrt graph trigger played states todo)
    (hother : ∀ node ∈ todo, node.id ≠ id) :
    Planned hrt graph trigger played (Function.update states id (some state)) todo where
  nodup := h.nodup
  mem := h.mem
  fresh node hnode := by
    rw [Function.update_of_ne (hother node hnode)]
    exact h.fresh node hnode
  ready := h.ready

theorem Doomed.tail (h : Doomed graph rt states (node :: todo)) :
    Doomed graph rt states todo where
  mem other hother := h.mem other (List.mem_cons_of_mem node hother)
  dead other hother := h.dead other (List.mem_cons_of_mem node hother)

theorem Doomed.write {state : NodeRunState} (h : Doomed graph rt states todo)
    (hid : states id = none) (hother : ∀ node ∈ todo, node.id ≠ id) :
    Doomed graph rt (Function.update states id (some state)) todo where
  mem := h.mem
  dead node hnode := by
    obtain ⟨hfresh, hdead⟩ := h.dead node hnode
    rw [Function.update_of_ne (hother node hnode)]
    exact ⟨hfresh, dead_update hid hdead⟩

end Known

/-! ### Steps -/

section Step

variable {t t' : Traced} {l : Loop} {k' : Call} {answer : Answer} {node : WorkflowNode}
  {view : PlannerView} {todo : List WorkflowNode} {stage : Stage} {job : Persist}
  {fields : List (String × Value)} {past : History String (List (String × Value))}

theorem tracing_eq_some {k : Call} :
    tracing rt graph trigger depth t k answer = some (t', k') ↔ ∃ s,
      act rt (pinnedTo rt graph trigger depth) t.execution k answer = some (s, k') ∧
        t' = { execution := s
               played := ((coming k).map fun at_ => (at_.2.id, fieldsOf at_.1.vars)).toList ++ t.played
               dispatched := t.dispatched ++ ((dispatching k).bind fun at_ =>
                calledWith rt graph trigger depth at_.1 at_.2).toList } := by
  simp only [tracing, Option.map_eq_some_iff, Prod.exists, Prod.mk.injEq]
  constructor
  · rintro ⟨s, k, hact, rfl, rfl⟩
    exact ⟨s, hact, rfl⟩
  · rintro ⟨s, hact, rfl⟩
    exact ⟨s, k', hact, rfl, rfl⟩

theorem tracing_quiet {k : Call} (hcoming : coming k = none) (hdispatching : dispatching k = none)
    (h : tracing rt graph trigger depth t k answer = some (t', k')) : ∃ s,
      act rt (pinnedTo rt graph trigger depth) t.execution k answer = some (s, k') ∧
        t' = { t with execution := s } := by
  obtain ⟨s, hact, rfl⟩ := tracing_eq_some.1 h
  refine ⟨s, hact, ?_⟩
  rw [hcoming, hdispatching]
  simp

/-- What a step changes of the loop and of the execution, as far as the invariant says. -/
theorem Core.keep {s : Execution} {l' : Loop} (h : Core hrt graph trigger t l)
    (hvars : l'.vars = l.vars) (hgrant : l'.grant = l.grant) (hstatus : s.status = .running)
    (hsaved : s.vars = none) : Core hrt graph trigger { t with execution := s } l' where
  fired := h.fired
  inOrder := h.inOrder
  vars := hvars.trans h.vars
  permitted := hgrant ▸ h.permitted
  running := hstatus
  unsaved := hsaved

theorem played_length (hcore : Core hrt graph trigger t l) :
    t.played.length ≤ (executedGraph graph rt).nodes.length := by
  rw [executedGraph, resolveGraph, List.length_map]
  exact length_le hcore.fired

/-- The wave is planned. -/
theorem step_check (hwf : WellFormed nodeRegistry graph) (hcore : Core hrt graph trigger t l)
    (hdispatched : Dispatched graph trigger rt t)
    (hknown : Known hrt graph trigger t.played l.states none) (hiter : l.iter ≤ t.played.length)
    (h : tracing rt graph trigger depth t (.loop l .check) answer = some (t', k')) :
    Plays hrt graph trigger depth t' k' := by
  obtain ⟨s, hact, rfl⟩ := tracing_quiet rfl rfl h
  have hlive : t.execution.status ≠ .cancelling := by
    rw [hcore.running]
    exact WorkflowExecutionStatus.noConfusion
  rw [act, actStage, if_neg hlive] at hact
  obtain ⟨rfl, rfl⟩ := Prod.mk.inj (Option.some.inj hact)
  have hmem : ∀ {node}, node ∈ (planExecution (executedGraph graph rt) l.states).ready →
      l.states node.id = none ∧ node ∈ (executedGraph graph rt).nodes :=
    fun hnode => ⟨hknown.fresh (.inl (mem_ready.1 hnode).2), (mem_ready.1 hnode).1⟩
  refine .prune ⟨hcore, hdispatched, hknown, nodup_planned (nodup_executed hwf),
    ⟨fun node hnode => (mem_dead.1 hnode).1, fun node hnode => ?_⟩,
    ⟨(nodup_executed hwf).sublist (List.filter_sublist.map _), fun node hnode => (hmem hnode).2,
      fun node hnode => ⟨(hmem hnode).1, hknown.notMem (hmem hnode).1⟩, fun node hnode => ?_⟩,
    fun hready => ⟨hknown.quiescent hready, hknown.complete hwf hcore.fired hready⟩, hiter⟩
  · have hnone := hknown.fresh (.inr (mem_dead.1 hnode).2)
    exact ⟨hnone, (verdict_of_none hnone).symm.trans (mem_dead.1 hnode).2⟩
  · obtain ⟨stored, hstored, rfl⟩ := mem_executed.1 (hmem hnode).2
    refine (judge_ready_iff hknown hcore.fired (hwf.byId_eq hstored)).1 ?_
    exact (verdict_of_none (hmem hnode).1).symm.trans (mem_ready.1 hnode).2

theorem step_prune (hpruning : Pruning hrt graph trigger t l view todo)
    (h : tracing rt graph trigger depth t (.loop l (.prune view todo)) answer = some (t', k')) :
    Plays hrt graph trigger depth t' k' := by
  obtain ⟨s, hact, rfl⟩ := tracing_quiet rfl rfl h
  obtain ⟨rfl, rfl⟩ := Prod.mk.inj (Option.some.inj hact)
  cases todo with
  | nil =>
    rw [prune, afterPrune]
    by_cases hready : view.ready = []
    · obtain ⟨hquiescent, hcomplete⟩ := hpruning.quiescent hready
      rw [hready, hquiescent]
      exact .finish hpruning.core hpruning.dispatched hcomplete
    · have hsome : view.ready.isEmpty = false := by simpa using hready
      rw [hsome]
      refine .process ⟨hpruning.core, hpruning.known, hpruning.planned,
        fun _ _ => Option.some_ne_none _, ?_⟩ hpruning.dispatched
      have hpos := List.length_pos_of_ne_nil hready
      have hiter := hpruning.iter
      change l.iter + 1 ≤ t.played.length + view.ready.length
      omega
  | cons node todo =>
    have hnone := (hpruning.doomed.dead node List.mem_cons_self).1
    rw [prune, hnone]
    exact .skip hpruning rfl

theorem agree_refl {c : Value} {ps : List (List String)} : Agree c c ps := fun _ _ => .refl _

theorem inOrder_play {s : List (String × Value)}
    (horder : (graphProgram hrt graph trigger).InOrder (place graph) t.played)
    (hstep : inStep rt graph t (.loop l (.process (node :: todo))) answer = true) :
    (graphProgram hrt graph trigger).InOrder (place graph) ((node.id, s) :: t.played) := by
  refine List.pairwise_cons.2 ⟨fun e he hmeet => ?_, horder⟩
  rw [inStep, coming, Option.all_some, List.all_eq_true] at hstep
  have hpair := hstep e he
  have hfound : ∀ {id : String} {key : String},
      (graphProgram hrt graph trigger).target id = some key →
        ∃ n, byId graph id = some n ∧ setsKey rt nodeRegistry n = some key :=
    fun h => Option.bind_eq_some_iff.1 h
  have hreads : ∀ {id : String} {key : String}, (graphProgram hrt graph trigger).reads id key →
      ∃ n, byId graph id = some n ∧ readsKey rt nodeRegistry n key = true :=
    fun h => (Option.any_eq_true _ _).1 h
  have hmeets : ∃ u v, byId graph e.1 = some u ∧ byId graph node.id = some v ∧ meets rt u v = true := by
    rcases hmeet with ⟨key, hset, hother | hother⟩ | ⟨key, hset, hread⟩
    · obtain ⟨u, hu, hkey⟩ := hfound hset
      obtain ⟨v, hv, hkey'⟩ := hfound hother
      exact ⟨u, v, hu, hv, by simp [meets, hkey, hkey']⟩
    · obtain ⟨u, hu, hkey⟩ := hfound hset
      obtain ⟨v, hv, hkey'⟩ := hreads hother
      exact ⟨u, v, hu, hv, by simp [meets, hkey, hkey']⟩
    · obtain ⟨v, hv, hkey⟩ := hfound hset
      obtain ⟨u, hu, hkey'⟩ := hreads hread
      exact ⟨u, v, hu, hv, by simp [meets, hkey, hkey']⟩
  obtain ⟨u, v, hu, hv, hmeets⟩ := hmeets
  simpa [hu, hv, hmeets] using hpair

theorem action_called (rt : Runtime) (trigger : List (String × Value)) (depth : ℕ) {stored : StoredNode} {d : NodeDefinition} (hstored : byId graph stored.id = some stored)
    (hmem : stored ∈ graph.nodes) (hd : nodeRegistry stored.type = some d)
    (haction : categoryOf nodeRegistry stored = some .action)
    (hpermitted : permits graph l.grant = true) (hvars : l.vars = .object fields) :
    refusal (executedGraph graph rt) l (resolve rt nodeRegistry stored) = none ∧
      calledWith rt graph trigger depth l (resolve rt nodeRegistry stored) =
        inputOf graph trigger rt stored.id fields := by
  have hcategory : d.category = .action := by
    rw [categoryOf, hd] at haction
    exact Option.some.inj haction
  have hregular := isRegular_of_registry hd
  rw [isRegular, hcategory, Bool.and_eq_true, Bool.and_eq_true, Option.any_eq_true] at hregular
  obtain ⟨-, -, actionId, hactionId, hne⟩ := hregular
  have hbound : (resolve rt nodeRegistry stored).definition.bind (·.actionId) = some actionId := by
    rw [resolve, hd]
    exact hactionId
  have hallowed : denied l.grant actionId = false := by
    have hall := List.all_eq_true.1 hpermitted stored hmem
    rw [hd, Option.bind_some, hactionId] at hall
    simpa using hall
  constructor
  · rw [refusal, hbound]
    split
    · rename_i heq
      cases heq
    · rename_i heq
      cases heq
      exact absurd rfl (of_decide_eq_true hne)
    · rename_i heq
      cases heq
      rw [hallowed]
      rfl
  · rw [calledWith, hbound, inputOf, show (resolve rt nodeRegistry stored).id = stored.id from rfl,
      hstored, Option.bind_some, actionInput, haction, hd, Option.bind_some, hactionId]
    dsimp only
    rw [if_neg (of_decide_eq_true hne), hvars]
    rfl

theorem step_heartbeat (hplaying : Playing hrt graph trigger t l none [])
    (hdispatched : Dispatched graph trigger rt t)
    (h : tracing rt graph trigger depth t (.loop l (.process [])) answer = some (t', k')) :
    Plays hrt graph trigger depth t' k' := by
  obtain ⟨s, hact, rfl⟩ := tracing_quiet rfl rfl h
  obtain ⟨rfl, rfl⟩ := Prod.mk.inj (Option.some.inj hact)
  have hiter := hplaying.iter
  have hlength := played_length hplaying.core
  rw [List.length_nil, Nat.add_zero] at hiter
  have hbound : l.iter + 1 < maxIterations (pinnedTo rt graph trigger depth).graph := by
    change l.iter + 1 < (executedGraph graph rt).nodes.length * 3 + 5
    omega
  rw [again, if_pos hbound]
  exact .check (hplaying.core.keep rfl rfl hplaying.core.running hplaying.core.unsaved) hdispatched
    hplaying.known hiter

theorem visited_eq {stored : StoredNode} (hvars : l.vars = .object fields)
    (h : tracing rt graph trigger depth t (.loop l (.process (resolve rt nodeRegistry stored :: todo)))
      answer = some (t', k')) :
    t' = ⟨{ t.execution with visits := bump t.execution.visits stored.id },
        (stored.id, fields) :: t.played, t.dispatched⟩ ∧
      k' = .loop (process rt (pinnedTo rt graph trigger depth) l (resolve rt nodeRegistry stored) todo).1
        (process rt (pinnedTo rt graph trigger depth) l (resolve rt nodeRegistry stored) todo).2 := by
  obtain ⟨s, hact, ht⟩ := tracing_eq_some.1 h
  obtain ⟨rfl, rfl⟩ := Prod.mk.inj (Option.some.inj hact)
  refine ⟨?_, rfl⟩
  have hcoming : coming (.loop l (.process (resolve rt nodeRegistry stored :: todo))) =
      some (l, resolve rt nodeRegistry stored) := rfl
  have hdispatching : dispatching
      (.loop l (.process (resolve rt nodeRegistry stored :: todo))) = none := rfl
  rw [ht, hcoming, hdispatching, Option.map_some, hvars, Option.bind_none, Option.toList_none,
    List.append_nil]
  rfl

theorem Playing.visited {stored : StoredNode} (l' : Loop)
    (hplaying : Playing hrt graph trigger t l none (resolve rt nodeRegistry stored :: todo))
    (hfields : (graphProgram hrt graph trigger).after t.played = fields)
    (hfire : (graphProgram hrt graph trigger).fire stored.id fields =
      setFields nodeRegistry trigger rt stored fields)
    (hstep : inStep rt graph t (.loop l (.process (resolve rt nodeRegistry stored :: todo))) answer = true)
    (hstates : l'.states = l.states) (hgrant : l'.grant = l.grant) (hiter : l'.iter = l.iter)
    (hvars : l'.vars = .object (setFields nodeRegistry trigger rt stored fields)) :
    Playing hrt graph trigger ⟨{ t.execution with visits := bump t.execution.visits stored.id },
      (stored.id, fields) :: t.played, t.dispatched⟩ l' (some stored.id) todo := by
  obtain ⟨hnone, hnew⟩ := hplaying.planned.fresh _ List.mem_cons_self
  obtain ⟨hnotTodo, -⟩ := List.nodup_cons.1 hplaying.planned.nodup
  have hother : ∀ other ∈ todo, other.id ≠ stored.id :=
    fun other hother heq => hnotTodo (List.mem_map.2 ⟨other, hother, heq⟩)
  have hfired := hplaying.core.fired.fire stored.id hnew (hplaying.planned.ready _ List.mem_cons_self)
  have hwaves := hplaying.iter
  rw [List.length_cons] at hwaves
  obtain ⟨grant, states, vars, iter⟩ := l'
  subst hfields hstates hgrant hiter hvars
  refine ⟨⟨hfired, inOrder_play hplaying.core.inOrder hstep, ?_, hplaying.core.permitted,
    hplaying.core.running, hplaying.core.unsaved⟩, hplaying.known.play hnone, hplaying.planned.tail.play hnew hother,
    fun other hmem heq => hother other hmem (Option.some.inj heq), ?_⟩
  · rw [Program.after, hfire]
  · change l.iter + 1 ≤ t.played.length + 1 + todo.length
    omega

theorem step_process (hwf : WellFormed nodeRegistry graph)
    (hpauses : ∀ n ∈ graph.nodes, (resolve rt nodeRegistry n).pauses = false)
    (hplaying : Playing hrt graph trigger t l none todo) (hdispatched : Dispatched graph trigger rt t)
    (hstep : inStep rt graph t (.loop l (.process todo)) answer = true)
    (h : tracing rt graph trigger depth t (.loop l (.process todo)) answer = some (t', k')) :
    Plays hrt graph trigger depth t' k' := by
  cases todo with
  | nil => exact step_heartbeat hplaying hdispatched h
  | cons node todo =>
    obtain ⟨stored, hmem, rfl⟩ := mem_executed.1 (hplaying.planned.mem node List.mem_cons_self)
    have hstored := hwf.byId_eq hmem
    obtain ⟨d, hd⟩ := Option.isSome_iff_exists.1 (hwf.known stored hmem)
    have hvars := hplaying.core.vars
    generalize hfields : (graphProgram hrt graph trigger).after t.played = fields at hvars
    obtain ⟨hfire, houtput⟩ := program_of_byId hrt trigger hstored fields
    obtain ⟨rfl, rfl⟩ := visited_eq hvars h
    have hcontext : context (pinnedTo rt graph trigger depth) l.vars = contextOf trigger fields := by
      rw [hvars]
      rfl
    rw [process, if_neg (by rw [hpauses stored hmem]; simp), category_resolve]
    by_cases haction : categoryOf nodeRegistry stored = some .action
    · have hkeep : setFields nodeRegistry trigger rt stored fields = fields := by
        rw [setFields, setsKey, haction]
        rfl
      obtain ⟨hrefusal, hcalled⟩ := action_called rt trigger depth hstored hmem hd haction
        hplaying.core.permitted hvars
      have hallowed : refusal (pinnedTo rt graph trigger depth).graph l
          (resolve rt nodeRegistry stored) = none := hrefusal
      rw [if_pos haction, hallowed]
      refine .dispatch (hplaying.visited l hfields hfire hstep rfl rfl rfl
        (hvars.trans (congrArg Value.object hkeep.symm))) rfl ?_ hdispatched hcalled
      rw [show (resolve rt nodeRegistry stored).id = stored.id from rfl, houtput, portsOf, if_pos haction]
    · rw [if_neg haction]
      have hassign : assign rt (resolve rt nodeRegistry stored)
          (context (pinnedTo rt graph trigger depth) l.vars) l.vars =
            .object (setFields nodeRegistry trigger rt stored fields) := by
        rw [hcontext, hvars]
        exact assign_eq hrt agree_refl
      have hports : (graphProgram hrt graph trigger).output stored.id fields =
          firedPorts rt (resolve rt nodeRegistry stored)
            (context (pinnedTo rt graph trigger depth) l.vars) := by
        rw [houtput, portsOf, if_neg haction, hcontext]
      have hinput : inputOf graph trigger rt stored.id fields = none := by
        rw [inputOf, hstored, Option.bind_some, actionInput]
        split
        · rename_i haction' _
          exact absurd haction' haction
        · rfl
      rw [← hports]
      refine .persist (hplaying.visited ⟨l.grant, l.states, assign rt (resolve rt nodeRegistry stored)
        (context (pinnedTo rt graph trigger depth) l.vars) l.vars, l.iter⟩ hfields hfire hstep
        rfl rfl rfl hassign) rfl ?_ rfl
      change t.dispatched = (List.filterMap _ ((stored.id, fields) :: t.played)).reverse
      rw [List.filterMap_cons, hinput]
      exact hdispatched

theorem step_dispatch (hplaying : Playing hrt graph trigger t l (some node.id) todo)
    (hplayed : t.played = (node.id, fields) :: past)
    (houtput : (graphProgram hrt graph trigger).output node.id fields = ["out"])
    (hdispatched : t.dispatched = (past.filterMap fun e => inputOf graph trigger rt e.1 e.2).reverse)
    (hcalled : calledWith rt graph trigger depth l node = inputOf graph trigger rt node.id fields)
    (h : tracing rt graph trigger depth t (.loop l (.dispatch node 1 todo)) answer = some (t', k')) :
    Plays hrt graph trigger depth t' k' := by
  obtain ⟨s, hact, rfl⟩ := tracing_eq_some.1 h
  obtain ⟨rfl, rfl⟩ := Prod.mk.inj (Option.some.inj hact)
  obtain ⟨hfired, hinOrder, hvars, hpermitted, hrunning, hunsaved⟩ := hplaying.core
  refine .calling ⟨⟨hfired, hinOrder, hvars, hpermitted, hrunning, hunsaved⟩, hplaying.known,
    hplaying.planned, hplaying.apart, hplaying.iter⟩ hplayed houtput ?_
  change t.dispatched ++ (calledWith rt graph trigger depth l node).toList = _
  rw [hcalled, hdispatched]
  change _ = (t.played.filterMap fun e => inputOf graph trigger rt e.1 e.2).reverse
  rw [hplayed, List.filterMap_cons]
  cases inputOf graph trigger rt node.id fields <;> simp

theorem step_calling (hplaying : Playing hrt graph trigger t l (some node.id) todo)
    (hplayed : t.played = (node.id, fields) :: past)
    (houtput : (graphProgram hrt graph trigger).output node.id fields = ["out"])
    (hdispatched : Dispatched graph trigger rt t)
    (hsmooth : smooth graph t (.loop l (.calling node 1 todo)) answer = true)
    (h : tracing rt graph trigger depth t (.loop l (.calling node 1 todo)) answer = some (t', k')) :
    Plays hrt graph trigger depth t' k' := by
  obtain ⟨s, hact, rfl⟩ := tracing_quiet rfl rfl h
  obtain ⟨ok, hok, heq⟩ := Option.map_eq_some_iff.1 hact
  obtain ⟨rfl, rfl⟩ := Prod.mk.inj heq
  have hgood : ok = true := by simpa [smooth, hok] using hsmooth
  rw [hgood]
  exact .persist hplaying hplayed hdispatched (by rw [houtput]; rfl)

theorem step_skip (hpruning : Pruning hrt graph trigger t l view (node :: todo))
    (hstored : writing stage = some ⟨node, ⟨.skipped, []⟩, .pruned view todo⟩)
    (h : tracing rt graph trigger depth t (.loop l stage) answer = some (t', k')) :
    Plays hrt graph trigger depth t' k' := by
  cases stage with
  | find job =>
    cases hstored
    obtain ⟨s, hact, rfl⟩ := tracing_quiet rfl rfl h
    obtain ⟨rfl, rfl⟩ := Prod.mk.inj (Option.some.inj hact)
    exact .skip hpruning rfl
  | write job existing =>
    cases hstored
    obtain ⟨s, hact, rfl⟩ := tracing_quiet rfl rfl h
    obtain ⟨rfl, rfl⟩ := Prod.mk.inj (Option.some.inj hact)
    obtain ⟨hnone, hdead⟩ := hpruning.doomed.dead node List.mem_cons_self
    have hall : ((node :: (todo ++ view.ready)).map (·.id)).Nodup := hpruning.nodup
    obtain ⟨hnew, hnodup⟩ := List.nodup_cons.1 hall
    have hother : ∀ other ∈ todo ++ view.ready, other.id ≠ node.id :=
      fun other hother heq => hnew (List.mem_map.2 ⟨other, hother, heq⟩)
    exact .prune ⟨hpruning.core.keep rfl rfl hpruning.core.running hpruning.core.unsaved,
      hpruning.dispatched, hpruning.known.skip (hpruning.known.notMem hnone) hnone
        (hpruning.doomed.mem node List.mem_cons_self) rfl hdead, hnodup,
      hpruning.doomed.tail.write hnone fun other hmem => hother other (List.mem_append_left _ hmem),
      hpruning.planned.write fun other hmem => hother other (List.mem_append_right _ hmem),
      hpruning.quiescent, hpruning.iter⟩
  | _ => cases hstored

theorem step_persist (hplaying : Playing hrt graph trigger t l (some node.id) todo)
    (hplayed : t.played = (node.id, fields) :: past) (hdispatched : Dispatched graph trigger rt t)
    (hstored : writing stage = some ⟨node,
      ⟨.succeeded, (graphProgram hrt graph trigger).output node.id fields⟩, .processed false todo⟩)
    (h : tracing rt graph trigger depth t (.loop l stage) answer = some (t', k')) :
    Plays hrt graph trigger depth t' k' := by
  cases stage with
  | find job =>
    cases hstored
    obtain ⟨s, hact, rfl⟩ := tracing_quiet rfl rfl h
    obtain ⟨rfl, rfl⟩ := Prod.mk.inj (Option.some.inj hact)
    exact .persist hplaying hplayed hdispatched rfl
  | write job existing =>
    cases hstored
    obtain ⟨s, hact, rfl⟩ := tracing_quiet rfl rfl h
    obtain ⟨rfl, rfl⟩ := Prod.mk.inj (Option.some.inj hact)
    have hfired := hplaying.core.fired
    have hknown := hplaying.known
    rw [hplayed] at hfired hknown
    have hwritten := hknown.write hfired
    rw [← hplayed] at hwritten
    exact .process ⟨hplaying.core.keep rfl rfl hplaying.core.running hplaying.core.unsaved, hwritten,
      hplaying.planned.write fun other hmem heq => hplaying.apart other hmem (congrArg some heq),
      fun other _ => Option.some_ne_none _, hplaying.iter⟩ hdispatched
  | _ => cases hstored

theorem step_finish (hcore : Core hrt graph trigger t l) (hdispatched : Dispatched graph trigger rt t)
    (hcomplete : (graphProgram hrt graph trigger).Complete t.played)
    (h : tracing rt graph trigger depth t (.loop l (.finish false)) answer = some (t', k')) :
    Plays hrt graph trigger depth t' k' := by
  obtain ⟨s, hact, rfl⟩ := tracing_quiet rfl rfl h
  obtain ⟨rfl, rfl⟩ := Prod.mk.inj (Option.some.inj hact)
  refine .finalize _ ⟨hcore.fired, hcore.inOrder, hcomplete, hdispatched, ?_⟩
  change (saveVars t.execution.vars l.vars).getD _ = _
  rw [hcore.unsaved, hcore.vars]
  cases (graphProgram hrt graph trigger).after t.played <;> rfl

theorem core_start (held : Option IdentityGrant) (h : permits graph held = true) {s : Execution}
    (hstatus : s.status = .running) (hvars : s.vars = none) :
    Core hrt graph trigger ⟨s, [], []⟩ ⟨held, fun _ => none, .object [], 0⟩ :=
  ⟨.start, .nil, rfl, h, hstatus, hvars⟩

theorem known_start : Known hrt graph trigger [] (fun _ => none) none where
  succeeded id fields hmem := (List.not_mem_nil hmem).elim
  skipped id state hstate := by cases hstate
  unwritten id hid := by cases hid

theorem Plays.finished {k : Call} (h : Plays hrt graph trigger depth t k) (hidle : k = .idle) :
    Finished hrt graph trigger t := by
  cases h with
  | idle hfinished => exact hfinished
  | _ => cases hidle

theorem Plays.step {k : Call} (hwf : WellFormed nodeRegistry graph)
    (hpauses : ∀ n ∈ graph.nodes, (resolve rt nodeRegistry n).pauses = false)
    (hkeys : ∀ field ∈ trigger, field.1 ≠ "vars" ∧ field.1 ≠ "trigger")
    (hplays : Plays hrt graph trigger depth t k) (hsmooth : smooth graph t k answer = true)
    (hstep : inStep rt graph t k answer = true)
    (h : tracing rt graph trigger depth t k answer = some (t', k')) :
    Plays hrt graph trigger depth t' k' := by
  cases hplays with
  | load =>
    obtain ⟨s, hact, rfl⟩ := tracing_quiet rfl rfl h
    obtain ⟨rfl, rfl⟩ := Prod.mk.inj (Option.some.inj hact)
    exact .loadStates
  | loadStates =>
    obtain ⟨s, hact, rfl⟩ := tracing_quiet rfl rfl h
    obtain ⟨held, hheld, heq⟩ := Option.map_eq_some_iff.1 hact
    obtain ⟨rfl, rfl⟩ := Prod.mk.inj heq
    have hvars : initialVars (pinnedTo rt graph trigger depth) none = .object [] := by
      rw [initialVars, show (pinnedTo rt graph trigger depth).inputContext = trigger from rfl,
        List.lookup_eq_none_iff.2 fun field hfield => bne_iff_ne.2 (hkeys field hfield).1.symm]
      rfl
    rw [hvars]
    exact .setRunning held (by simpa [smooth, hheld] using hsmooth)
  | setRunning held hheld =>
    obtain ⟨s, hact, rfl⟩ := tracing_quiet rfl rfl h
    obtain ⟨rfl, rfl⟩ := Prod.mk.inj (Option.some.inj hact)
    exact .check (core_start held hheld rfl rfl) rfl known_start (Nat.le_refl 0)
  | check hcore hdispatched hknown hiter => exact step_check hwf hcore hdispatched hknown hiter h
  | prune hpruning => exact step_prune hpruning h
  | process hplaying hdispatched => exact step_process hwf hpauses hplaying hdispatched hstep h
  | dispatch hplaying hplayed houtput hdispatched hcalled =>
    exact step_dispatch hplaying hplayed houtput hdispatched hcalled h
  | calling hplaying hplayed houtput hdispatched =>
    exact step_calling hplaying hplayed houtput hdispatched hsmooth h
  | skip hpruning hstored => exact step_skip hpruning hstored h
  | persist hplaying hplayed hdispatched hstored =>
    exact step_persist hplaying hplayed hdispatched hstored h
  | finish hcore hdispatched hcomplete => exact step_finish hcore hdispatched hcomplete h
  | finalize status hfinished =>
    obtain ⟨s, hact, rfl⟩ := tracing_quiet rfl rfl h
    obtain ⟨rfl, rfl⟩ := Prod.mk.inj (Option.some.inj hact)
    exact .idle ⟨hfinished.fired, hfinished.inOrder, hfinished.complete, hfinished.dispatched,
      hfinished.saved⟩
  | idle => cases hsmooth

/-! ### The end of a run -/

/-- The steps that a wave has left at most. -/
def waveCost (nodes : ℕ) : Stage → ℕ
  | .check => 9 * nodes + 5
  | .prune view todo => 3 * todo.length + 6 * view.ready.length + 4
  | .process todo => 6 * todo.length + 3
  | .dispatch _ _ todo => 6 * todo.length + 8
  | .calling _ _ todo => 6 * todo.length + 7
  | .find job => restCost job.next + 2
  | .write job _ => restCost job.next + 1
  | _ => 0
where
  restCost : Next → ℕ
    | .pruned view todo => 3 * todo.length + 6 * view.ready.length + 4
    | .processed _ todo => 6 * todo.length + 4
    | .armed => 0

/-- The steps that a run has left at most. -/
def cost (nodes : ℕ) : Call → ℕ
  | .load => (nodes * 3 + 5) * (9 * nodes + 5) + (9 * nodes + 5) + 3
  | .loadStates _ => (nodes * 3 + 5) * (9 * nodes + 5) + (9 * nodes + 5) + 2
  | .setRunning _ => (nodes * 3 + 5) * (9 * nodes + 5) + (9 * nodes + 5) + 1
  | .loop _ (.finish _) => 2
  | .loop l stage => (nodes * 3 + 5 - l.iter) * (9 * nodes + 5) + waveCost nodes stage
  | .finalize _ => 1
  | _ => 0

theorem cost_check (hcore : Core hrt graph trigger t l)
    (h : tracing rt graph trigger depth t (.loop l .check) answer = some (t', k')) :
    cost graph.nodes.length k' < cost graph.nodes.length (.loop l .check) := by
  obtain ⟨s, hact, -⟩ := tracing_eq_some.1 h
  have hlive : t.execution.status ≠ .cancelling := by
    rw [hcore.running]
    exact WorkflowExecutionStatus.noConfusion
  rw [act, actStage, if_neg hlive] at hact
  obtain ⟨-, rfl⟩ := Prod.mk.inj (Option.some.inj hact)
  have hfilter : ∀ p : WorkflowNode → Bool,
      ((executedGraph graph rt).nodes.filter p).length ≤ graph.nodes.length := by
    intro p
    refine (List.length_filter_le _ _).trans ?_
    rw [executedGraph, resolveGraph, List.length_map]
  have hwave : ∀ {dead ready : ℕ}, dead ≤ graph.nodes.length → ready ≤ graph.nodes.length →
      3 * dead + 6 * ready + 4 < 9 * graph.nodes.length + 5 := by omega
  exact Nat.add_lt_add_left (hwave (hfilter _) (hfilter _)) _

theorem cost_prune (hpruning : Pruning hrt graph trigger t l view todo)
    (h : tracing rt graph trigger depth t (.loop l (.prune view todo)) answer = some (t', k')) :
    cost graph.nodes.length k' < cost graph.nodes.length (.loop l (.prune view todo)) := by
  obtain ⟨s, hact, -⟩ := tracing_eq_some.1 h
  obtain ⟨-, rfl⟩ := Prod.mk.inj (Option.some.inj hact)
  cases todo with
  | nil =>
    rw [prune, afterPrune]
    by_cases hready : view.ready = []
    · rw [hready, (hpruning.quiescent hready).1]
      exact Nat.lt_add_left _ (by simp [cost, waveCost])
    · have hsome : view.ready.isEmpty = false := by simpa using hready
      rw [hsome]
      exact Nat.add_lt_add_left (by simp [waveCost]) _
  | cons node todo =>
    rw [prune, (hpruning.doomed.dead node List.mem_cons_self).1]
    exact Nat.add_lt_add_left (by simp [waveCost, waveCost.restCost]; omega) _

theorem cost_process (hplaying : Playing hrt graph trigger t l none todo)
    (hpauses : ∀ n ∈ graph.nodes, (resolve rt nodeRegistry n).pauses = false)
    (h : tracing rt graph trigger depth t (.loop l (.process todo)) answer = some (t', k')) :
    cost graph.nodes.length k' < cost graph.nodes.length (.loop l (.process todo)) := by
  obtain ⟨s, hact, -⟩ := tracing_eq_some.1 h
  obtain ⟨-, rfl⟩ := Prod.mk.inj (Option.some.inj hact)
  cases todo with
  | nil =>
    have hiter := hplaying.iter
    have hlength := length_le hplaying.core.fired
    rw [List.length_nil, Nat.add_zero] at hiter
    have hbound : l.iter + 1 < maxIterations (pinnedTo rt graph trigger depth).graph := by
      change l.iter + 1 < ((graph.nodes.map (resolve rt nodeRegistry)).length) * 3 + 5
      rw [List.length_map]
      omega
    rw [again, if_pos hbound]
    change (graph.nodes.length * 3 + 5 - (l.iter + 1)) * (9 * graph.nodes.length + 5) +
      (9 * graph.nodes.length + 5) <
        (graph.nodes.length * 3 + 5 - l.iter) * (9 * graph.nodes.length + 5) + 3
    have hwave : graph.nodes.length * 3 + 5 - l.iter = graph.nodes.length * 3 + 5 - (l.iter + 1) + 1 := by
      omega
    rw [hwave, Nat.add_mul, Nat.one_mul]
    omega
  | cons node todo =>
    obtain ⟨stored, hmem, rfl⟩ := mem_executed.1 (hplaying.planned.mem node List.mem_cons_self)
    change cost _ (.loop (process _ _ _ _ _).1 (process _ _ _ _ _).2) < _
    rw [process, if_neg (by rw [hpauses stored hmem]; simp)]
    split_ifs
    · split
      · exact Nat.add_lt_add_left (by simp [waveCost, waveCost.restCost, Outcome.persist]; omega) _
      · exact Nat.add_lt_add_left (by simp [waveCost]; omega) _
    · exact Nat.add_lt_add_left (by simp [waveCost, waveCost.restCost, Outcome.persist]; omega) _

theorem cost_persist (hstored : writing stage = some job) (hnext : job.next ≠ .armed)
    (h : tracing rt graph trigger depth t (.loop l stage) answer = some (t', k')) :
    cost graph.nodes.length k' < cost graph.nodes.length (.loop l stage) := by
  obtain ⟨s, hact, -⟩ := tracing_eq_some.1 h
  cases stage with
  | find job =>
    cases hstored
    obtain ⟨-, rfl⟩ := Prod.mk.inj (Option.some.inj hact)
    exact Nat.add_lt_add_left (Nat.lt_succ_self _) _
  | write job existing =>
    cases hstored
    obtain ⟨-, rfl⟩ := Prod.mk.inj (Option.some.inj hact)
    obtain ⟨node, state, next⟩ := job
    cases next with
    | pruned view todo => exact Nat.add_lt_add_left (by simp [waveCost, waveCost.restCost]) _
    | processed stops todo =>
      cases stops with
      | true =>
        change 2 < _ + (6 * todo.length + 4 + 1)
        omega
      | false => exact Nat.add_lt_add_left (by simp [waveCost, waveCost.restCost]) _
    | armed => exact absurd rfl hnext
  | _ => cases hstored

/-- A run takes fewer and fewer steps to its end. -/
theorem cost_lt {k : Call} (hplays : Plays hrt graph trigger depth t k)
    (hpauses : ∀ n ∈ graph.nodes, (resolve rt nodeRegistry n).pauses = false)
    (hsmooth : smooth graph t k answer = true)
    (h : tracing rt graph trigger depth t k answer = some (t', k')) :
    cost graph.nodes.length k' < cost graph.nodes.length k := by
  cases hplays with
  | load | setRunning | finish | finalize =>
    obtain ⟨s, hact, rfl⟩ := tracing_quiet rfl rfl h
    obtain ⟨rfl, rfl⟩ := Prod.mk.inj (Option.some.inj hact)
    exact Nat.lt_succ_self _
  | loadStates =>
    obtain ⟨s, hact, rfl⟩ := tracing_quiet rfl rfl h
    obtain ⟨held, hheld, heq⟩ := Option.map_eq_some_iff.1 hact
    obtain ⟨rfl, rfl⟩ := Prod.mk.inj heq
    exact Nat.lt_succ_self _
  | check hcore hdispatched hknown hiter =>
    exact cost_check hcore h
  | prune hpruning => exact cost_prune hpruning h
  | process hplaying hdispatched => exact cost_process hplaying hpauses h
  | dispatch hplaying hplayed houtput hdispatched hcalled =>
    obtain ⟨s, hact, rfl⟩ := tracing_eq_some.1 h
    obtain ⟨rfl, rfl⟩ := Prod.mk.inj (Option.some.inj hact)
    exact Nat.add_lt_add_left (Nat.lt_succ_self _) _
  | calling hplaying hplayed houtput hdispatched =>
    obtain ⟨s, hact, -⟩ := tracing_eq_some.1 h
    obtain ⟨ok, hok, heq⟩ := Option.map_eq_some_iff.1 hact
    obtain ⟨-, rfl⟩ := Prod.mk.inj heq
    have hgood : ok = true := by simpa [smooth, hok] using hsmooth
    rw [hgood]
    exact Nat.add_lt_add_left (Nat.lt_succ_self _) _
  | skip _ hstored | persist _ _ _ hstored => exact cost_persist hstored (by simp) h
  | idle => cases hsmooth

theorem permits_none : permits graph none = true := by simp [permits, denied]

theorem Plays.next {k : Call} (hplays : Plays hrt graph trigger depth t k) (hidle : k ≠ .idle) :
    ∃ answer t' k', smooth graph t k answer = true ∧
      tracing rt graph trigger depth t k answer = some (t', k') := by
  have hgo : ∀ answer, smooth graph t k answer = true →
      (act rt (pinnedTo rt graph trigger depth) t.execution k answer).isSome = true →
        ∃ answer t' k', smooth graph t k answer = true ∧
          tracing rt graph trigger depth t k answer = some (t', k') := by
    intro answer hsmooth hact
    obtain ⟨⟨s, k'⟩, hact⟩ := Option.isSome_iff_exists.1 hact
    exact ⟨answer, _, k', hsmooth, tracing_eq_some.2 ⟨s, hact, rfl⟩⟩
  cases hplays with
  | loadStates => exact hgo (.grant none) (by simp [smooth, Answer.grant?, permits_none]) rfl
  | calling => exact hgo (.action true) rfl rfl
  | check hcore =>
    refine hgo .go rfl ?_
    rw [act, actStage]
    split_ifs <;> rfl
  | skip hpruning hstored | persist hplaying hplayed hdispatched hstored =>
    rename_i stage
    cases stage <;> first | exact hgo .go rfl rfl | cases hstored
  | idle => exact absurd rfl hidle
  | _ => exact hgo .go rfl rfl

end Step

end Plays

end UltraTorrent.Workflows.ExecutedRuns
