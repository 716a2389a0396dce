import Mathlib.Algebra.Order.Ring.Rat
import Mathlib.Data.List.Nodup
import UltraTorrent.Workflows.ConditionEval

/-! The graph a workflow version stores, its nodes resolved in the registry, and what a node
without a side effect comes to. -/
namespace UltraTorrent.Workflows.GraphTypes

open Library.EcmaScript ConditionEval Template

inductive NodeCategory where
  | trigger
  | condition
  | branch
  | action
  | delay
  | wait
  | parallel
  | join
  | transform
  | variable
  | approval
  | subworkflow
  | ending
  deriving DecidableEq

structure WorkflowNodeDefinition where
  category : NodeCategory
  outputs : List String
  actionId : Option String

/-- A condition nested below the key `condition`. -/
structure NestedCondition where
  field : Option (List String)
  op : Option ConditionOperator
  value : Option Value

structure BranchRule where
  port : String
  condition : WorkflowCondition

/-- The keys of a configuration that the executor reads. Paths are cut at their dots, and an
empty text is an empty path. -/
structure NodeConfig where
  field : Option (List String) := none
  operator : Option ConditionOperator := none
  op : Option ConditionOperator := none
  value : Option Value := none
  condition : Option NestedCondition := none
  branches : List BranchRule := []
  key : String := ""
  duration : ℚ := 0
  eventType : Option String := none
  requiredPermission : Option String := none
  workflowId : String := ""

structure WorkflowNode where
  id : String
  /-- `registry.get(node.type)`. -/
  definition : Option WorkflowNodeDefinition
  config : NodeConfig := {}
  /-- `retryPolicy.maxAttempts`. -/
  maxAttempts : Option ℚ := none
  timeoutSeconds : ℚ := 0

structure WorkflowEdge where
  sourceNodeId : String
  sourcePort : Option String := none
  targetNodeId : String

def WorkflowEdge.port (e : WorkflowEdge) : String := e.sourcePort.getD "out"

structure WorkflowGraph where
  nodes : List WorkflowNode
  edges : List WorkflowEdge

def WorkflowGraph.incoming (g : WorkflowGraph) (id : String) : List WorkflowEdge :=
  g.edges.filter fun e => e.targetNodeId = id

/-- A graph that passed validation: no two nodes under one id. -/
structure PublishedGraph extends WorkflowGraph where
  nodup : (nodes.map (·.id)).Nodup

section Node

variable (rt : Runtime) (node : WorkflowNode)

def WorkflowNode.category : Option NodeCategory := node.definition.map (·.category)

def WorkflowNode.outputs : List String := (node.definition.map (·.outputs)).getD ["out"]

/-- The categories that suspend a run. -/
def WorkflowNode.pauses : Bool :=
  node.category ∈ [some .delay, some .wait, some .approval, some .subworkflow]

/-- `Math.max(1, Number(node.retryPolicy?.maxAttempts ?? 1))`. -/
def WorkflowNode.attemptLimit : ℚ := max 1 (node.maxAttempts.getD 1)

/-- The node wires up its `failure` output, so a failure is survived. -/
def WorkflowGraph.hasFailureEdge (g : WorkflowGraph) (id : String) : Bool :=
  g.edges.any fun e => e.port = "failure" && e.sourceNodeId = id

def readCondition (config : NodeConfig) : Option WorkflowCondition :=
  match config.field <|> config.condition.bind (·.field),
      config.operator <|> config.op <|> config.condition.bind (·.op) with
  | some field, some op =>
    if field = [] ∨ op = .other "" then none
    else
      let value := config.value.filter fun v => !v.isNullish
      some ⟨field, op, (value <|> config.condition.bind (·.value)).getD .undefined⟩
  | _, _ => none

/-- The first rule that holds; else the default port, or the first. -/
def chooseBranch (context : Value) : String :=
  let rule := node.config.branches.find? fun b =>
    b.condition.field ≠ [] && decide (b.condition.op ≠ .other "") &&
      evaluateCondition rt b.condition context
  match rule with
  | some b => b.port
  | none => if "default" ∈ node.outputs then "default" else node.outputs.head?.getD "default"

/-- The ports a node without a side effect fires. -/
def firedPorts (context : Value) : List String :=
  match node.category with
  | some .trigger => ["out"]
  | some .condition =>
    match readCondition node.config with
    | some cond => [if evaluateCondition rt cond context then "true" else "false"]
    | none => ["true"]
  | some .branch => [chooseBranch rt node context]
  | some .variable => ["out"]
  | some .ending => []
  | _ => if node.outputs = [] then ["out"] else node.outputs

/-- `vars[key] = value`; what is not an object takes no key. -/
def setKey (key : String) (value : Value) : Value → Value
  | .object fields => .object ((key, value) :: fields.filter fun field => field.1 ≠ key)
  | vars => vars

/-- The variables after the node. -/
def assign (context vars : Value) : Value :=
  if node.category = some .variable ∧ node.config.key ≠ "" then
    setKey node.config.key
      (renderValue rt (node.config.value.getD .undefined) context) vars
  else vars

end Node

end UltraTorrent.Workflows.GraphTypes

/-! The scheduling core of the executor: from the graph and the states of its nodes, what to do
next. -/
namespace UltraTorrent.Workflows.ExecutionPlanner

open GraphTypes

inductive NodeRunStatus where
  | pending
  | running
  | waiting
  | succeeded
  | failed
  | skipped
  deriving DecidableEq

structure NodeRunState where
  status : NodeRunStatus
  firedPorts : List String
  deriving DecidableEq

/-- A node that was never reached has no state. -/
abbrev States := String → Option NodeRunState

inductive EdgeState where
  | live
  | dead
  | pending
  deriving DecidableEq

/-- A node that is done fires the ports it recorded, and no others. -/
def edgeState (states : States) (e : WorkflowEdge) : EdgeState :=
  match states e.sourceNodeId with
  | none => .pending
  | some src =>
    match src.status with
    | .succeeded | .failed => if e.port ∈ src.firedPorts then .live else .dead
    | .skipped => .dead
    | .pending | .running | .waiting => .pending

/-- What the planner makes of one node. -/
inductive Verdict where
  | ready
  | dead
  | active
  | neither
  deriving DecidableEq

/-- What becomes of a pending node, by its incoming edges. A join needs every one of them. -/
def judge (node : WorkflowNode) (classes : List EdgeState) : Verdict :=
  if node.category = some .trigger then .ready
  else if classes = [] then .dead
  else if node.category = some .join then
    if .dead ∈ classes ∧ .pending ∉ classes then .dead
    else if ∀ c ∈ classes, c = .live then .ready else .neither
  else if .live ∈ classes then .ready
  else if .pending ∉ classes then .dead else .neither

def verdict (g : WorkflowGraph) (states : States) (node : WorkflowNode) : Verdict :=
  match ((states node.id).map (·.status)).getD .pending with
  | .running | .waiting => .active
  | .pending => judge node ((g.incoming node.id).map (edgeState states))
  | .succeeded | .failed | .skipped => .neither

structure PlannerView where
  ready : List WorkflowNode
  dead : List WorkflowNode
  quiescent : Bool

def planExecution (g : WorkflowGraph) (states : States) : PlannerView where
  ready := g.nodes.filter fun n => verdict g states n = .ready
  dead := g.nodes.filter fun n => verdict g states n = .dead
  quiescent := (g.nodes.filter fun n => verdict g states n = .active).isEmpty &&
    (g.nodes.filter fun n => verdict g states n = .ready).isEmpty

section Plan

variable {g : WorkflowGraph} {states : States} {node : WorkflowNode}

theorem mem_ready : node ∈ (planExecution g states).ready ↔
    node ∈ g.nodes ∧ verdict g states node = .ready := by
  simp [planExecution]

theorem mem_dead : node ∈ (planExecution g states).dead ↔
    node ∈ g.nodes ∧ verdict g states node = .dead := by
  simp [planExecution]

/-- Only a pending node is planned for. -/
theorem pending_of_verdict (h : verdict g states node = .ready ∨ verdict g states node = .dead) :
    ((states node.id).map (·.status)).getD .pending = .pending := by
  unfold verdict at h
  split at h
  · simp at h
  · simp at h
  · assumption
  · simp at h
  · simp at h
  · simp at h

theorem nodup_planned (hnodup : (g.nodes.map (·.id)).Nodup) :
    (((planExecution g states).dead ++ (planExecution g states).ready).map (·.id)).Nodup := by
  have hinj : ∀ m ∈ g.nodes, ∀ n ∈ g.nodes, m.id = n.id → m = n :=
    fun m hm n hn h => List.inj_on_of_nodup_map hnodup hm hn h
  rw [List.map_append, List.nodup_append]
  refine ⟨hnodup.sublist (List.filter_sublist.map _), hnodup.sublist (List.filter_sublist.map _),
    ?_⟩
  rintro a ha b hb rfl
  obtain ⟨m, hm, rfl⟩ := List.mem_map.1 ha
  obtain ⟨n, hn, hid⟩ := List.mem_map.1 hb
  obtain ⟨hmem, hdead⟩ := mem_dead.1 hm
  obtain ⟨hmem', hready⟩ := mem_ready.1 hn
  rw [hinj n hmem' m hmem hid, hdead] at hready
  cases hready

end Plan

end UltraTorrent.Workflows.ExecutionPlanner
