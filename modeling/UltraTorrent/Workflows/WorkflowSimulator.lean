import UltraTorrent.Library.TopologicalSort
import UltraTorrent.Workflows.ResolvedGraph

/-! The dry run of a workflow: the nodes in topological order, conditions evaluated, variables set
and action inputs rendered, and no action called. -/
namespace UltraTorrent.Workflows.WorkflowSimulator

open Library.EcmaScript Library.TopologicalSort Template GraphTypes NodeRegistry ResolvedGraph

inductive StepOutcome where
  | executed
  | evaluated
  | waited
  | requestedApproval
  | variableSet
  | ended
  | subworkflow
  deriving DecidableEq

structure SimulationStep where
  nodeId : String
  nodeType : String
  /-- `none` for a type that is not in the registry. -/
  category : Option NodeCategory
  outcome : StepOutcome
  chosenPorts : List String
  detail : Option String
  renderedConfig : Option (List (String × Value))
  warnings : List String

structure ActionInput where
  nodeId : String
  actionId : String
  input : List (String × Value)

structure SimulationResult where
  steps : List SimulationStep
  vars : Value
  wouldExecute : List ActionInput
  reachedNodeIds : List String
  truncated : Bool

/-- A trigger payload or variables that are left out are empty. -/
structure SimulationContext where
  trigger : List (String × Value) := []
  vars : List (String × Value) := []

/-! ### Topological order -/

section Order

variable (graph : StoredGraph)

def edgesInto (id : String) : List StoredEdge := graph.edges.filter fun e => e.targetNodeId = id

def edgesOutOf (id : String) : List StoredEdge := graph.edges.filter fun e => e.sourceNodeId = id

def targets (id : String) : List String := (edgesOutOf graph id).map (·.targetNodeId)

/-- A target that is no node of the graph is counted with one edge. -/
def indegree (id : String) : ℤ :=
  if id ∈ graph.nodes.map (·.id) then (edgesInto graph id).length else 1

/-- Every edge queues its target once at most. -/
def topoBudget : ℕ := graph.nodes.length + graph.edges.length + 1

/-- The nodes in Kahn's order, and after them those on cycles. -/
def topoOrder : List String :=
  let ids := graph.nodes.map (·.id)
  let order := (drain (targets graph) (topoBudget graph) (indegree graph)
    (ids.filter fun id => indegree graph id = 0) []).getD []
  order ++ ids.filter fun id => id ∉ order

end Order

/-! ### The walk -/

section Walk

variable (rt : Runtime) (registry : NodeDefinitionLookup) (graph : StoredGraph)
  (trigger : List (String × Value))

/-- What a node comes to. -/
structure Effect where
  outcome : StepOutcome
  fired : List String
  detail : Option String := none
  renderedConfig : Option (List (String × Value)) := none
  warnings : List String := []

/-- The payload's own keys come last, and so hide the other two. -/
def evalContext (vars : Value) : Value :=
  .object (trigger ++ [("trigger", .object trigger), ("vars", vars)])

/-- `JSON.stringify` in a template. -/
def jsonText : Value → String
  | .undefined => "undefined"
  | v => rt.jsonStringify v

def conditionHolds (config : NodeConfig) (context : Value) : Bool :=
  (readCondition config).all fun cond => ConditionEval.evaluateCondition rt cond context

def effect (node : StoredNode) (context : Value) : Effect :=
  let d := registry node.type
  let resolved := resolve rt registry node
  let config := resolved.config
  match categoryOf registry node with
  | some .trigger => { outcome := .executed, fired := ["out"] }
  | some .condition =>
    let result := if conditionHolds rt config context then "true" else "false"
    { outcome := .evaluated, fired := [result], detail := some ("condition → " ++ result) }
  | some .branch =>
    let chosen := chooseBranch rt resolved context
    { outcome := .evaluated, fired := [chosen], detail := some ("branch → " ++ chosen) }
  | some .action =>
    { outcome := .executed
      fired := ["out"]
      detail := some (if d.any (·.destructive) then "destructive action (not run)"
        else "action (not run)")
      renderedConfig := some (renderConfig rt node.config context) }
  | some .delay =>
    let duration := node.setting "duration"
    { outcome := .waited
      fired := ["out"]
      detail := some ("delay " ++
        rt.stringOfNumber (if duration.isNullish then .fin 0 else rt.number duration) ++
        "s (skipped in simulation)") }
  | some .wait =>
    { outcome := .waited
      fired := ["completed"]
      detail := some ("wait for \"" ++ textOf rt (node.setting "eventType") ++
        "\" (assumed received)") }
  | some .approval =>
    { outcome := .requestedApproval
      fired := ["approved"]
      detail := some "approval assumed granted"
      warnings := ["Approval is auto-approved in simulation; a real run pauses here."] }
  | some .variable =>
    { outcome := .variableSet
      fired := ["out"]
      detail := some (config.key ++ " = " ++
        jsonText rt (renderValue rt (config.value.getD .undefined) context)) }
  | some .subworkflow =>
    let workflowId := node.setting "workflowId"
    { outcome := .subworkflow
      fired := ["out"]
      detail := some ("references workflow " ++
        (if workflowId.isNullish then "?" else rt.string workflowId) ++ " (not expanded)") }
  | some .ending => { outcome := .ended, fired := [] }
  | _ => { outcome := .executed, fired := resolved.outputs }

/-- What the walk holds. -/
structure Simulation where
  vars : Value
  activePorts : String → Option (List String)
  reached : List String
  steps : List SimulationStep
  wouldExecute : List ActionInput

/-- A join needs all of its edges followed, anything else one. -/
def isReached (sim : Simulation) (node : StoredNode) : Bool :=
  let category := categoryOf registry node
  if category = some .trigger then true
  else
    let ins := edgesInto graph node.id
    let followed := ins.filter fun e =>
      (sim.activePorts e.sourceNodeId).any (fun ports => e.sourcePort.getD "out" ∈ ports) &&
        e.sourceNodeId ∈ sim.reached
    if ins = [] then false
    else if category = some .join then followed.length = ins.length
    else 0 < followed.length

/-- Only the ports that exist on the node are kept. -/
def validFired (node : StoredNode) (fired : List String) : List String :=
  fired.eraseDups.filter fun p =>
    p ∈ (resolve rt registry node).outputs || (registry node.type).any (·.dynamicOutputs)

def actionInput (node : StoredNode) (context : Value) : Option ActionInput :=
  match categoryOf registry node, (registry node.type).bind (·.actionId) with
  | some .action, some actionId =>
    if actionId = "" then none else some ⟨node.id, actionId, renderConfig rt node.config context⟩
  | _, _ => none

def simulateNode (sim : Simulation) (node : StoredNode) : Simulation :=
  let context := evalContext trigger sim.vars
  let e := effect rt registry node context
  let ports := validFired rt registry node e.fired
  { vars := assign rt (resolve rt registry node) context sim.vars
    activePorts := Function.update sim.activePorts node.id (some ports)
    reached := sim.reached ++ [node.id]
    steps := sim.steps ++
      [{ nodeId := node.id
         nodeType := node.type
         category := categoryOf registry node
         outcome := e.outcome
         chosenPorts := ports
         detail := e.detail
         renderedConfig := e.renderedConfig
         warnings := e.warnings }]
    wouldExecute := sim.wouldExecute ++ (actionInput rt registry node context).toList }

def walk : List String → Simulation → Simulation × Bool
  | [], sim => (sim, false)
  | id :: order, sim =>
    if graph.nodes.length + 1 < sim.steps.length then (sim, true)
    else
      match mapGet (graph.nodes.map fun node => (node.id, node)) id with
      | none => walk order sim
      | some node =>
        if isReached registry graph sim node then
          walk order (simulateNode rt registry trigger sim node)
        else walk order sim

end Walk

def simulateWorkflow (rt : Runtime) (registry : NodeDefinitionLookup) (graph : StoredGraph)
    (context : SimulationContext) : SimulationResult :=
  let start : Simulation :=
    { vars := .object context.vars
      activePorts := fun _ => none
      reached := []
      steps := []
      wouldExecute := [] }
  let (sim, truncated) := walk rt registry graph context.trigger (topoOrder graph) start
  { steps := sim.steps
    vars := sim.vars
    wouldExecute := sim.wouldExecute
    reachedNodeIds := sim.reached
    truncated := truncated }

end UltraTorrent.Workflows.WorkflowSimulator
