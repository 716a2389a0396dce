import UltraTorrent.Workflows.WorkflowExecution
import UltraTorrent.Library.DepthFirst

/-! The graph as a version stores it, and the catalogue of the node types it may name. -/
namespace UltraTorrent.Workflows.NodeRegistry

open Library.EcmaScript GraphTypes WorkflowExecution

/-! ### Stored graphs -/

structure StoredNode where
  id : String
  type : String
  config : List (String × Value) := []
  maxAttempts : Option ℚ := none
  timeoutSeconds : ℚ := 0

structure StoredEdge where
  id : String
  sourceNodeId : String
  sourcePort : Option String := none
  targetNodeId : String

structure StoredGraph where
  schemaVersion : ℚ
  nodes : List StoredNode
  edges : List StoredEdge

/-- `node.config?.[key]`. -/
def StoredNode.setting (node : StoredNode) (key : String) : Value :=
  (node.config.lookup key).getD .undefined

/-! ### Node types -/

/-- An entry of the catalogue. As many inputs as its ports say: none, one, or with `-1` any. -/
structure NodeDefinition extends WorkflowNodeDefinition where
  actionId := none
  type : String
  inputs : ℤ := 1
  dynamicOutputs : Bool := false
  requiredPermission : Option String := none
  requiredModules : List String := []
  requiredConfig : List String := []
  destructive : Bool := false

/-- `NodeDefinitionLookup`. -/
abbrev NodeDefinitionLookup := String → Option NodeDefinition

def builtinTriggers : List NodeDefinition :=
  [{ type := "trigger.manual", category := .trigger, outputs := ["out"], inputs := 0 },
   { type := "trigger.scheduled", category := .trigger, outputs := ["out"], inputs := 0,
     requiredConfig := ["schedule", "executionIdentity"] },
   { type := "trigger.webhook", category := .trigger, outputs := ["out"], inputs := 0 }]

def controls : List NodeDefinition :=
  [{ type := "control.condition", category := .condition, outputs := ["true", "false"] },
   { type := "control.branch", category := .branch, outputs := ["default"], dynamicOutputs := true },
   { type := "control.delay", category := .delay, outputs := ["out"], requiredConfig := ["duration"] },
   { type := "control.wait", category := .wait, outputs := ["completed", "timeout"],
     requiredConfig := ["eventType"] },
   { type := "control.parallel", category := .parallel, outputs := ["branch"],
     dynamicOutputs := true },
   { type := "control.join", category := .join, outputs := ["out"], inputs := -1 },
   { type := "control.transform", category := .transform, outputs := ["out"] },
   { type := "control.variable", category := .variable, outputs := ["out"],
     requiredConfig := ["key"] },
   { type := "control.approval", category := .approval,
     outputs := ["approved", "rejected", "timeout"] },
   { type := "control.subworkflow", category := .subworkflow, outputs := ["out", "failure"],
     requiredConfig := ["workflowId"] },
   { type := "control.end", category := .ending, outputs := [] }]

/-- `AUTOMATION_TRIGGERS`, each with its category. -/
def automationTriggers : List (String × String) :=
  [("torrent.completed", "torrent"), ("ratio.reached", "torrent"),
   ("torrent_scheduler.seed_target_reached", "torrent"),
   ("torrent_scheduler.action_failed", "torrent"), ("torrent_scheduler.health_changed", "torrent"),
   ("torrent_scheduler.mode_changed", "torrent"), ("media.detected", "media"),
   ("media.matched", "media"), ("media.unmatched", "media"), ("media.missing_artwork", "media"),
   ("media.missing_subtitles", "media"), ("media.rename_completed", "media"),
   ("media.server_refresh_failed", "media"), ("media.duplicate_scan_completed", "media"),
   ("media.duplicate_detected", "media"), ("media.duplicate_requires_review", "media"),
   ("media.duplicate_savings_threshold", "media"), ("media.duplicate_cleanup_completed", "media"),
   ("media.duplicate_cleanup_failed", "media"), ("rss.rule.created_for_inactive_show", "rss"),
   ("rss.show_status.changed", "rss"), ("rss.show.became_active", "rss"),
   ("rss.show.ended", "rss"), ("rss.show.canceled", "rss"), ("subtitle.missing", "subtitle"),
   ("subtitle.downloaded", "subtitle"), ("subtitle.synchronized", "subtitle"),
   ("subtitle.validation_failed", "subtitle"), ("job.failed", "jobs"), ("job.stalled", "jobs"),
   ("job.completed_with_warnings", "jobs"), ("job.retry_exhausted", "jobs")]

/-- `AUTOMATION_ACTIONS`, each with its category. -/
def automationActions : List (String × String) :=
  [("move", "torrent"), ("pause", "torrent"), ("stop", "torrent"), ("delete", "torrent"),
   ("delete_with_data", "torrent"), ("webhook", "torrent"), ("scheduler_exclude", "torrent"),
   ("scheduler_protect_from_pause", "torrent"), ("scheduler_protect_from_removal", "torrent"),
   ("scheduler_clear_overrides", "torrent"), ("rename_for_media", "media"),
   ("media_scan_library", "media"), ("media_match", "media"), ("media_fetch_metadata", "media"),
   ("media_fetch_artwork", "media"), ("media_generate_nfo", "media"), ("media_rename", "media"),
   ("media_move", "media"), ("media_server_refresh", "media"),
   ("media_run_duplicate_scan", "media"), ("media_ignore_duplicate_group", "media"),
   ("media_duplicate_report", "media"), ("refresh_rss_show_status", "rss"),
   ("disable_rss_rule", "rss"), ("convert_rule_to_backfill", "rss"),
   ("subtitle_scan_missing", "subtitle"), ("subtitle_download", "subtitle")]

def moduleForCategory : String → Option String
  | "media" => some "media_manager"
  | "subtitle" => some "subtitle_intelligence"
  | "rss" => some "rss"
  | "torrent" => some "torrents"
  | "jobs" => some "jobs_center"
  | "notification" => some "notification_center"
  | _ => none

def destructiveActions : List String :=
  ["delete", "delete_with_data", "move", "media_move", "media_rename", "rename_for_media"]

def triggerDefinition (trigger : String × String) : NodeDefinition where
  type := "trigger." ++ trigger.1
  category := .trigger
  outputs := ["out"]
  inputs := 0
  requiredModules := (moduleForCategory trigger.2).toList

def actionDefinition (action : String × String) : NodeDefinition where
  type := "action." ++ action.1
  category := .action
  outputs := ["out", "failure"]
  actionId := some action.1
  requiredPermission := actionPermission.lookup action.1
  requiredModules := (moduleForCategory action.2).toList
  destructive := action.1 ∈ destructiveActions

def definitions : List NodeDefinition :=
  builtinTriggers ++ controls ++ automationTriggers.map triggerDefinition ++
    automationActions.map actionDefinition

/-- `WorkflowNodeRegistry.get`: of two entries under one type the later one stays. -/
def nodeRegistry : NodeDefinitionLookup := mapGet (definitions.map fun d => (d.type, d))

end UltraTorrent.Workflows.NodeRegistry

/-! Strict validation of a stored graph against the node types: what keeps a graph from being
published. Warnings, which keep nothing from being published, are left out. -/
namespace UltraTorrent.Workflows.WorkflowValidator

open Library.EcmaScript Library.DepthFirst GraphTypes NodeRegistry

/-! ### Limits -/

def schemaVersion : ℚ := 1

def maxNodes : ℕ := 200

def maxEdges : ℕ := 500

def maxParallelBranches : ℕ := 20

/-- Thirty days. -/
def maxDelaySeconds : ℚ := 30 * 24 * 3600

def maxWaitTimeoutSeconds : ℚ := 30 * 24 * 3600

structure ValidationError where
  code : String
  message : String
  nodeId : Option String := none
  edgeId : Option String := none
  deriving DecidableEq

/-- An option that is left out is not checked. -/
structure ValidateOptions where
  grantedPermissions : Option (List String) := none
  enabledModules : Option (List String) := none
  selfWorkflowId : Option String := none

/-- Whether a value counts as true. -/
def isTruthy : Value → Bool
  | .undefined | .null => false
  | .bool b => b
  | .number n => n ≠ .nan && n ≠ .fin 0
  | .string s => s ≠ ""
  | _ => true

section Validate

variable (rt : Runtime) (registry : NodeDefinitionLookup) (options : ValidateOptions)
  (graph : StoredGraph)

/-! ### Nodes -/

def isMissing : Value → Bool
  | .undefined | .null => true
  | .string s => s = ""
  | _ => false

def validateNodeConfig (node : StoredNode) (d : NodeDefinition) : List ValidationError :=
  (d.requiredConfig.filter fun key => isMissing (node.setting key)).map fun key =>
    { code := "node.missing_config"
      message := "Node \"" ++ node.id ++ "\" (" ++ d.type ++ ") is missing required config \"" ++
        key ++ "\"."
      nodeId := some node.id }

def validatePermission (node : StoredNode) (d : NodeDefinition) : List ValidationError :=
  match options.grantedPermissions, d.requiredPermission with
  | some granted, some required =>
    if required ∈ granted then []
    else
      [{ code := "node.permission_denied"
         message := "Node requires permission \"" ++ required ++
          "\" that the workflow identity lacks."
         nodeId := some node.id }]
  | _, _ => []

def validateModules (node : StoredNode) (d : NodeDefinition) : List ValidationError :=
  match options.enabledModules with
  | some enabled => (d.requiredModules.filter fun m => m ∉ enabled).map fun m =>
      { code := "node.module_disabled"
        message := "Node requires module \"" ++ m ++ "\" which is not enabled."
        nodeId := some node.id }
  | none => []

/-- A sub-workflow node that invokes its own workflow. -/
def validateRecursion (node : StoredNode) (d : NodeDefinition) : List ValidationError :=
  match options.selfWorkflowId with
  | some self =>
    if d.category = .subworkflow ∧ self ≠ "" ∧ (node.setting "workflowId").strictEq (.string self) then
      [{ code := "node.recursive_subworkflow"
         message := "A subworkflow node cannot invoke its own workflow."
         nodeId := some node.id }]
    else []
  | none => []

def validateNode (node : StoredNode) : List ValidationError :=
  match registry node.type with
  | none =>
    [{ code := "node.unknown_type"
       message := "Unknown node type \"" ++ node.type ++ "\"."
       nodeId := some node.id }]
  | some d => validateNodeConfig node d ++ validatePermission options node d ++
      validateModules options node d ++ validateRecursion options node d

/-- Of several nodes under one id the first is looked at. -/
def validateNodes : List String → List StoredNode → List ValidationError
  | _, [] => []
  | seen, node :: nodes =>
    if node.id ∈ seen then
      { code := "node.duplicate_id"
        message := "Duplicate node id \"" ++ node.id ++ "\"."
        nodeId := some node.id } :: validateNodes seen nodes
    else validateNode registry options node ++ validateNodes (node.id :: seen) nodes

/-- `byId.get(id)`. -/
def byId (id : String) : Option StoredNode := graph.nodes.find? fun node => node.id = id

/-- `byId.values()`. -/
def distinctNodes : List String → List StoredNode → List StoredNode
  | _, [] => []
  | seen, node :: nodes =>
    if node.id ∈ seen then distinctNodes seen nodes
    else node :: distinctNodes (node.id :: seen) nodes

/-! ### Edges -/

def validateSourcePort (edge : StoredEdge) (node : StoredNode) : List ValidationError :=
  match registry node.type with
  | none => []
  | some d =>
    match d.outputs with
    | [] =>
      [{ code := "edge.no_source_port"
         message := "Node \"" ++ node.id ++ "\" (" ++ d.type ++ ") has no output ports."
         edgeId := some edge.id }]
    | first :: _ =>
      let port := edge.sourcePort.getD first
      if d.dynamicOutputs ∨ port ∈ d.outputs then []
      else
        [{ code := "edge.invalid_source_port"
           message := "Edge \"" ++ edge.id ++ "\" uses output port \"" ++ port ++
            "\" not defined on node \"" ++ node.id ++ "\"."
           edgeId := some edge.id }]

def validateTargetPort (edge : StoredEdge) (node : StoredNode) : List ValidationError :=
  match registry node.type with
  | none => []
  | some d =>
    if d.inputs = 0 then
      [{ code := "edge.no_target_port"
         message := "Node \"" ++ node.id ++ "\" (" ++ d.type ++ ") accepts no input."
         edgeId := some edge.id }]
    else []

def unknownSource (edge : StoredEdge) : ValidationError where
  code := "edge.unknown_source"
  message := "Edge \"" ++ edge.id ++ "\" references unknown source node \"" ++ edge.sourceNodeId ++
    "\"."
  edgeId := some edge.id

def unknownTarget (edge : StoredEdge) : ValidationError where
  code := "edge.unknown_target"
  message := "Edge \"" ++ edge.id ++ "\" references unknown target node \"" ++ edge.targetNodeId ++
    "\"."
  edgeId := some edge.id

def validateEdge (edge : StoredEdge) : List ValidationError :=
  match byId graph edge.sourceNodeId, byId graph edge.targetNodeId with
  | some src, some dst =>
    (if edge.sourceNodeId = edge.targetNodeId then
      [{ code := "edge.self_loop"
         message := "Edge \"" ++ edge.id ++ "\" connects a node to itself."
         edgeId := some edge.id }]
     else []) ++ validateSourcePort registry edge src ++ validateTargetPort registry edge dst
  | src, dst => (if src.isNone then [unknownSource edge] else []) ++
      if dst.isNone then [unknownTarget edge] else []

def validateEdges : List String → List StoredEdge → List ValidationError
  | _, [] => []
  | seen, edge :: edges =>
    (if edge.id ∈ seen then
      [{ code := "edge.duplicate_id"
         message := "Duplicate edge id \"" ++ edge.id ++ "\"."
         edgeId := some edge.id }]
     else []) ++ validateEdge registry graph edge ++ validateEdges (edge.id :: seen) edges

def knownEdges : List StoredEdge := graph.edges.filter fun edge =>
  (byId graph edge.sourceNodeId).isSome && (byId graph edge.targetNodeId).isSome

def outgoing (id : String) : List StoredEdge :=
  (knownEdges graph).filter fun edge => edge.sourceNodeId = id

def incoming (id : String) : List StoredEdge :=
  (knownEdges graph).filter fun edge => edge.targetNodeId = id

/-! ### Connectivity -/

def validateInputs (node : StoredNode) (d : NodeDefinition) (ins : List StoredEdge) :
    List ValidationError :=
  (if d.category = .trigger ∧ ins ≠ [] then
    [{ code := "node.trigger_has_input"
       message := "Trigger nodes cannot have incoming edges."
       nodeId := some node.id }]
   else []) ++
  (if d.inputs = 0 ∧ ins ≠ [] ∧ d.category ≠ .trigger then
    [{ code := "node.unexpected_input"
       message := "Node \"" ++ node.id ++ "\" does not accept incoming edges."
       nodeId := some node.id }]
   else []) ++
  (if d.inputs = 1 ∧ 1 < ins.length ∧ d.category ≠ .join then
    [{ code := "node.multiple_inputs"
       message := "Node \"" ++ node.id ++ "\" accepts a single incoming edge but has " ++
        toString ins.length ++ "."
       nodeId := some node.id }]
   else [])

/-- A wait must not be endless, nor too long. -/
def validateTimeout (node : StoredNode) (d : NodeDefinition) (outs : List StoredEdge) :
    List ValidationError :=
  if (d.category = .wait ∨ d.category = .approval) ∧ "timeout" ∈ d.outputs then
    let timeout := rt.number (node.setting "timeoutSeconds")
    (if !outs.any (fun edge => edge.sourcePort = some "timeout") && !(Numeric.fin 0).lt timeout then
      [{ code := "node.wait_without_timeout"
         message := "Node \"" ++ node.id ++
          "\" waits indefinitely: connect its \"timeout\" output or set a timeoutSeconds."
         nodeId := some node.id }]
     else []) ++
    (if (Numeric.fin maxWaitTimeoutSeconds).lt timeout then
      [{ code := "node.wait_timeout_too_long"
         message := "Wait timeout exceeds the " ++ rt.stringOfNumber (.fin maxWaitTimeoutSeconds) ++
          "s maximum."
         nodeId := some node.id }]
     else [])
  else []

def validateDelay (node : StoredNode) (d : NodeDefinition) : List ValidationError :=
  if d.category = .delay then
    let duration := rt.number (node.setting "duration")
    if !(Numeric.fin 0).lt duration then
      [{ code := "node.delay_unbounded"
         message := "Delay node \"" ++ node.id ++ "\" needs a positive duration (seconds)."
         nodeId := some node.id }]
    else if (Numeric.fin maxDelaySeconds).lt duration then
      [{ code := "node.delay_too_long"
         message := "Delay of " ++ rt.stringOfNumber duration ++ "s exceeds the " ++
          rt.stringOfNumber (.fin maxDelaySeconds) ++ "s maximum."
         nodeId := some node.id }]
    else []
  else []

def validateOutputs (node : StoredNode) (d : NodeDefinition) (outs : List StoredEdge) :
    List ValidationError :=
  (if d.category = .ending ∧ outs ≠ [] then
    [{ code := "node.end_has_output"
       message := "End nodes cannot have outgoing edges."
       nodeId := some node.id }]
   else []) ++ validateTimeout rt node d outs ++ validateDelay rt node d ++
  (if d.category = .parallel ∧ maxParallelBranches < outs.length then
    [{ code := "node.parallel_too_wide"
       message := "Parallel node fans out to " ++ toString outs.length ++
        " branches; the maximum is " ++ toString maxParallelBranches ++ "."
       nodeId := some node.id }]
   else [])

/-- A destructive node carries its safeguard, a scheduled trigger its identity. -/
def validateSafeguards (node : StoredNode) (d : NodeDefinition) : List ValidationError :=
  (if d.destructive ∧ (node.setting "acknowledgeDestructive").strictEq (.bool true) = false then
    [{ code := "node.destructive_unguarded"
       message := "Destructive node \"" ++ node.id ++ "\" (" ++ d.type ++
        ") must set config.acknowledgeDestructive = true."
       nodeId := some node.id }]
   else []) ++
  (if node.type = "trigger.scheduled" ∧ isTruthy (node.setting "executionIdentity") = false then
    [{ code := "node.scheduled_without_identity"
       message := "A scheduled trigger must declare an executionIdentity."
       nodeId := some node.id }]
   else [])

def validateConnectivity (node : StoredNode) : List ValidationError :=
  match registry node.type with
  | none => []
  | some d => validateInputs node d (incoming graph node.id) ++
      validateOutputs rt node d (outgoing graph node.id) ++ validateSafeguards node d

/-! ### Cycles -/

def successors (id : String) : List String := (outgoing graph id).map (·.targetNodeId)

/-- A step of the search for each node that turns gray, and for each edge of it. -/
def cycleBudget : ℕ :=
  ((distinctNodes [] graph.nodes).map fun node => cost (successors graph) node.id).sum + 1

def hasCycle : Bool :=
  (search (successors graph) (cycleBudget graph) (fun _ => .white)
    ((distinctNodes [] graph.nodes).map (·.id))).getD true

end Validate

section Distinct

variable {graph : StoredGraph} {id : String} {seen : List String} {nodes : List StoredNode}

theorem mem_distinctNodes : id ∈ (distinctNodes seen nodes).map (·.id) ↔
    id ∉ seen ∧ id ∈ nodes.map (·.id) := by
  induction nodes generalizing seen with
  | nil => simp [distinctNodes]
  | cons node nodes ih =>
    rw [distinctNodes]
    split_ifs with hseen
    · rw [ih, List.map_cons, List.mem_cons]
      refine and_congr_right fun hnot => ⟨.inr, fun hmem => hmem.resolve_left fun hid => ?_⟩
      exact hnot (hid ▸ hseen)
    · rw [List.map_cons, List.mem_cons, ih, List.map_cons, List.mem_cons, List.mem_cons, not_or]
      by_cases hid : id = node.id
      · simp [hid, hseen]
      · simp [hid]

theorem nodup_distinctNodes : ((distinctNodes seen nodes).map (·.id)).Nodup := by
  induction nodes generalizing seen with
  | nil => exact List.nodup_nil
  | cons node nodes ih =>
    rw [distinctNodes]
    split_ifs
    · exact ih
    · refine List.nodup_cons.2 ⟨fun hmem => ?_, ih⟩
      exact (mem_distinctNodes.1 hmem).1 List.mem_cons_self

theorem byId_isSome : (byId graph id).isSome = true ↔ id ∈ graph.nodes.map (·.id) := by
  simp [byId]

theorem mem_outgoing {edge : StoredEdge} : edge ∈ outgoing graph id ↔ edge ∈ graph.edges ∧
    edge.sourceNodeId = id ∧ id ∈ graph.nodes.map (·.id) ∧
      edge.targetNodeId ∈ graph.nodes.map (·.id) := by
  simp only [outgoing, knownEdges, List.mem_filter, Bool.and_eq_true, byId_isSome, decide_eq_true_eq]
  constructor
  · rintro ⟨⟨hedge, hsource, htarget⟩, rfl⟩
    exact ⟨hedge, rfl, hsource, htarget⟩
  · rintro ⟨hedge, rfl, hsource, htarget⟩
    exact ⟨⟨hedge, hsource, htarget⟩, rfl⟩

/-- The search for a cycle has budget enough. -/
theorem search_finishes : (search (successors graph) (cycleBudget graph) (fun _ => .white)
    ((distinctNodes [] graph.nodes).map (·.id))).isSome = true := by
  have hmem : ∀ {id : String}, id ∈ ((distinctNodes [] graph.nodes).map (·.id)).toFinset ↔
      id ∈ graph.nodes.map (·.id) := by
    intro id
    rw [List.mem_toFinset, mem_distinctNodes]
    exact ⟨And.right, fun h => ⟨List.not_mem_nil, h⟩⟩
  refine search_isSome ((distinctNodes [] graph.nodes).map (·.id)).toFinset
    (fun v _ w hw => ?_) (fun v hv => List.mem_toFinset.2 hv) ?_
  · obtain ⟨edge, hedge, rfl⟩ := List.mem_map.1 hw
    exact hmem.2 (mem_outgoing.1 hedge).2.2.2
  · simp only [whiteCost, if_true, cycleBudget]
    rw [List.sum_toFinset _ nodup_distinctNodes, List.map_map]
    exact Nat.lt_succ_self _

/-- Some edge leads from one known node to another. -/
def Joins (graph : StoredGraph) (source target : String) : Prop :=
  ∃ edge ∈ knownEdges graph, edge.sourceNodeId = source ∧ edge.targetNodeId = target

theorem leads_successors : Leads (successors graph) = Joins graph := by
  funext source target
  apply propext
  simp only [Leads, Joins, successors, outgoing, List.mem_map, List.mem_filter, decide_eq_true_eq, and_assoc]

/-- The search for a cycle comes to an end, and finds one just when the edges make one. -/
theorem hasCycle_iff (graph : StoredGraph) :
    search (successors graph) (cycleBudget graph) (fun _ => .white) ((distinctNodes [] graph.nodes).map (·.id)) =
        some (hasCycle graph) ∧
      (hasCycle graph = true ↔ ∃ id, Relation.TransGen (Joins graph) id id) := by
  obtain ⟨met, hmet⟩ : ∃ met, search (successors graph) (cycleBudget graph) (fun _ => .white)
      ((distinctNodes [] graph.nodes).map (·.id)) = some met := Option.isSome_iff_exists.1 search_finishes
  have hcycle : hasCycle graph = met := by rw [hasCycle, hmet, Option.getD_some]
  have hsources : ∀ source target, Leads (successors graph) source target →
      source ∈ (distinctNodes [] graph.nodes).map (·.id) := by
    intro source target hlead
    obtain ⟨edge, hedge, -⟩ := List.mem_map.1 hlead
    exact mem_distinctNodes.2 ⟨List.not_mem_nil, (mem_outgoing.1 hedge).2.2.1⟩
  rw [hcycle, ← leads_successors]
  exact ⟨hmet, search_eq_true_iff hsources hmet⟩

end Distinct

/-! ### All of it -/

section Graph

variable (rt : Runtime) (registry : NodeDefinitionLookup) (options : ValidateOptions)
  (graph : StoredGraph)

def validateWorkflowGraph : List ValidationError :=
  let version : List ValidationError :=
    if graph.schemaVersion = schemaVersion then []
    else
      [{ code := "graph.schema_version"
         message := "Unsupported graph schema version " ++
          rt.stringOfNumber (.fin graph.schemaVersion) ++ "; expected " ++
          rt.stringOfNumber (.fin schemaVersion) ++ "." }]
  if graph.nodes = [] then
    version ++ [{ code := "graph.empty", message := "A workflow must contain at least one node." }]
  else
    version ++
    (if maxNodes < graph.nodes.length then
      [{ code := "graph.too_many_nodes"
         message := "Workflow has " ++ toString graph.nodes.length ++ " nodes; the maximum is " ++
          toString maxNodes ++ "." }]
     else []) ++
    (if maxEdges < graph.edges.length then
      [{ code := "graph.too_many_edges"
         message := "Workflow has " ++ toString graph.edges.length ++ " edges; the maximum is " ++
          toString maxEdges ++ "." }]
     else []) ++
    validateNodes registry options [] graph.nodes ++
    (if graph.nodes.any fun node => (registry node.type).map (·.category) = some .trigger then []
     else
      [{ code := "graph.no_trigger"
         message := "A workflow must have at least one trigger node." }]) ++
    validateEdges registry graph [] graph.edges ++
    (distinctNodes [] graph.nodes).flatMap (validateConnectivity rt registry graph) ++
    (if hasCycle graph then
      [{ code := "graph.cycle"
         message := "The workflow graph contains a cycle; workflows must be acyclic." }]
     else [])

/-- `validateWorkflowGraph(...).valid`. -/
def isValid : Bool := (validateWorkflowGraph rt registry options graph).isEmpty

end Graph

end UltraTorrent.Workflows.WorkflowValidator
