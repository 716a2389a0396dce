import UltraTorrent.Workflows.WorkflowValidator

/-! A stored graph as both interpreters read it, each node resolved in the registry, and what they
can rely on when it was found valid. -/
namespace UltraTorrent.Workflows.ResolvedGraph

open Library.EcmaScript Library.DepthFirst ConditionEval Template GraphTypes ExecutionPlanner
  NodeRegistry WorkflowValidator

/-! ### Configurations -/

/-- A path as a setting gives it; one that is falsy is an empty path. -/
def readPath : Value → Option (List String)
  | .undefined | .null => none
  | .string s => some (if s = "" then [] else splitPath s.toList)
  | _ => some []

def operatorOf : String → ConditionOperator
  | "eq" => .eq
  | "neq" => .neq
  | "gt" => .gt
  | "gte" => .gte
  | "lt" => .lt
  | "lte" => .lte
  | "contains" => .contains
  | "matches" => .matches
  | text => .other text

/-- What is not a text is no operator either. -/
def readOperator : Value → Option ConditionOperator
  | .undefined | .null => none
  | .string s => some (operatorOf s)
  | v => some (.other (if isTruthy v then "unknown" else ""))

def readNested (v : Value) : Option NestedCondition :=
  if v.isNullish then none
  else some ⟨readPath (v.get "field"), readOperator (v.get "op"), some (v.get "value")⟩

def readText : Value → Option String
  | .string s => some s
  | _ => none

section Read

variable (rt : Runtime)

/-- `String(v ?? '')`. -/
def textOf (v : Value) : String := if v.isNullish then "" else rt.string v

def readRule (rule : Value) : BranchRule where
  port := textOf rt (rule.get "port")
  condition := ⟨(readPath (rule.get "field")).getD [],
    (readOperator (rule.get "operator")).getD (.other ""), rule.get "value"⟩

def readRules : Value → List BranchRule
  | .array rules => rules.map (readRule rt)
  | _ => []

def readConfig (config : List (String × Value)) : NodeConfig :=
  let setting (key : String) : Value := (config.lookup key).getD .undefined
  { field := readPath (setting "field")
    operator := readOperator (setting "operator")
    op := readOperator (setting "op")
    value := config.lookup "value"
    condition := readNested (setting "condition")
    branches := readRules rt (setting "branches")
    key := textOf rt (setting "key")
    duration := match rt.number (setting "duration") with
      | .fin q => q
      | _ => 0
    eventType := readText (setting "eventType")
    requiredPermission := readText (setting "requiredPermission")
    workflowId := textOf rt (setting "workflowId") }

end Read

/-! ### Resolution -/

section Resolve

variable (rt : Runtime) (registry : NodeDefinitionLookup)

def resolve (node : StoredNode) : WorkflowNode where
  id := node.id
  definition := (registry node.type).map (·.toWorkflowNodeDefinition)
  config := readConfig rt node.config
  maxAttempts := node.maxAttempts
  timeoutSeconds := node.timeoutSeconds

/-- `registry.get(node.type)?.category`. -/
def categoryOf (node : StoredNode) : Option NodeCategory :=
  (registry node.type).map fun d => d.category

@[simp] theorem category_resolve {node : StoredNode} :
    (resolve rt registry node).category = categoryOf registry node := by
  rw [WorkflowNode.category, resolve, Option.map_map]
  rfl

def resolveEdge (edge : StoredEdge) : WorkflowEdge where
  sourceNodeId := edge.sourceNodeId
  sourcePort := edge.sourcePort
  targetNodeId := edge.targetNodeId

def resolveGraph (graph : StoredGraph) : WorkflowGraph where
  nodes := graph.nodes.map (resolve rt registry)
  edges := graph.edges.map resolveEdge

end Resolve

/-! ### Valid graphs -/

/-- What a valid graph is known to be: its nodes have an id each and a type, its edges join nodes,
and it has no cycle. -/
structure WellFormed (registry : NodeDefinitionLookup) (graph : StoredGraph) : Prop where
  nodup : (graph.nodes.map (·.id)).Nodup
  known : ∀ node ∈ graph.nodes, (registry node.type).isSome = true
  linked : ∀ edge ∈ graph.edges, edge.sourceNodeId ∈ graph.nodes.map (·.id) ∧
    edge.targetNodeId ∈ graph.nodes.map (·.id)
  ranked : ∃ rank : String → ℕ, ∀ edge ∈ graph.edges, rank edge.targetNodeId < rank edge.sourceNodeId

section Valid

variable {rt : Runtime} {registry : NodeDefinitionLookup} {options : ValidateOptions}
  {graph : StoredGraph} {seen : List String}

theorem of_validateNodes {nodes : List StoredNode} (h : validateNodes registry options seen nodes = []) :
    (nodes.map (·.id)).Nodup ∧ ∀ node ∈ nodes, node.id ∉ seen ∧ (registry node.type).isSome = true := by
  induction nodes generalizing seen with
  | nil => exact ⟨List.nodup_nil, fun node hnode => absurd hnode List.not_mem_nil⟩
  | cons node nodes ih =>
    rw [validateNodes] at h
    split_ifs at h with hseen
    obtain ⟨hnode, hrest⟩ := List.append_eq_nil_iff.1 h
    obtain ⟨hnodup, hall⟩ := ih hrest
    refine ⟨List.nodup_cons.2 ⟨fun hmem => ?_, hnodup⟩, fun other hother => ?_⟩
    · obtain ⟨other, hother, hid⟩ := List.mem_map.1 hmem
      exact (hall other hother).1 (hid ▸ List.mem_cons_self)
    · rcases List.mem_cons.1 hother with rfl | hother
      · refine ⟨hseen, ?_⟩
        rw [validateNode] at hnode
        split at hnode
        · cases hnode
        · rename_i hd
          rw [hd]
          rfl
      · exact ⟨fun hmem => (hall other hother).1 (List.mem_cons_of_mem _ hmem), (hall other hother).2⟩

theorem of_validateEdges {edges : List StoredEdge} (h : validateEdges registry graph seen edges = []) :
    ∀ edge ∈ edges, edge.sourceNodeId ∈ graph.nodes.map (·.id) ∧
      edge.targetNodeId ∈ graph.nodes.map (·.id) := by
  induction edges generalizing seen with
  | nil => exact fun edge hedge => absurd hedge List.not_mem_nil
  | cons edge edges ih =>
    rw [validateEdges] at h
    obtain ⟨hhead, hrest⟩ := List.append_eq_nil_iff.1 h
    intro other hother
    rcases List.mem_cons.1 hother with rfl | hother
    · have hedge := (List.append_eq_nil_iff.1 hhead).2
      rw [validateEdge] at hedge
      split at hedge
      · rename_i src dst hsrc hdst
        rw [← byId_isSome, ← byId_isSome, hsrc, hdst]
        exact ⟨rfl, rfl⟩
      · rename_i src dst hnot
        obtain ⟨hsrc, hdst⟩ := List.append_eq_nil_iff.1 hedge
        rw [← byId_isSome, ← byId_isSome]
        cases hs : byId graph other.sourceNodeId <;> cases hd : byId graph other.targetNodeId <;> simp_all
    · exact ih hrest other hother

/-- The search for a cycle ranks the nodes it clears. -/
theorem of_hasCycle (h : hasCycle graph = false)
    (hlinked : ∀ edge ∈ graph.edges, edge.sourceNodeId ∈ graph.nodes.map (·.id) ∧
      edge.targetNodeId ∈ graph.nodes.map (·.id)) :
    ∃ rank : String → ℕ, ∀ edge ∈ graph.edges, rank edge.targetNodeId < rank edge.sourceNodeId := by
  obtain ⟨met, hmet⟩ := Option.isSome_iff_exists.1 (@search_finishes graph)
  rw [hasCycle, hmet, Option.getD_some] at h
  rw [h] at hmet
  obtain ⟨rank, hrank⟩ := exists_rank hmet
  refine ⟨rank, fun edge hedge => ?_⟩
  obtain ⟨hsource, htarget⟩ := hlinked edge hedge
  refine hrank edge.sourceNodeId (mem_distinctNodes.2 ⟨List.not_mem_nil, hsource⟩) _ ?_
  exact List.mem_map_of_mem (mem_outgoing.2 ⟨hedge, rfl, hsource, htarget⟩)

theorem wellFormed_of_isValid (h : isValid rt registry options graph = true) :
    WellFormed registry graph := by
  rw [isValid, List.isEmpty_iff, validateWorkflowGraph] at h
  by_cases hempty : graph.nodes = []
  · rw [if_pos hempty] at h
    exact absurd (List.append_eq_nil_iff.1 h).2 (List.cons_ne_nil _ _)
  · rw [if_neg hempty] at h
    simp only [List.append_eq_nil_iff] at h
    obtain ⟨⟨⟨⟨-, hnodes⟩, -⟩, hedges⟩, -⟩ := h.1
    obtain ⟨hnodup, hknown⟩ := of_validateNodes hnodes
    have hlinked := of_validateEdges hedges
    have hcycle : hasCycle graph = false := by simpa using h.2
    exact ⟨hnodup, fun node hnode => (hknown node hnode).2, hlinked, of_hasCycle hcycle hlinked⟩

theorem WellFormed.byId_eq (h : WellFormed registry graph) {node : StoredNode}
    (hnode : node ∈ graph.nodes) : byId graph node.id = some node := by
  obtain ⟨other, hother⟩ := Option.isSome_iff_exists.1 (byId_isSome.2 (List.mem_map_of_mem hnode))
  have hid : other.id = node.id := by simpa using List.find?_some hother
  rw [hother, List.inj_on_of_nodup_map h.nodup (List.mem_of_find?_eq_some hother) hnode hid]

theorem mem_of_byId {id : String} {node : StoredNode} (h : byId graph id = some node) :
    node ∈ graph.nodes ∧ node.id = id :=
  ⟨List.mem_of_find?_eq_some h, by simpa using List.find?_some h⟩

theorem WellFormed.mapGet_eq (h : WellFormed registry graph) {node : StoredNode}
    (hnode : node ∈ graph.nodes) :
    mapGet (graph.nodes.map fun n => (n.id, n)) node.id = some node := by
  have hmem : (node.id, node) ∈ graph.nodes.map fun n => (n.id, n) :=
    List.mem_map.2 ⟨node, hnode, rfl⟩
  obtain ⟨other, hother⟩ := Option.isSome_iff_exists.1 (isSome_mapGet hmem)
  obtain ⟨n, hn, heq⟩ := List.mem_map.1 (mem_of_mapGet hother)
  obtain ⟨hid, rfl⟩ := Prod.mk.inj heq
  rw [hother, List.inj_on_of_nodup_map h.nodup hn hnode hid]

end Valid

end UltraTorrent.Workflows.ResolvedGraph
