import UltraTorrent.Workflows.ResolvedGraph

/-! Which edges a completed node lets through. Validation takes an edge without a port to leave by
the first output of its node, and lets any port leave a parallel node; the planner takes it to
leave by `out`, and a parallel node fires `branch` alone. -/
namespace UltraTorrent.Workflows.EdgePorts

open Library.EcmaScript GraphTypes ExecutionPlanner NodeRegistry WorkflowExecution WorkflowValidator
  ResolvedGraph

/-- What the row of a node may say when the node is done: it was resumed on a port, its action was
called, given up or not even tried, or it fired what its configuration says. -/
inductive Completes (rt : Runtime) (g : WorkflowGraph) (node : WorkflowNode) : NodeRunState → Prop where
  | resumed (port : String) (hpauses : node.pauses = true) : Completes rt g node ⟨.succeeded, [port]⟩
  | acted (haction : node.category = some .action) : Completes rt g node ⟨.succeeded, ["out"]⟩
  | failed (haction : node.category = some .action) : Completes rt g node (failure g node).state
  | refused (haction : node.category = some .action) : Completes rt g node ⟨.failed, []⟩
  | fired (context : Value) (hpauses : node.pauses = false) (haction : node.category ≠ some .action) :
      Completes rt g node ⟨.succeeded, firedPorts rt node context⟩

/-- The port validation takes an edge to leave by. -/
def portOf (d : NodeDefinition) (edge : StoredEdge) : String :=
  edge.sourcePort.getD (d.outputs.head?.getD "")

/-- Leaving a parallel node the edge names its port `branch`; leaving one whose first output is not
`out` it names a port. -/
def Carries (category : NodeCategory) (edge : StoredEdge) : Prop :=
  match category with
  | .parallel => edge.sourcePort = some "branch"
  | .condition | .branch | .wait | .approval => edge.sourcePort ≠ none
  | _ => True

variable {rt : Runtime} {g : WorkflowGraph} {node : WorkflowNode} {state : NodeRunState}
  {d : NodeDefinition}

/-! ### The catalogue -/

/-- The outputs that go with a category. -/
def usual (d : NodeDefinition) : Bool :=
  match d.category with
  | .condition => d.outputs = ["true", "false"]
  | .branch => d.outputs = ["default"]
  | .wait => d.outputs = ["completed", "timeout"]
  | .approval => d.outputs = ["approved", "rejected", "timeout"]
  | .parallel => d.outputs = ["branch"]
  | .ending => d.outputs = []
  | .join | .transform => d.outputs = ["out"]
  | _ => d.outputs.head? = some "out"

theorem usual_of_registry {type : String} (h : nodeRegistry type = some d) : usual d = true := by
  have hall : (definitions.all usual) = true := by rfl
  obtain ⟨entry, hentry, heq⟩ := List.mem_map.1 (mem_of_mapGet h)
  obtain ⟨-, rfl⟩ := Prod.mk.inj heq
  exact List.all_eq_true.1 hall entry hentry

/-- A node that is done has fired one port, or none. -/
theorem fired_of_completes {type : String} (hd : nodeRegistry type = some d)
    (hnode : node.definition = some d.toWorkflowNodeDefinition) (h : Completes rt g node state) :
    state.firedPorts = [] ∨ ∃ port, state.firedPorts = [port] := by
  have husual := usual_of_registry hd
  have hcategory : node.category = some d.category := by rw [WorkflowNode.category, hnode]; rfl
  have houtputs : node.outputs = d.outputs := by rw [WorkflowNode.outputs, hnode]; rfl
  cases h with
  | resumed port => exact .inr ⟨port, rfl⟩
  | acted => exact .inr ⟨"out", rfl⟩
  | failed =>
    unfold WorkflowExecution.failure
    split_ifs
    · exact .inr ⟨"failure", rfl⟩
    · exact .inl rfl
  | refused => exact .inl rfl
  | fired context hpauses haction =>
    dsimp only
    unfold firedPorts
    rw [hcategory, houtputs]
    rw [WorkflowNode.pauses, hcategory] at hpauses
    rw [hcategory] at haction
    unfold usual at husual
    cases hcase : d.category with
    | condition =>
      cases readCondition node.config with
      | none => exact .inr ⟨_, rfl⟩
      | some cond => exact .inr ⟨_, rfl⟩
    | trigger | branch | «variable» => exact .inr ⟨_, rfl⟩
    | ending => exact .inl rfl
    | parallel | join | transform =>
      rw [hcase] at husual
      have hout := of_decide_eq_true husual
      rw [hout]
      exact .inr ⟨_, rfl⟩
    | action => exact absurd (congrArg some hcase) haction
    | delay | wait | approval | subworkflow =>
      rw [hcase] at hpauses
      cases hpauses

theorem fired_outputs {type : String} (hd : nodeRegistry type = some d)
    (hnode : node.definition = some d.toWorkflowNodeDefinition)
    (hdeclared : d.category = .parallel ∨ d.category = .ending) (h : Completes rt g node state) :
    state.firedPorts = d.outputs := by
  have husual := usual_of_registry hd
  have hcategory : node.category = some d.category := by rw [WorkflowNode.category, hnode]; rfl
  have houtputs : node.outputs = d.outputs := by rw [WorkflowNode.outputs, hnode]; rfl
  have hplain : node.pauses = false ∧ node.category ≠ some .action := by
    rw [WorkflowNode.pauses, hcategory]
    rcases hdeclared with hd | hd <;> rw [hd] <;> decide
  cases h with
  | resumed port hpauses => simp [hplain.1] at hpauses
  | acted haction | failed haction | refused haction => exact absurd haction hplain.2
  | fired context =>
    dsimp only
    unfold firedPorts
    unfold usual at husual
    rw [hcategory, houtputs]
    rcases hdeclared with hd | hd <;> rw [hd] at husual ⊢ <;> simp [of_decide_eq_true husual]

/-! ### Edges -/

variable {edge : StoredEdge} {states : States} {port : String}

theorem edgeState_live_iff (hstate : states edge.sourceNodeId = some state)
    (hdone : state.status = .succeeded ∨ state.status = .failed) :
    edgeState states (resolveEdge edge) = .live ↔ edge.sourcePort.getD "out" ∈ state.firedPorts := by
  have hsource : states (resolveEdge edge).sourceNodeId = some state := hstate
  unfold edgeState
  rw [hsource]
  have hlive : (if (resolveEdge edge).port ∈ state.firedPorts then EdgeState.live else .dead) = .live ↔
      edge.sourcePort.getD "out" ∈ state.firedPorts := by
    rw [WorkflowEdge.port, resolveEdge]
    split_ifs with hport <;> simp [hport]
  rcases hdone with hdone | hdone <;> simpa [hdone] using hlive

theorem done_of_completes (h : Completes rt g node state) :
    state.status = .succeeded ∨ state.status = .failed := by
  cases h with
  | resumed | acted | fired => exact .inl rfl
  | failed | refused => exact .inr rfl

/-- The first output is `out`, where an edge need not name its port. -/
theorem carries_iff (hd : usual d = true) (hparallel : d.category ≠ .parallel)
    (hport : d.outputs ≠ []) :
    Carries d.category edge ↔ edge.sourcePort ≠ none ∨ d.outputs.head? = some "out" := by
  unfold usual at hd
  unfold Carries
  cases hcase : d.category <;> rw [hcase] at hd <;>
    first
    | exact absurd hcase hparallel
    | exact absurd (of_decide_eq_true hd) hport
    | simp [of_decide_eq_true hd]

theorem live_iff_carries (hd : usual d = true) (hparallel : d.category ≠ .parallel)
    (hone : state.firedPorts = [] ∨ ∃ port, state.firedPorts = [port])
    (hfired : portOf d edge ∈ state.firedPorts) (hport : d.outputs ≠ []) :
    edge.sourcePort.getD "out" ∈ state.firedPorts ↔ Carries d.category edge := by
  rw [carries_iff hd hparallel hport]
  obtain ⟨port, hport⟩ : ∃ port, state.firedPorts = [port] :=
    hone.resolve_left fun h => by simp [h] at hfired
  rw [hport, List.mem_singleton] at hfired ⊢
  unfold portOf at hfired
  cases hsource : edge.sourcePort with
  | some given => simpa [hsource] using hfired
  | none =>
    rw [hsource, Option.getD_none] at hfired
    cases houtputs : d.outputs with
    | nil => exact absurd houtputs ‹d.outputs ≠ []›
    | cons first rest =>
      rw [houtputs] at hfired
      have hfirst : first = port := hfired
      simp [hfirst, eq_comm]

/-- Of an accepted edge: when its source has fired the port validation takes it to leave by, or is a
parallel node that is done, the planner holds it for live just when it is a carrying one. -/
theorem accepted_live_iff (rt : Runtime) (options : ValidateOptions) (graph : StoredGraph)
    (hvalid : isValid rt nodeRegistry options graph = true) (edge : StoredEdge)
    (hedge : edge ∈ graph.edges) :
    ∃ source d, byId graph edge.sourceNodeId = some source ∧ nodeRegistry source.type = some d ∧
      ∀ (states : States) (state : NodeRunState), states edge.sourceNodeId = some state →
        Completes rt (resolveGraph rt nodeRegistry graph) (resolve rt nodeRegistry source) state →
        d.category = .parallel ∨ portOf d edge ∈ state.firedPorts →
        (edgeState states (resolveEdge edge) = .live ↔ Carries d.category edge) := by
  have hwf := wellFormed_of_isValid hvalid
  obtain ⟨source, hsource⟩ := Option.isSome_iff_exists.1 (byId_isSome.2 (hwf.linked edge hedge).1)
  obtain ⟨d, hd⟩ := Option.isSome_iff_exists.1 (hwf.known source (mem_of_byId hsource).1)
  refine ⟨source, d, hsource, hd, fun states state hstate hcompletes hfired => ?_⟩
  have hnode : (resolve rt nodeRegistry source).definition = some d.toWorkflowNodeDefinition := by
    rw [resolve, hd]
    rfl
  have husual := usual_of_registry hd
  rw [edgeState_live_iff hstate (done_of_completes hcompletes)]
  by_cases hparallel : d.category = .parallel
  · have houtputs : d.outputs = ["branch"] := by
      unfold usual at husual
      rw [hparallel] at husual
      exact of_decide_eq_true husual
    rw [fired_outputs hd hnode (.inl hparallel) hcompletes, houtputs, hparallel]
    cases hport : edge.sourcePort <;> simp [Carries, hport]
  · have hport := hfired.resolve_left hparallel
    have houtputs : d.outputs ≠ [] := by
      intro houtputs
      by_cases hending : d.category = .ending
      · rw [fired_outputs hd hnode (.inr hending) hcompletes, houtputs] at hport
        cases hport
      · unfold usual at husual
        cases hcase : d.category <;> simp [hcase, houtputs] at husual hending
    exact live_iff_carries husual hparallel (fired_of_completes hd hnode hcompletes) hport houtputs

/-- A question whose answer has no port, and a fan with a port of its own. -/
def portless : StoredGraph where
  schemaVersion := 1
  nodes :=
    [{ id := "start", type := "trigger.manual" }, { id := "ask", type := "control.condition" },
     { id := "fan", type := "control.parallel" }, { id := "yes", type := "control.end" },
     { id := "left", type := "control.end" }]
  edges :=
    [{ id := "e1", sourceNodeId := "start", targetNodeId := "ask" },
     { id := "e2", sourceNodeId := "start", targetNodeId := "fan" },
     { id := "e3", sourceNodeId := "ask", targetNodeId := "yes" },
     { id := "e4", sourceNodeId := "fan", sourcePort := some "left", targetNodeId := "left" }]

/-- Every node but the ends is done. -/
def portlessStates (id : String) : Option NodeRunState :=
  if id = "start" then some ⟨.succeeded, ["out"]⟩
  else if id = "ask" then some ⟨.succeeded, ["true"]⟩
  else if id = "fan" then some ⟨.succeeded, ["branch"]⟩
  else none

/-- The edge of the trigger is live: it leaves by `out` for both. -/
theorem trigger_live : edgeState portlessStates ⟨"start", none, "ask"⟩ = .live := by
  obtain ⟨source, d, hsource, hd, hlive⟩ := accepted_live_iff .ascii {} portless (by decide +kernel)
    { id := "e1", sourceNodeId := "start", targetNodeId := "ask" } List.mem_cons_self
  have hstart : byId portless "start" = some { id := "start", type := "trigger.manual" } := by rfl
  cases hstart.symm.trans hsource
  have htrigger : nodeRegistry "trigger.manual" = some
      { type := "trigger.manual", category := .trigger, outputs := ["out"], inputs := 0 } := by rfl
  cases htrigger.symm.trans hd
  exact (hlive portlessStates ⟨.succeeded, ["out"]⟩ rfl
    (.fired (.object []) (by rfl) (by decide)) (.inr List.mem_cons_self)).2 trivial

/-- The question was answered by `true`, the port its edge was accepted with, and the fan is done;
neither of their edges is live. -/
theorem portless_dead : isValid .ascii nodeRegistry {} portless = true ∧
    Completes .ascii (resolveGraph .ascii nodeRegistry portless)
      (resolve .ascii nodeRegistry { id := "ask", type := "control.condition" }) ⟨.succeeded, ["true"]⟩ ∧
    Completes .ascii (resolveGraph .ascii nodeRegistry portless)
      (resolve .ascii nodeRegistry { id := "fan", type := "control.parallel" }) ⟨.succeeded, ["branch"]⟩ ∧
    (nodeRegistry "control.condition").map (portOf · ⟨"e3", "ask", none, "yes"⟩) = some "true" ∧
    edgeState portlessStates ⟨"ask", none, "yes"⟩ = .dead ∧
    edgeState portlessStates ⟨"fan", some "left", "left"⟩ = .dead :=
  ⟨by decide +kernel, .fired (.object []) (by rfl) (by decide), .fired (.object []) (by rfl) (by decide),
    by rfl, by rfl, by rfl⟩

end UltraTorrent.Workflows.EdgePorts
