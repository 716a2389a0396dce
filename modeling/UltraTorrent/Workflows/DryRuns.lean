import UltraTorrent.Workflows.ExecutedRuns

/-! The dry run against the run: what the simulator says would be executed, and what the executor
dispatches when every action succeeds. -/
namespace UltraTorrent.Workflows.DryRuns

open Library.EcmaScript Library.Dataflow Library.Interleaving GraphTypes WorkflowExecution DispatchRounds
  NodeRegistry WorkflowValidator ResolvedGraph GraphProgram WorkflowSimulator SimulatedRuns ExecutedRuns

section Agreement

variable {rt : Runtime} {graph : StoredGraph} {trigger : List (String × Value)} {depth : ℕ}

/-- The execution is created, and its run is about to begin. -/
def begun : Library.Interleaving.Config Unit Traced Call := ⟨⟨queued, [], []⟩, fun _ => .load⟩

theorem place_lt (hrt : Extensional rt) (hwf : WellFormed nodeRegistry graph) (u v : String)
    (h : (graphProgram hrt graph trigger).leads u v) : place graph u < place graph v := by
  obtain ⟨edge, hedge, rfl, rfl⟩ := h
  obtain ⟨-, hmem, hordered⟩ := topoOrder_spec hwf
  obtain ⟨hsource, htarget⟩ := hwf.linked edge hedge
  exact hordered.idxOf_lt ((hmem _).2 htarget) hsource (mem_targets.2 ⟨edge, hedge, rfl, rfl⟩)

theorem inputOf_alike (hrt : Extensional rt) {id : String} {s t : List (String × Value)}
    (h : (graphProgram hrt graph trigger).Alike id s t) :
    inputOf graph trigger rt id s = inputOf graph trigger rt id t := by
  unfold inputOf
  cases hid : byId graph id with
  | none => rw [Option.bind_none, Option.bind_none]
  | some node =>
    refine actionInput_congr hrt (agree_of_reads fun key hkey => h key ?_)
    change (byId graph id).any _ = true
    rw [hid]
    exact hkey

/-- The steps of the run, in which all goes well. -/
abbrev running (rt : Runtime) (graph : StoredGraph) (trigger : List (String × Value)) (depth : ℕ) :
    Traced → Call → Answer → Option (Traced × Call) :=
  guarded (smooth graph) (tracing rt graph trigger depth)

/-- What the executor dispatched and left is what the dry run says. -/
def Predicted (rt : Runtime) (graph : StoredGraph) (trigger : List (String × Value)) (t : Traced) : Prop :=
  let result := simulateWorkflow rt nodeRegistry graph { trigger := trigger }
  t.dispatched.Perm result.wouldExecute ∧ Same (t.execution.vars.getD (.object [])) result.vars

theorem plays_of_run (hrt : Extensional rt) (hwf : WellFormed nodeRegistry graph)
    (hpauses : ∀ n ∈ graph.nodes, (resolve rt nodeRegistry n).pauses = false)
    (hkeys : ∀ field ∈ trigger, field.1 ≠ "vars" ∧ field.1 ≠ "trigger")
    {c : Library.Interleaving.Config Unit Traced Call}
    (h : Run (guarded (inStep rt graph) (running rt graph trigger depth)) (fun _ _ => True) begun c) :
    Plays hrt graph trigger depth c.store (c.call ()) := by
  refine h.invariant (P := fun c => Plays hrt graph trigger depth c.store (c.call ())) .load ?_
  rintro c ⟨⟩ answer t' k' hplays - hact
  obtain ⟨hstep, hact⟩ := guarded_eq_some.1 hact
  obtain ⟨hsmooth, hact⟩ := guarded_eq_some.1 hact
  dsimp only
  rw [Function.update_self]
  exact hplays.step hwf hpauses hkeys hsmooth hstep hact

theorem predicted_of_plays {hrt : Extensional rt} (hwf : WellFormed nodeRegistry graph)
    (hpauses : ∀ n ∈ graph.nodes, (resolve rt nodeRegistry n).pauses = false)
    (hkeys : ∀ field ∈ trigger, field.1 ≠ "vars" ∧ field.1 ≠ "trigger") {t : Traced}
    (h : Plays hrt graph trigger depth t .idle) : Predicted rt graph trigger t := by
  have hfinished := h.finished rfl
  obtain ⟨past, hfired, hcomplete, hinOrder, hvars, hcalls⟩ :=
    simulated hrt hwf hpauses hkeys
  have hmatched := matched hfinished.fired hfired hfinished.complete hcomplete hfinished.inOrder hinOrder
    (place_lt hrt hwf)
  constructor
  · have hperm := map_perm hfinished.fired hfired hmatched (inputOf graph trigger rt)
      (inputOf_alike hrt)
    have hall := hperm.filterMap id
    rw [List.filterMap_map, List.filterMap_map] at hall
    rw [hfinished.dispatched, hcalls]
    exact (List.reverse_perm _).trans (hall.trans (List.reverse_perm _).symm)
  · rw [hfinished.saved, hvars]
    exact .object fun key => final_eq hfinished.fired hfired hfinished.inOrder hinOrder hmatched

end Agreement

/-! ### Two branches that set one variable -/

def node (id type : String) (config : List (String × Value)) : StoredNode :=
  { id := id, type := type, config := config }

def edge (id source target : String) : StoredEdge :=
  { id := id, sourceNodeId := source, targetNodeId := target }

/-- Sets the variable `x`. -/
def setX (id text : String) : StoredNode :=
  node id "control.variable" [("key", .string "x"), ("value", .string text)]

/-- Calls out with the variable `x` in the address. -/
def callOut : StoredNode := node "call" "action.webhook" [("url", .string "http://{{vars.x}}")]

def oneBranch : StoredGraph where
  schemaVersion := schemaVersion
  nodes := [node "start" "trigger.manual" [], setX "first" "1", callOut]
  edges := [edge "e1" "start" "first", edge "e2" "first" "call"]

/-- The nodes stand in one order, and the edges to them in the other. -/
def twoBranches : StoredGraph where
  schemaVersion := schemaVersion
  nodes := [node "start" "trigger.manual" [], setX "first" "1", setX "second" "2"]
  edges := [edge "e1" "start" "second", edge "e2" "start" "first"]

theorem extensional_ascii : Extensional .ascii := ⟨fun _ _ _ => rfl, fun _ _ _ => rfl⟩

def isIdle : Call → Bool
  | .idle => true
  | _ => false

theorem eq_idle {k : Call} (h : isIdle k = true) : k = .idle := by
  cases k <;> first | rfl | cases h

/-- A run that is granted, and goes on. -/
def answers (n : ℕ) : List (Unit × Answer) :=
  [((), .go), ((), .grant none)] ++ List.replicate n ((), .go)

/-- The variable holds this text. -/
def holds (v : Value) (key text : String) : Bool :=
  match v.get key with
  | .string s => s = text
  | _ => false

theorem holds_congr {v v' : Value} (h : Same v v') (key text : String) :
    holds v key text = holds v' key text := by
  cases h with
  | refl => rfl
  | object h => rw [holds, holds, Value.get, Value.get, h]

end UltraTorrent.Workflows.DryRuns
