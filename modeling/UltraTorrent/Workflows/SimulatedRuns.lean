import Mathlib.Algebra.BigOperators.Ring.Finset
import UltraTorrent.Workflows.GraphProgram
import UltraTorrent.Workflows.WorkflowSimulator

/-! The dry run of a valid graph is a complete run of its program, the nodes in the order they
are sorted in. -/
namespace UltraTorrent.Workflows.SimulatedRuns

open Library.EcmaScript Library.TopologicalSort Library.Dataflow ConditionEval Template GraphTypes
  NodeRegistry WorkflowValidator ResolvedGraph GraphProgram WorkflowSimulator

/-! ### The order -/

section Order

variable {registry : NodeDefinitionLookup} {graph : StoredGraph}

theorem mem_targets {v w : String} : w ∈ targets graph v ↔
    ∃ edge ∈ graph.edges, edge.sourceNodeId = v ∧ edge.targetNodeId = w := by
  simp only [targets, edgesOutOf, List.mem_map, List.mem_filter, decide_eq_true_eq, and_assoc]

theorem sum_count_source {edges : List StoredEdge} {ids : Finset String}
    (h : ∀ edge ∈ edges, edge.sourceNodeId ∈ ids) :
    ∑ u ∈ ids, (edges.map (·.sourceNodeId)).count u = edges.length := by
  have hsum := Multiset.sum_count_eq_card (s := ids) (m := (edges.map (·.sourceNodeId) : Multiset String))
    fun u hu => by
      obtain ⟨edge, hedge, rfl⟩ := List.mem_map.1 (Multiset.mem_coe.1 hu)
      exact h edge hedge
  simpa only [Multiset.coe_count, Multiset.coe_card, List.length_map] using hsum

theorem indegree_eq_sum (h : WellFormed registry graph) {w : String}
    (hw : w ∈ graph.nodes.map (·.id)) : indegree graph w =
      ∑ u ∈ (graph.nodes.map (·.id)).toFinset, ((targets graph u).count w : ℤ) := by
  have hsource : ∀ edge ∈ edgesInto graph w,
      edge.sourceNodeId ∈ (graph.nodes.map (·.id)).toFinset := fun edge hedge =>
    List.mem_toFinset.2 (h.linked edge (List.mem_filter.1 hedge).1).1
  rw [indegree, if_pos hw, ← sum_count_source hsource, Nat.cast_sum]
  refine Finset.sum_congr rfl fun u _ => congrArg Nat.cast ?_
  simp only [edgesInto, targets, edgesOutOf, List.count, List.countP_map, List.countP_filter]
  refine List.countP_congr fun edge _ => ?_
  simp [and_comm]

theorem sum_length_targets (h : WellFormed registry graph) :
    ∑ u ∈ (graph.nodes.map (·.id)).toFinset, (targets graph u).length = graph.edges.length := by
  rw [← sum_count_source fun edge hedge => List.mem_toFinset.2 (h.linked edge hedge).1]
  refine Finset.sum_congr rfl fun u _ => ?_
  rw [targets, List.length_map, edgesOutOf, List.count, List.countP_map, List.countP_eq_length_filter]
  rfl

theorem topoOrder_spec (h : WellFormed registry graph) :
    (topoOrder graph).Nodup ∧ (∀ id, id ∈ topoOrder graph ↔ id ∈ graph.nodes.map (·.id)) ∧
      Ordered (targets graph) (graph.nodes.map (·.id)) (topoOrder graph) := by
  obtain ⟨rank, hrank⟩ := h.ranked
  have hclosed : ∀ v ∈ graph.nodes.map (·.id), ∀ w ∈ targets graph v,
      w ∈ graph.nodes.map (·.id) := by
    intro v _ w hw
    obtain ⟨edge, hedge, -, rfl⟩ := mem_targets.1 hw
    exact (h.linked edge hedge).2
  have hlower : ∀ v ∈ graph.nodes.map (·.id), ∀ w ∈ targets graph v, rank w < rank v := by
    intro v _ w hw
    obtain ⟨edge, hedge, rfl, rfl⟩ := mem_targets.1 hw
    exact hrank edge hedge
  have hbudget : remaining (targets graph) (graph.nodes.map (·.id))
      ((graph.nodes.map (·.id)).filter fun id => indegree graph id = 0) [] < topoBudget graph := by
    have hqueue := List.length_filter_le (fun id => decide (indegree graph id = 0))
      (graph.nodes.map (·.id))
    have hsum : ∑ u ∈ left (graph.nodes.map (·.id)) [], (targets graph u).length ≤
        graph.edges.length := by
      rw [← sum_length_targets h]
      exact Finset.sum_le_sum_of_subset (Finset.filter_subset _ _)
    rw [List.length_map] at hqueue
    rw [remaining, topoBudget]
    omega
  obtain ⟨order, hdrain, hnodup, hmem, hordered⟩ := drain_eq_some hclosed hlower
    (Draining.start _ fun w hw => indegree_eq_sum h hw) hbudget
  have horder : topoOrder graph = order := by
    unfold topoOrder
    simp only [hdrain, Option.getD_some]
    rw [List.filter_eq_nil_iff.2, List.append_nil]
    intro id hid
    simpa using (hmem id).2 hid
  rw [horder]
  exact ⟨hnodup, hmem, hordered⟩

end Order

/-! ### One node -/

/-- What an entry of the catalogue declares, by its category: the ports that its nodes fire, and
for an action what it calls. -/
def isRegular (d : NodeDefinition) : Bool :=
  decide d.outputs.Nodup &&
    match d.category with
    | .trigger | .variable => "out" ∈ d.outputs
    | .condition => "true" ∈ d.outputs && "false" ∈ d.outputs
    | .branch => d.dynamicOutputs
    | .action => "out" ∈ d.outputs && d.actionId.any (· ≠ "")
    | .parallel | .join | .transform => d.outputs ≠ []
    | .ending | .delay | .wait | .approval | .subworkflow => true

theorem isRegular_definitions : ∀ d ∈ definitions, isRegular d = true := by decide +kernel

theorem isRegular_of_registry {type : String} {d : NodeDefinition} (h : nodeRegistry type = some d) :
    isRegular d = true := by
  obtain ⟨entry, hentry, heq⟩ := List.mem_map.1 (mem_of_mapGet h)
  cases heq
  exact isRegular_definitions d hentry

section Node

variable {rt : Runtime} {node : StoredNode} {d : NodeDefinition}
  {trigger fields : List (String × Value)} {c c' : Value}

/-- Both put the payload's keys beside the variables, and differ in their order only. -/
theorem agree_evalContext (hkeys : ∀ field ∈ trigger, field.1 ≠ "vars" ∧ field.1 ≠ "trigger")
    (ps : List (List String)) :
    Agree (evalContext trigger (.object fields)) (contextOf trigger fields) ps := by
  have hlookup : ∀ key ∈ ["vars", "trigger"], trigger.lookup key = none := by
    intro key hkey
    rw [List.lookup_eq_none_iff]
    intro field hfield
    have hne := hkeys field hfield
    simp only [List.mem_cons, List.not_mem_nil, or_false] at hkey
    rcases hkey with rfl | rfl
    · simpa using hne.1.symm
    · simpa using hne.2.symm
  have hget : ∀ key, (evalContext trigger (.object fields)).get key =
      (contextOf trigger fields).get key := by
    intro key
    rw [evalContext, contextOf, Value.get, Value.get, List.lookup_append, List.lookup_cons,
      List.lookup_cons, List.lookup_cons, List.lookup_append, List.lookup_cons]
    by_cases hvars : key = "vars"
    · rw [hvars, hlookup "vars" (by simp)]
      simp
    · rw [beq_false_of_ne hvars]
  intro path _
  cases path with
  | nil => exact .refl _
  | cons key path =>
    rw [resolvePath_cons, resolvePath_cons, hget]
    exact .refl _

theorem eraseDups_eq {l : List String} (h : l.Nodup) : l.eraseDups = l := by
  induction l with
  | nil => rfl
  | cons a l ih =>
    obtain ⟨ha, hl⟩ := List.nodup_cons.1 h
    have hfilter : l.filter (fun b => !b == a) = l := by
      rw [List.filter_eq_self]
      intro b hb
      have hne : b ≠ a := fun heq => ha (heq ▸ hb)
      simpa using hne
    rw [List.eraseDups_cons, hfilter, ih hl]

theorem validFired_eq (hd : nodeRegistry node.type = some d) {fired : List String}
    (hnodup : fired.Nodup) (hdeclared : ∀ p ∈ fired, p ∈ d.outputs ∨ d.dynamicOutputs = true) :
    validFired rt nodeRegistry node fired = fired := by
  have houtputs : (resolve rt nodeRegistry node).outputs = d.outputs := by
    rw [WorkflowNode.outputs, resolve, hd]
    rfl
  rw [validFired, eraseDups_eq hnodup, houtputs, hd, List.filter_eq_self]
  intro p hp
  simpa using hdeclared p hp

theorem validFired_effect (hd : nodeRegistry node.type = some d)
    (hpauses : (resolve rt nodeRegistry node).pauses = false) :
    validFired rt nodeRegistry node (effect rt nodeRegistry node c).fired =
      portsOf rt nodeRegistry node c := by
  have hregular := isRegular_of_registry hd
  have hcategory : categoryOf nodeRegistry node = some d.category := by rw [categoryOf, hd]; rfl
  have houtputs : (resolve rt nodeRegistry node).outputs = d.outputs := by
    rw [WorkflowNode.outputs, resolve, hd]
    rfl
  rw [isRegular, Bool.and_eq_true, decide_eq_true_eq] at hregular
  obtain ⟨hnodup, hregular⟩ := hregular
  rw [WorkflowNode.pauses, category_resolve, hcategory] at hpauses
  rw [effect, portsOf, firedPorts, category_resolve, hcategory]
  have hone : ∀ {p : String}, p ∈ d.outputs ∨ d.dynamicOutputs = true →
      validFired rt nodeRegistry node [p] = [p] := fun hp =>
    validFired_eq hd (List.nodup_singleton _) fun q hq => List.mem_singleton.1 hq ▸ hp
  cases hcase : d.category with
  | trigger | «variable» => exact hone (.inl (by simpa [hcase] using hregular))
  | condition =>
    have hports : "true" ∈ d.outputs ∧ "false" ∈ d.outputs := by simpa [hcase] using hregular
    dsimp only
    rw [conditionHolds]
    cases readCondition (resolve rt nodeRegistry node).config with
    | none => exact hone (.inl hports.1)
    | some cond =>
      cases hresult : evaluateCondition rt cond c with
      | true => simpa [hresult] using hone (.inl hports.1)
      | false => simpa [hresult] using hone (.inl hports.2)
  | branch => exact hone (.inr (by simpa [hcase] using hregular))
  | action =>
    have hports : "out" ∈ d.outputs ∧ d.actionId.any (· ≠ "") = true := by simpa [hcase] using hregular
    exact hone (.inl hports.1)
  | ending => exact validFired_eq hd List.nodup_nil fun p hp => absurd hp List.not_mem_nil
  | parallel | join | transform =>
    have hne : d.outputs ≠ [] := by simpa [hcase] using hregular
    have hall : validFired rt nodeRegistry node d.outputs = d.outputs :=
      validFired_eq hd hnodup fun p hp => .inl hp
    simpa [houtputs, hne] using hall
  | delay | wait | approval | subworkflow => simp [hcase] at hpauses

theorem actionInput_congr (hrt : Extensional rt) (h : Agree c c' (paths rt nodeRegistry node)) :
    actionInput rt nodeRegistry node c = actionInput rt nodeRegistry node c' := by
  rw [actionInput, actionInput]
  split
  · rename_i hcategory _
    rw [renderConfig_congr hrt hcategory h]
  · rfl

theorem assign_eq (hrt : Extensional rt) (h : Agree c (contextOf trigger fields) (paths rt nodeRegistry node)) :
    assign rt (resolve rt nodeRegistry node) c (.object fields) =
      .object (setFields nodeRegistry trigger rt node fields) := by
  rw [assign, category_resolve, setFields, setsKey]
  rw [show (resolve rt nodeRegistry node).config = readConfig rt node.config from rfl]
  split_ifs with hsets
  · dsimp only
    rw [← valueOf_congr hrt nodeRegistry h, valueOf, setsKey, if_pos hsets]
    rfl
  · rfl

end Node

/-! ### The walk -/

section Walk

variable {rt : Runtime} (hrt : Extensional rt) (graph : StoredGraph)
  (trigger : List (String × Value))

/-- Where the dry run comes to a node. -/
def place (id : String) : ℕ := (topoOrder graph).idxOf id

abbrev graphProgram : Program String (List (String × Value)) String Value (List String) :=
  program hrt nodeRegistry graph trigger

/-- What a node would be called with. -/
def inputOf (rt : Runtime) (id : String) (fields : List (String × Value)) : Option ActionInput :=
  (byId graph id).bind fun node => actionInput rt nodeRegistry node (contextOf trigger fields)

/-- The walk has fired these nodes. -/
structure Follows (past : History String (List (String × Value))) (sim : Simulation) : Prop where
  fired : (graphProgram hrt graph trigger).Fired past
  vars : sim.vars = .object ((graphProgram hrt graph trigger).after past)
  ports : ∀ id, sim.activePorts id = (graphProgram hrt graph trigger).outputs past id
  reached : ∀ id, id ∈ sim.reached ↔ id ∈ past.map Prod.fst
  calls : sim.wouldExecute = (past.filterMap fun e => inputOf graph trigger rt e.1 e.2).reverse
  steps : sim.steps.length = past.length

variable {hrt graph trigger}

variable {past : History String (List (String × Value))} {sim : Simulation} {node : StoredNode}

/-- An edge is followed when its source fired its port. -/
theorem isFollowed_iff (hsim : Follows hrt graph trigger past sim) (edge : StoredEdge) :
    ((sim.activePorts edge.sourceNodeId).any (fun ports => edge.sourcePort.getD "out" ∈ ports) &&
      decide (edge.sourceNodeId ∈ sim.reached)) = true ↔
        IsLive ((graphProgram hrt graph trigger).outputs past) edge := by
  rw [Bool.and_eq_true, decide_eq_true_eq, hsim.ports, hsim.reached, IsLive, Option.any_eq_true]
  constructor
  · rintro ⟨⟨ports, hports, hmem⟩, -⟩
    exact ⟨ports, hports, of_decide_eq_true hmem⟩
  · rintro ⟨ports, hports, hmem⟩
    obtain ⟨s, hs, -⟩ := mem_of_outputs hports
    exact ⟨⟨ports, hports, decide_eq_true hmem⟩, mem_fired hs⟩

theorem ready_iff {outputs : String → Option (List String)} (hnode : byId graph node.id = some node) :
    (graphProgram hrt graph trigger).ready outputs node.id ↔
      (categoryOf nodeRegistry node = some .trigger ∨
        if categoryOf nodeRegistry node = some .join then
          (∃ edge ∈ graph.edges, edge.targetNodeId = node.id) ∧
            ∀ edge ∈ graph.edges, edge.targetNodeId = node.id → IsLive outputs edge
        else ∃ edge ∈ graph.edges, edge.targetNodeId = node.id ∧ IsLive outputs edge) := by
  refine ⟨?_, fun h => ⟨node, hnode, h⟩⟩
  rintro ⟨other, hother, h⟩
  rw [hnode] at hother
  cases hother
  exact h

theorem isReached_iff (hsim : Follows hrt graph trigger past sim)
    (hnode : byId graph node.id = some node) : isReached nodeRegistry graph sim node = true ↔
      (graphProgram hrt graph trigger).ready ((graphProgram hrt graph trigger).outputs past) node.id := by
  have hinto : ∀ edge, edge ∈ edgesInto graph node.id ↔
      edge ∈ graph.edges ∧ edge.targetNodeId = node.id := fun edge => by simp [edgesInto]
  rw [ready_iff hnode, isReached]
  dsimp only
  by_cases htrigger : categoryOf nodeRegistry node = some .trigger
  · simp [htrigger]
  rw [if_neg htrigger, or_iff_right htrigger]
  by_cases hnone : edgesInto graph node.id = []
  · have hempty : ∀ edge ∈ graph.edges, edge.targetNodeId ≠ node.id := fun edge hedge htarget =>
      absurd ((hinto edge).2 ⟨hedge, htarget⟩) (hnone ▸ List.not_mem_nil)
    rw [if_pos hnone]
    refine iff_of_false Bool.false_ne_true ?_
    split_ifs
    · rintro ⟨⟨edge, hedge, htarget⟩, -⟩
      exact hempty edge hedge htarget
    · rintro ⟨edge, hedge, htarget, -⟩
      exact hempty edge hedge htarget
  rw [if_neg hnone]
  by_cases hjoin : categoryOf nodeRegistry node = some .join
  · rw [if_pos hjoin, if_pos hjoin, decide_eq_true_eq, List.length_filter_eq_length_iff]
    obtain ⟨first, hfirst⟩ := List.exists_mem_of_ne_nil _ hnone
    constructor
    · intro hall
      refine ⟨⟨first, (hinto first).1 hfirst⟩, fun edge hedge htarget => ?_⟩
      exact (isFollowed_iff hsim edge).1 (hall edge ((hinto edge).2 ⟨hedge, htarget⟩))
    · rintro ⟨-, hall⟩ edge hedge
      exact (isFollowed_iff hsim edge).2 (hall edge ((hinto edge).1 hedge).1 ((hinto edge).1 hedge).2)
  · rw [if_neg hjoin, if_neg hjoin, decide_eq_true_eq, List.length_pos_iff_exists_mem]
    constructor
    · rintro ⟨edge, hedge⟩
      obtain ⟨hmem, hfollowed⟩ := List.mem_filter.1 hedge
      exact ⟨edge, ((hinto edge).1 hmem).1, ((hinto edge).1 hmem).2,
        (isFollowed_iff hsim edge).1 hfollowed⟩
    · rintro ⟨edge, hedge, htarget, hlive⟩
      exact ⟨edge, List.mem_filter.2 ⟨(hinto edge).2 ⟨hedge, htarget⟩,
        (isFollowed_iff hsim edge).2 hlive⟩⟩

theorem program_of_byId (hrt : Extensional rt) (trigger : List (String × Value))
    (hnode : byId graph node.id = some node) (fields : List (String × Value)) :
    (graphProgram hrt graph trigger).fire node.id fields = setFields nodeRegistry trigger rt node fields ∧
      (graphProgram hrt graph trigger).output node.id fields =
        portsOf rt nodeRegistry node (contextOf trigger fields) := by
  constructor
  · change ((byId graph node.id).map _).getD fields = _
    rw [hnode]
    rfl
  · change ((byId graph node.id).map _).getD [] = _
    rw [hnode]
    rfl

theorem Follows.fire (hsim : Follows hrt graph trigger past sim)
    (hkeys : ∀ field ∈ trigger, field.1 ≠ "vars" ∧ field.1 ≠ "trigger")
    (hnode : byId graph node.id = some node) {d : NodeDefinition} (hd : nodeRegistry node.type = some d)
    (hpauses : (resolve rt nodeRegistry node).pauses = false)
    (hnew : node.id ∉ past.map Prod.fst) (hreached : isReached nodeRegistry graph sim node = true) :
    Follows hrt graph trigger ((node.id, (graphProgram hrt graph trigger).after past) :: past)
      (simulateNode rt nodeRegistry trigger sim node) := by
  have hagree : Agree (evalContext trigger sim.vars)
      (contextOf trigger ((graphProgram hrt graph trigger).after past)) (paths rt nodeRegistry node) := by
    rw [hsim.vars]
    exact agree_evalContext hkeys _
  obtain ⟨hfire, houtput⟩ := program_of_byId hrt trigger hnode
    ((graphProgram hrt graph trigger).after past)
  refine ⟨.fire node.id hsim.fired hnew ((isReached_iff hsim hnode).1 hreached), ?_, fun id => ?_,
    fun id => ?_, ?_, ?_⟩
  · change assign _ _ _ sim.vars = Value.object (Program.fire _ node.id _)
    rw [hfire, ← assign_eq hrt hagree, hsim.vars]
  · change Function.update sim.activePorts node.id _ id = _
    rw [outputs_cons, houtput, ← portsOf_congr hrt hagree, ← validFired_effect hd hpauses]
    by_cases hid : id = node.id
    · rw [hid, Function.update_self, if_pos rfl]
    · rw [Function.update_of_ne hid, if_neg hid, hsim.ports]
  · change id ∈ sim.reached ++ [node.id] ↔ id ∈ node.id :: past.map Prod.fst
    rw [List.mem_append, List.mem_singleton, List.mem_cons, hsim.reached, or_comm]
  · change sim.wouldExecute ++ (actionInput rt nodeRegistry node _).toList = _
    have hinput : inputOf graph trigger rt node.id ((graphProgram hrt graph trigger).after past) =
        actionInput rt nodeRegistry node (evalContext trigger sim.vars) := by
      rw [inputOf, hnode, Option.bind_some, actionInput_congr hrt hagree]
    rw [List.filterMap_cons, hinput, hsim.calls]
    cases actionInput rt nodeRegistry node (evalContext trigger sim.vars) <;> simp
  · change (sim.steps ++ [_]).length = past.length + 1
    rw [List.length_append, hsim.steps, List.length_singleton]

/-- Only nodes of the graph are fired, so there are no more of them. -/
theorem length_le (h : (graphProgram hrt graph trigger).Fired past) :
    past.length ≤ graph.nodes.length := by
  have hsub : past.map Prod.fst ⊆ graph.nodes.map (·.id) := by
    intro id hid
    obtain ⟨⟨id, fields⟩, he, rfl⟩ := List.mem_map.1 hid
    obtain ⟨newer, older, -, -, ⟨node, hnode, -⟩, -⟩ := h.split he
    obtain ⟨hmem, hid⟩ := mem_of_byId hnode
    exact hid ▸ List.mem_map_of_mem hmem
  simpa using (List.subperm_of_subset h.nodup hsub).length_le

theorem walk_follows (hwf : WellFormed nodeRegistry graph)
    (hpauses : ∀ n ∈ graph.nodes, (resolve rt nodeRegistry n).pauses = false)
    (hkeys : ∀ field ∈ trigger, field.1 ≠ "vars" ∧ field.1 ≠ "trigger")
    {passed order : List String} (horder : topoOrder graph = passed ++ order)
    (hsim : Follows hrt graph trigger past sim) (hsub : ∀ id ∈ past.map Prod.fst, id ∈ passed)
    (hinorder : (graphProgram hrt graph trigger).InOrder (place graph) past)
    (hpassed : ∀ id ∈ passed, id ∉ past.map Prod.fst →
      ¬ (graphProgram hrt graph trigger).ready ((graphProgram hrt graph trigger).outputs past) id) :
    ∃ past', Follows hrt graph trigger past' (walk rt nodeRegistry graph trigger order sim).1 ∧
      (walk rt nodeRegistry graph trigger order sim).2 = false ∧
      (graphProgram hrt graph trigger).InOrder (place graph) past' ∧
      (graphProgram hrt graph trigger).Complete past' := by
  obtain ⟨hnodup, hmem, hordered⟩ := topoOrder_spec hwf
  induction order generalizing passed past sim with
  | nil =>
    refine ⟨past, hsim, rfl, hinorder, fun id hid hready => ?_⟩
    have hfound : IsReady nodeRegistry graph _ id := hready
    obtain ⟨node, hnode, -⟩ := hfound
    obtain ⟨hnodes, hnodeId⟩ := mem_of_byId hnode
    refine hpassed id ?_ hid hready
    rw [List.append_nil] at horder
    rw [← horder, hmem, ← hnodeId]
    exact List.mem_map_of_mem hnodes
  | cons id order ih =>
    have hid : id ∈ topoOrder graph := horder ▸ List.mem_append_right _ List.mem_cons_self
    have hnotPassed : id ∉ passed := by
      intro hpassed
      rw [horder, List.nodup_append] at hnodup
      exact hnodup.2.2 id hpassed id List.mem_cons_self rfl
    obtain ⟨node, hnode, rfl⟩ := List.mem_map.1 ((hmem id).1 hid)
    have hbyId := hwf.byId_eq hnode
    obtain ⟨d, hd⟩ := Option.isSome_iff_exists.1 (hwf.known node hnode)
    have hshort : ¬ graph.nodes.length + 1 < sim.steps.length := by
      have hlength := length_le hsim.fired
      rw [hsim.steps]
      omega
    rw [walk, if_neg hshort, hwf.mapGet_eq hnode]
    dsimp only
    have hsplit : topoOrder graph = (passed ++ [node.id]) ++ order := by
      rw [horder, List.append_assoc]
      rfl
    split_ifs with hreached
    · refine ih hsplit (hsim.fire hkeys hbyId hd (hpauses node hnode)
        (fun hfired => hnotPassed (hsub _ hfired)) hreached) ?_ ?_ ?_
      · intro other hother
        rcases List.mem_cons.1 hother with rfl | hother
        · exact List.mem_append_right _ (List.mem_singleton_self _)
        · exact List.mem_append_left _ (hsub other hother)
      · refine List.pairwise_cons.2 ⟨fun e he _ => ?_, hinorder⟩
        have hearlier := hsub e.1 (List.mem_map_of_mem he)
        rw [place, place, horder, List.idxOf_append_of_mem hearlier,
          List.idxOf_append_of_notMem hnotPassed]
        exact Nat.lt_add_right _ (List.idxOf_lt_length_of_mem hearlier)
      · intro other hother hnew
        have hne : other ≠ node.id := fun heq => hnew (heq ▸ List.mem_cons_self)
        have hbefore : other ∈ passed := by simpa [hne] using hother
        refine fun hready => hpassed other hbefore (fun hfired => hnew (List.mem_cons_of_mem _ hfired))
          ((graphProgram hrt graph trigger).ready_congr (fun u hu => ?_) hready)
        obtain ⟨edge, hedge, rfl, rfl⟩ := hu
        have hlt := hordered.idxOf_lt ((hmem _).2 (hwf.linked edge hedge).2) (hwf.linked edge hedge).1
          (mem_targets.2 ⟨edge, hedge, rfl, rfl⟩)
        rw [outputs_cons, if_neg]
        intro hsource
        rw [hsource, horder, List.idxOf_append_of_notMem hnotPassed,
          List.idxOf_append_of_mem hbefore] at hlt
        have hlength := List.idxOf_lt_length_of_mem hbefore
        omega
    · refine ih hsplit hsim (fun other hother => List.mem_append_left _ (hsub other hother)) hinorder ?_
      intro other hother hnew
      rcases List.mem_append.1 hother with hother | hother
      · exact hpassed other hother hnew
      · rw [List.mem_singleton.1 hother, ← isReached_iff hsim hbyId]
        exact hreached

theorem simulated (hrt : Extensional rt) (hwf : WellFormed nodeRegistry graph)
    (hpauses : ∀ n ∈ graph.nodes, (resolve rt nodeRegistry n).pauses = false)
    (hkeys : ∀ field ∈ trigger, field.1 ≠ "vars" ∧ field.1 ≠ "trigger") :
    ∃ past, (graphProgram hrt graph trigger).Fired past ∧
      (graphProgram hrt graph trigger).Complete past ∧
      (graphProgram hrt graph trigger).InOrder (place graph) past ∧
      (simulateWorkflow rt nodeRegistry graph { trigger := trigger }).vars =
        .object ((graphProgram hrt graph trigger).after past) ∧
      (simulateWorkflow rt nodeRegistry graph { trigger := trigger }).wouldExecute =
        (past.filterMap fun e => inputOf graph trigger rt e.1 e.2).reverse := by
  have hstart : Follows hrt graph trigger [] ⟨.object [], fun _ => none, [], [], []⟩ :=
    ⟨.start, rfl, fun _ => rfl, fun _ => by simp, rfl, rfl⟩
  obtain ⟨past, hfollows, -, hinorder, hcomplete⟩ := walk_follows hwf hpauses hkeys
    (List.nil_append (topoOrder graph)).symm hstart (by simp) List.Pairwise.nil (by simp)
  exact ⟨past, hfollows.fired, hcomplete, hinorder, hfollows.vars, hfollows.calls⟩

end Walk

end UltraTorrent.Workflows.SimulatedRuns
