import UltraTorrent.Workflows.ExecutionPlanner

/-! What becomes of a node by what its incoming edges fire, and that it lasts: a node that is ready, or
that nothing can start any more, stays so when other nodes are done. -/
namespace UltraTorrent.Workflows.DecidedNodes

open GraphTypes ExecutionPlanner

def Fired (states : States) (e : WorkflowEdge) : Prop :=
  ∃ state, states e.sourceNodeId = some state ∧ (state.status = .succeeded ∨ state.status = .failed) ∧
    e.port ∈ state.firedPorts

/-- Some edge to the node was fired, to a join every one of them; a trigger needs none. -/
def Entered (g : WorkflowGraph) (states : States) (node : WorkflowNode) : Prop :=
  node.category = some .trigger ∨ g.incoming node.id ≠ [] ∧
    if node.category = some .join then ∀ e ∈ g.incoming node.id, Fired states e
    else ∃ e ∈ g.incoming node.id, Fired states e

/-- The node has a state that fits: it succeeded or failed if it was entered, and was skipped if not. -/
def Accounted (g : WorkflowGraph) (states : States) (node : WorkflowNode) : Prop :=
  ∃ state, states node.id = some state ∧
    (Entered g states node → state.status = .succeeded ∨ state.status = .failed) ∧
    (¬ Entered g states node → state.status = .skipped)

/-- What the planner makes of a node without a state. -/
def decided (g : WorkflowGraph) (states : States) (node : WorkflowNode) : Verdict :=
  judge node ((g.incoming node.id).map (edgeState states))

/-- Nothing that had a state has another one now. -/
def Extends (states states' : States) : Prop := ∀ id state, states id = some state → states' id = some state

/-- The state is one that the verdict on the node leads to. -/
def Justified (g : WorkflowGraph) (states : States) (node : WorkflowNode) (state : NodeRunState) : Prop :=
  (state.status = .succeeded ∨ state.status = .failed) ∧ decided g states node = .ready ∨
    state.status = .skipped ∧ decided g states node = .dead

variable {g : WorkflowGraph} {states states' : States} {node : WorkflowNode} {e : WorkflowEdge}
  {state : NodeRunState} {classes : List EdgeState}

/-! ### Edges -/

theorem fired_iff : Fired states e ↔ edgeState states e = .live := by
  unfold Fired edgeState
  cases hsource : states e.sourceNodeId with
  | none => simp
  | some state => cases hstatus : state.status <;> simp [hstatus]

/-- What an edge is once its source is done, it remains. -/
theorem edgeState_of_extends (h : Extends states states') (he : edgeState states e ≠ .pending) :
    edgeState states' e = edgeState states e := by
  cases hsource : states e.sourceNodeId with
  | none =>
    rw [edgeState, hsource] at he
    exact absurd rfl he
  | some state => rw [edgeState, edgeState, hsource, h e.sourceNodeId state hsource]

theorem extends_update {id : String} (h : states id = none) :
    Extends states (Function.update states id (some state)) := by
  intro other known hother
  have hne : other ≠ id := by
    rintro rfl
    rw [h] at hother
    cases hother
  rw [Function.update_of_ne hne, hother]

/-! ### Verdicts -/

theorem judge_eq_ready : judge node classes = .ready ↔ node.category = some .trigger ∨ classes ≠ [] ∧
    if node.category = some .join then ∀ c ∈ classes, c = .live else .live ∈ classes := by
  unfold judge
  by_cases htrigger : node.category = some .trigger
  · simp [htrigger]
  by_cases hnil : classes = []
  · simp [htrigger, hnil]
  rw [if_neg htrigger, if_neg hnil]
  by_cases hjoin : node.category = some .join
  · by_cases hall : ∀ c ∈ classes, c = .live
    · have hdead : .dead ∉ classes := fun hmem => by cases hall _ hmem
      rw [if_pos hjoin, if_pos hjoin, if_neg fun h => hdead h.1, if_pos hall]
      exact ⟨fun _ => .inr ⟨hnil, hall⟩, fun _ => rfl⟩
    · rw [if_pos hjoin, if_pos hjoin, if_neg hall]
      split_ifs <;> simp [htrigger, hall]
  · rw [if_neg hjoin, if_neg hjoin]
    split_ifs with hlive hpending <;> simp [htrigger, hnil, hlive]

theorem judge_eq_dead : judge node classes = .dead ↔ node.category ≠ some .trigger ∧ (classes = [] ∨
    .pending ∉ classes ∧ if node.category = some .join then .dead ∈ classes else .live ∉ classes) := by
  unfold judge
  by_cases htrigger : node.category = some .trigger
  · simp [htrigger]
  by_cases hnil : classes = []
  · simp [htrigger, hnil]
  rw [if_neg htrigger, if_neg hnil]
  by_cases hjoin : node.category = some .join
  · rw [if_pos hjoin, if_pos hjoin]
    split_ifs with hdead hall
    · simp [htrigger, hdead]
    · simp [hnil, and_comm, hdead]
    · simp [hnil, and_comm, hdead]
  · rw [if_neg hjoin, if_neg hjoin]
    split_ifs with hlive hpending <;> simp [*]

theorem judge_of_resolved (h : .pending ∉ classes) :
    judge node classes = .ready ∨ judge node classes = .dead := by
  rw [judge_eq_ready, judge_eq_dead]
  by_cases htrigger : node.category = some .trigger
  · exact .inl (.inl htrigger)
  by_cases hnil : classes = []
  · exact .inr ⟨htrigger, .inl hnil⟩
  by_cases hjoin : node.category = some .join
  · by_cases hdead : .dead ∈ classes
    · exact .inr ⟨htrigger, .inr ⟨h, by rwa [if_pos hjoin]⟩⟩
    · refine .inl (.inr ⟨hnil, ?_⟩)
      rw [if_pos hjoin]
      intro c hc
      cases c with
      | live => rfl
      | dead => exact absurd hc hdead
      | pending => exact absurd hc h
  · by_cases hlive : .live ∈ classes
    · exact .inl (.inr ⟨hnil, by rwa [if_neg hjoin]⟩)
    · exact .inr ⟨htrigger, .inr ⟨h, by rwa [if_neg hjoin]⟩⟩

theorem entered_iff : Entered g states node ↔ decided g states node = .ready := by
  have hall : (∀ c ∈ (g.incoming node.id).map (edgeState states), c = .live) ↔
      ∀ e ∈ g.incoming node.id, Fired states e := by
    rw [List.forall_mem_map]
    exact forall₂_congr fun e _ => fired_iff.symm
  have hsome : .live ∈ (g.incoming node.id).map (edgeState states) ↔
      ∃ e ∈ g.incoming node.id, Fired states e := by
    rw [List.mem_map]
    exact exists_congr fun e => and_congr_right fun _ => fired_iff.symm
  rw [decided, judge_eq_ready, Entered, hall, hsome, ne_eq, ne_eq, List.map_eq_nil_iff]

theorem map_edgeState (h : Extends states states') {id : String} {class' : EdgeState}
    (hpending : class' ≠ .pending) (hmem : class' ∈ (g.incoming id).map (edgeState states)) :
    class' ∈ (g.incoming id).map (edgeState states') := by
  obtain ⟨e, he, rfl⟩ := List.mem_map.1 hmem
  rw [← edgeState_of_extends h hpending]
  exact List.mem_map_of_mem he

theorem ready_of_extends (h : Extends states states') (hready : decided g states node = .ready) :
    decided g states' node = .ready := by
  rw [decided, judge_eq_ready] at hready ⊢
  refine hready.imp_right fun ⟨hnil, hclasses⟩ => ⟨by simpa using hnil, ?_⟩
  split_ifs at hclasses ⊢
  · rw [List.forall_mem_map] at hclasses ⊢
    intro e he
    rw [edgeState_of_extends h (by simp [hclasses e he]), hclasses e he]
  · exact map_edgeState h (by simp) hclasses

theorem dead_of_extends (h : Extends states states') (hdead : decided g states node = .dead) :
    decided g states' node = .dead := by
  have hsame : (g.incoming node.id).map (edgeState states') = (g.incoming node.id).map (edgeState states) := by
    rw [decided, judge_eq_dead] at hdead
    rcases hdead.2 with hnil | ⟨hpending, -⟩
    · rw [List.map_eq_nil_iff.1 hnil]
      rfl
    · refine List.map_congr_left fun e he => edgeState_of_extends h fun heq => hpending ?_
      rw [← heq]
      exact List.mem_map_of_mem he
  rw [decided, hsame]
  exact hdead

theorem Justified.of_extends (h : Extends states states') (hstate : Justified g states node state) :
    Justified g states' node state :=
  hstate.imp (fun hready => ⟨hready.1, ready_of_extends h hready.2⟩)
    fun hdead => ⟨hdead.1, dead_of_extends h hdead.2⟩

theorem Justified.accounted (hstate : states node.id = some state) (h : Justified g states node state) :
    Accounted g states node := by
  refine ⟨state, hstate, fun hentered => ?_, fun hentered => ?_⟩ <;> rw [entered_iff] at hentered
  · rcases h with ⟨hstatus, -⟩ | ⟨-, hdead⟩
    · exact hstatus
    · rw [hentered] at hdead
      cases hdead
  · rcases h with ⟨-, hready⟩ | ⟨hstatus, -⟩
    · exact absurd hready hentered
    · exact hstatus

end UltraTorrent.Workflows.DecidedNodes
