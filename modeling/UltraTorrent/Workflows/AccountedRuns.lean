import UltraTorrent.Workflows.DecidedNodes
import UltraTorrent.Workflows.ExecutedRuns
import UltraTorrent.Workflows.FiniteLoops
import UltraTorrent.Workflows.SettledExecutions

/-! What a run without pauses leaves behind when it has completed. Dead nodes are pruned one level at
a time, and the loop goes on for the next level only while something is ready: what is below two
dead nodes in a row may be left without a row. -/
namespace UltraTorrent.Workflows.AccountedRuns

open Library.EcmaScript Library.Interleaving GraphTypes ExecutionPlanner WorkflowStatus
  WorkflowExecution LoopInvariant DispatchRounds NodeRegistry WorkflowValidator ResolvedGraph ExecutedRuns
  SettledExecutions DecidedNodes FiniteLoops

/-! ### Runs -/

/-- One call on the execution; only the worker's runs it. -/
structure Handler where
  isWorker : Bool
  call : Call

/-- A step of a call, or a crash of the worker, after which the boot comes to the execution. No node
waits for a child, so none ends. -/
def handle (rt : Runtime) (p : Pinned) (s : Execution) (k : Handler) :
    Option Answer → Option (Execution × Handler)
  | some answer =>
    if fromOutside k.call answer then
      (act rt p s k.call answer).map fun next => (next.1, { k with call := next.2 })
    else none
  | none => if k.isWorker then some (s, { k with call := .booting }) else none

abbrev Config := Library.Interleaving.Config ℕ Execution Handler

/-- The execution is queued; its worker begins, and any number of other calls may. -/
def enqueued : Config := ⟨queued, fun i => ⟨i = 0, if i = 0 then .load else .idle⟩⟩

/-- When nothing is ready, no edge joins two nodes without a state. -/
def shallow (g : WorkflowGraph) (states : States) : Bool :=
  !(planExecution g states).ready.isEmpty ||
    g.edges.all fun e => (states e.sourceNodeId).isSome || (states e.targetNodeId).isSome

/-- A wave is planned where it is shallow. -/
def planned (g : WorkflowGraph) (_ : Execution) (k : Handler) (_ : Option Answer) : Bool :=
  match k.call with
  | .loop l .check => shallow g l.states
  | _ => true

/-- The bound on the waves is not reached, the loop ends at a failure or when all is quiet, and
every node of a completed run is accounted for. -/
structure Accounts (g : WorkflowGraph) (s : Execution) (k : Call) : Prop where
  bounded : ∀ l stage, k = .loop l stage → l.iter + 1 < maxIterations g
  failed : ∀ l, k = .loop l (.finish true) → ∃ row ∈ s.nodes, row.state.status = .failed
  quiescent : ∀ l, k = .loop l (.finish false) → (planExecution g l.states).quiescent = true
  accounted : s.status = .completed → ∀ node ∈ g.nodes, Accounted g (loadStates s.nodes) node

/-! ### What holds all along -/

/-- A wave that prunes: its nodes are dead, and unless it has something to run it leaves none out. -/
structure Pruning (g : WorkflowGraph) (states : States) (view : PlannerView) (todo : List WorkflowNode) :
    Prop where
  dead : ∀ node ∈ todo, decided g states node = .dead
  ready : ∀ node ∈ view.ready, decided g states node = .ready
  quiescent : view.ready = [] → view.quiescent = true
  complete : view.ready = [] → ∀ node ∈ g.nodes, node ∉ todo → states node.id ≠ none

/-- A row that is about to be written. -/
def FitJob (g : WorkflowGraph) (states : States) (job : Persist) : Prop :=
  match job.next with
  | .pruned view todo => job.state.status = .skipped ∧ Pruning g states view (job.node :: todo)
  | .processed stops todo => (job.state.status = .succeeded ∨ job.state.status = .failed) ∧
      (stops = true → job.state.status = .failed) ∧ ∀ node ∈ job.node :: todo, decided g states node = .ready
  | .armed => False

/-- The nodes a wave has come to are to be run, and a wave that comes to its end has written a row. -/
def FitStage (g : WorkflowGraph) (rows : List NodeExecution) (l : Loop) : Stage → Prop
  | .check => True
  | .prune view todo => Pruning g l.states view todo
  | .process todo => (∀ node ∈ todo, decided g l.states node = .ready) ∧ (todo = [] → l.iter < rows.length)
  | .dispatch node _ todo | .calling node _ todo =>
    ∀ other ∈ node :: todo, decided g l.states other = .ready
  | .find job | .write job _ => FitJob g l.states job
  | .finish true => ∃ row ∈ rows, row.state.status = .failed
  | .finish false => ∀ node ∈ g.nodes, l.states node.id ≠ none
  | .save _ | .approval _ | .park _ | .start _ => False

def FitCall (g : WorkflowGraph) (rows : List NodeExecution) : Call → Prop
  | .setRunning l => l.iter = 0
  | .loop l stage => l.iter ≤ rows.length ∧ FitStage g rows l stage
  | .finalize outcome => outcome.isWaiting = false ∧
      (outcome = .completed → ∀ node ∈ g.nodes, ¬ Fresh rows node.id)
  | .finding _ | .advance _ _ | .unpark => False
  | _ => True

/-- Every row is one its node has earned, and a completed run has a row of every node. -/
structure Kept (g : WorkflowGraph) (s : Execution) : Prop where
  tidy : Tidy s.nodes
  justified : ∀ row ∈ s.nodes, ∃ node ∈ g.nodes, node.id = row.nodeId ∧
    Justified g (loadStates s.nodes) node row.state
  awake : s.status.isWaiting = false
  complete : s.status = .completed → ∀ node ∈ g.nodes, ¬ Fresh s.nodes node.id

section Steps

variable {rt : Runtime} {p : Pinned} {g : WorkflowGraph} {s s' : Execution} {k k' : Call} {l l' : Loop}
  {stage : Stage} {answer : Answer} {rows : List NodeExecution} {states : States} {node : WorkflowNode}
  {view : PlannerView} {todo : List WorkflowNode} {state : NodeRunState} {id : String}

/-- A state that was loaded is one of a row, and so of a node that is done. -/
theorem Kept.done (h : Kept g s) (hstate : loadStates s.nodes id = some state) :
    state.status = .succeeded ∨ state.status = .failed ∨ state.status = .skipped := by
  obtain ⟨row, hrow, rfl⟩ := Option.map_eq_some_iff.1 hstate
  obtain ⟨node, -, -, hjustified⟩ := h.justified row (List.mem_reverse.1 (List.mem_of_find?_eq_some hrow))
  rcases hjustified with ⟨hstatus | hstatus, -⟩ | ⟨hstatus, -⟩
  · exact .inl hstatus
  · exact .inr (.inl hstatus)
  · exact .inr (.inr hstatus)

theorem Kept.resolved (h : Kept g s) {e : WorkflowEdge}
    (hsource : (loadStates s.nodes e.sourceNodeId).isSome = true) :
    edgeState (loadStates s.nodes) e ≠ .pending := by
  obtain ⟨state, hstate⟩ := Option.isSome_iff_exists.1 hsource
  rw [edgeState, hstate]
  by_cases hport : e.port ∈ state.firedPorts <;>
    rcases h.done hstate with hstatus | hstatus | hstatus <;> simp [hstatus, hport]

theorem decided_of_verdict {v : Verdict} (hv : v = .ready ∨ v = .dead) (h : verdict g states node = v) :
    decided g states node = v := by
  have hpending := pending_of_verdict (h ▸ hv)
  rw [verdict, hpending] at h
  exact h

theorem verdict_of_none (h : states node.id = none) : verdict g states node = decided g states node := by
  rw [verdict, h]
  rfl

theorem Kept.quiescent (h : Kept g s) (hready : (planExecution g (loadStates s.nodes)).ready = []) :
    (planExecution g (loadStates s.nodes)).quiescent = true := by
  have hactive : (g.nodes.filter fun n => verdict g (loadStates s.nodes) n = .active) = [] := by
    rw [List.filter_eq_nil_iff]
    intro node _ hverdict
    have hverdict := of_decide_eq_true hverdict
    cases hstate : loadStates s.nodes node.id with
    | none =>
      rw [verdict_of_none hstate, decided] at hverdict
      unfold judge at hverdict
      split_ifs at hverdict
    | some state =>
      rw [verdict, hstate] at hverdict
      rcases h.done hstate with hstatus | hstatus | hstatus <;> simp [hstatus] at hverdict
  rw [planExecution, hactive]
  rw [planExecution] at hready
  simp only at hready
  rw [hready]
  rfl

theorem Kept.pruning (h : Kept g s) (hshallow : shallow g (loadStates s.nodes) = true) :
    Pruning g (loadStates s.nodes) (planExecution g (loadStates s.nodes))
      (planExecution g (loadStates s.nodes)).dead where
  dead node hnode := decided_of_verdict (.inr rfl) (mem_dead.1 hnode).2
  ready node hnode := decided_of_verdict (.inl rfl) (mem_ready.1 hnode).2
  quiescent := h.quiescent
  complete hready node hnode hdead hnone := by
    have hverdict := verdict_of_none (g := g) hnone
    have hresolved : .pending ∉ (g.incoming node.id).map (edgeState (loadStates s.nodes)) := by
      intro hpending
      obtain ⟨e, he, heq⟩ := List.mem_map.1 hpending
      obtain ⟨hedge, htarget⟩ := List.mem_filter.1 he
      have htarget := of_decide_eq_true htarget
      rw [shallow, hready] at hshallow
      have hends := List.all_eq_true.1 hshallow e hedge
      rw [htarget, hnone] at hends
      exact h.resolved (by simpa using hends) heq
    have hdecided : decided g (loadStates s.nodes) node = .ready ∨
        decided g (loadStates s.nodes) node = .dead := judge_of_resolved hresolved
    rcases hdecided with hjudge | hjudge
    · have hmem := mem_ready.2 ⟨hnode, hverdict.trans hjudge⟩
      rw [hready] at hmem
      cases hmem
    · exact hdead (mem_dead.2 ⟨hnode, hverdict.trans hjudge⟩)

theorem Kept.of_same (h : Kept g s) (hnodes : s'.nodes = s.nodes) (hstatus : s'.status = s.status) :
    Kept g s' where
  tidy := hnodes ▸ h.tidy
  justified := hnodes ▸ h.justified
  awake := hstatus ▸ h.awake
  complete hcompleted := hnodes ▸ h.complete (hstatus ▸ hcompleted)

theorem not_fresh_append (h : ¬ Fresh rows id) (row : NodeExecution) : ¬ Fresh (rows ++ [row]) id :=
  fun hfresh => h fun other hother => hfresh other (List.mem_append_left _ hother)

/-- A new row changes nothing about the others. -/
theorem Kept.append (h : Kept g s) (hmem : node ∈ g.nodes) (hfresh : Fresh s.nodes node.id)
    (hstate : Justified g (loadStates s.nodes) node state) (hnodes : s'.nodes = s.nodes ++ [⟨node.id, state⟩])
    (hstatus : s'.status = s.status) : Kept g s' := by
  have hextends : Extends (loadStates s.nodes) (loadStates s'.nodes) := by
    rw [hnodes, loadStates_append]
    exact extends_update (loadStates_eq_none.2 hfresh)
  have hstored : isStored state.status = true := by
    rcases hstate with ⟨hstatus | hstatus, -⟩ | ⟨hstatus, -⟩ <;> rw [hstatus] <;> rfl
  refine ⟨?_, fun row hrow => ?_, hstatus ▸ h.awake, fun hcompleted other hother => ?_⟩
  · rw [hnodes]
    exact h.tidy.append hfresh hstored
  · rw [hnodes] at hrow
    rcases List.mem_append.1 hrow with hrow | hrow
    · obtain ⟨other, hother, hid, hjustified⟩ := h.justified row hrow
      exact ⟨other, hother, hid, hjustified.of_extends hextends⟩
    · rw [List.mem_singleton.1 hrow]
      exact ⟨node, hmem, rfl, hstate.of_extends hextends⟩
  · rw [hnodes]
    exact not_fresh_append (h.complete (hstatus ▸ hcompleted) other hother) _

/-! ### The loop -/

theorem Pruning.of_extends {states' : States} (h : Pruning g states view (node :: todo))
    (hextends : Extends states states') (hnode : states' node.id ≠ none) : Pruning g states' view todo where
  dead other hother := dead_of_extends hextends (h.dead other (List.mem_cons_of_mem _ hother))
  ready other hother := ready_of_extends hextends (h.ready other hother)
  quiescent := h.quiescent
  complete hready other hother htodo := by
    by_cases hself : other = node
    · rw [hself]
      exact hnode
    · obtain ⟨state, hstate⟩ :=
        Option.ne_none_iff_exists'.1 (h.complete hready other hother (by simp [hself, htodo]))
      simp [hextends other.id state hstate]

theorem fit_again (hiter : l.iter < rows.length) (hlength : rows.length ≤ g.nodes.length) :
    FitCall g rows (again g l) := by
  have hbound : l.iter + 1 < maxIterations g := by
    rw [maxIterations]
    omega
  rw [again, if_pos hbound]
  exact ⟨hiter, trivial⟩

theorem fit_prune (h : Pruning g l.states view todo) (hiter : l.iter ≤ rows.length) :
    FitCall g rows (prune g l view todo) := by
  cases todo with
  | nil =>
    rw [prune, afterPrune]
    split_ifs with hready hquiescent
    · exact ⟨hiter, fun node hnode => h.complete (List.isEmpty_iff.1 hready) node hnode List.not_mem_nil⟩
    · simp [h.quiescent (List.isEmpty_iff.1 hready)] at hquiescent
    · exact ⟨hiter, h.ready, fun hnil => absurd (List.isEmpty_iff.2 hnil) hready⟩
  | cons node todo =>
    rw [prune]
    split_ifs with hskipped
    · refine ⟨hiter, h.of_extends (fun _ _ hstate => hstate) fun hnone => ?_⟩
      rw [hnone] at hskipped
      cases hskipped
    · exact ⟨hiter, rfl, h⟩

theorem failed_of_refusal {outcome : Outcome} (h : refusal g l node = some outcome) :
    outcome.state.status = .failed := by
  unfold refusal at h
  split at h
  · cases h
    rfl
  · cases h
    rfl
  · split_ifs at h
    cases h
    rfl

theorem fit_visit (hplain : ∀ node ∈ todo, node.pauses = false) (hlength : rows.length ≤ p.graph.nodes.length)
    (h : ∀ node ∈ todo, decided p.graph l.states node = .ready) (hnil : todo = [] → l.iter < rows.length)
    (hiter : l.iter ≤ rows.length) : FitCall p.graph rows (visit rt p s l todo).2 := by
  cases todo with
  | nil => exact fit_again (hnil rfl) hlength
  | cons node todo =>
    rw [visit]
    unfold process
    rw [hplain node List.mem_cons_self, if_neg Bool.false_ne_true]
    split_ifs
    · cases hrefusal : refusal p.graph l node with
      | none => exact ⟨hiter, h⟩
      | some outcome => exact ⟨hiter, .inr (failed_of_refusal hrefusal), fun _ => failed_of_refusal hrefusal, h⟩
    · exact ⟨hiter, .inl rfl, (fun hstops => absurd hstops Bool.false_ne_true), h⟩

theorem Kept.length_le (h : Kept g s) : s.nodes.length ≤ g.nodes.length := by
  have hsub : s.nodes.map (·.nodeId) ⊆ g.nodes.map (·.id) := by
    intro id hid
    obtain ⟨row, hrow, rfl⟩ := List.mem_map.1 hid
    obtain ⟨node, hnode, hid, -⟩ := h.justified row hrow
    exact List.mem_map.2 ⟨node, hnode, hid⟩
  simpa using (h.tidy.nodup.subperm hsub).length_le

theorem fit_retry {attempt : ℕ} {ok : Bool} (hiter : l.iter ≤ rows.length)
    (h : ∀ other ∈ node :: todo, decided g l.states other = .ready) :
    FitCall g rows (.loop l (retry g node attempt ok todo)) := by
  unfold retry
  split_ifs
  · exact ⟨hiter, .inl rfl, (fun hstops => absurd hstops Bool.false_ne_true), h⟩
  · exact ⟨hiter, h⟩
  · exact ⟨hiter, .inr rfl, fun _ => rfl, h⟩

theorem FitJob.justified {job : Persist} (h : FitJob g states job) : Justified g states job.node job.state := by
  obtain ⟨node, state, next⟩ := job
  cases next with
  | pruned view todo => exact .inr ⟨h.1, h.2.dead node List.mem_cons_self⟩
  | processed stops todo => exact .inl ⟨h.1, h.2.2 node List.mem_cons_self⟩
  | armed => exact h.elim

theorem fit_afterWrite {job : Persist} (h : FitJob g l.states job) (hfresh : l.states job.node.id = none)
    (hiter : l.iter ≤ rows.length) :
    FitCall g (rows ++ [⟨job.node.id, job.state⟩]) (afterWrite l job) := by
  have hiter' : l.iter < (rows ++ [NodeExecution.mk job.node.id job.state]).length := by
    rw [List.length_append]
    exact Nat.lt_succ_of_le hiter
  have hextends : Extends l.states (Function.update l.states job.node.id (some job.state)) :=
    extends_update hfresh
  obtain ⟨node, state, next⟩ := job
  cases next with
  | pruned view todo => exact ⟨hiter'.le, h.2.of_extends hextends (by simp)⟩
  | processed stops todo =>
    refine ⟨hiter'.le, ?_⟩
    cases stops with
    | true =>
      show ∃ row ∈ rows ++ [⟨node.id, state⟩], row.state.status = .failed
      exact ⟨_, List.mem_append_right _ (List.mem_singleton_self _), h.2.1 rfl⟩
    | false =>
      exact ⟨fun other hother => ready_of_extends hextends (h.2.2 other (List.mem_cons_of_mem _ hother)),
        fun _ => hiter'⟩
  | armed => exact h.elim

theorem Kept.actStage (hkept : Kept p.graph s) (hplain : ∀ node ∈ p.graph.nodes, node.pauses = false)
    (hsound : Sound p.graph s.nodes l stage) (hfit : FitCall p.graph s.nodes (.loop l stage))
    (hshallow : stage = .check → shallow p.graph l.states = true)
    (h : actStage rt p s l stage answer = some (s', k')) :
    Kept p.graph s' ∧ FitCall p.graph s'.nodes k' := by
  obtain ⟨hiter, hfit⟩ := hfit
  cases stage with
  | check =>
    have hstates := hsound.states rfl
    rw [WorkflowExecution.actStage] at h
    split_ifs at h <;> cases h
    · exact ⟨hkept, rfl, fun houtcome => by cases houtcome⟩
    · have hpruning := hkept.pruning (hstates ▸ hshallow rfl)
      rw [← hstates] at hpruning
      exact ⟨hkept, hiter, hpruning⟩
  | prune view todo =>
    cases h
    exact ⟨hkept, fit_prune hfit hiter⟩
  | process todo =>
    have hvisit : visit rt p s l todo = (s', k') := Option.some.inj h
    have hsame : (visit rt p s l todo).1.nodes = s.nodes ∧ (visit rt p s l todo).1.status = s.status := by
      cases todo <;> exact ⟨rfl, rfl⟩
    have hcall : FitCall p.graph s.nodes (visit rt p s l todo).2 :=
      fit_visit (fun node hnode => hplain node (hsound.mem node hnode)) hkept.length_le hfit.1 hfit.2 hiter
    rw [hvisit] at hsame hcall
    exact ⟨hkept.of_same hsame.1 hsame.2, hsame.1 ▸ hcall⟩
  | dispatch node attempt todo =>
    cases h
    exact ⟨hkept.of_same rfl rfl, hiter, hfit⟩
  | calling node attempt todo =>
    obtain ⟨ok, -, h⟩ := Option.map_eq_some_iff.1 h
    cases h
    exact ⟨hkept, fit_retry hiter hfit⟩
  | find job =>
    cases h
    exact ⟨hkept, hiter, hfit⟩
  | write job existing =>
    have hstates := hsound.states rfl
    have hfresh := hsound.fresh job.node List.mem_cons_self
    cases hsound.found job existing rfl
    cases h
    refine ⟨hkept.append (hsound.mem job.node List.mem_cons_self) hfresh (hstates ▸ hfit.justified) rfl rfl, ?_⟩
    exact fit_afterWrite hfit (by rw [hstates, loadStates_eq_none]; exact hfresh) hiter
  | finish failed =>
    cases h
    refine ⟨hkept.of_same rfl rfl, ?_⟩
    cases failed with
    | true => exact ⟨rfl, fun houtcome => by cases houtcome⟩
    | false =>
      refine ⟨rfl, fun _ node hnode => ?_⟩
      rw [← loadStates_eq_none, ← hsound.states rfl]
      exact hfit node hnode
  | save _ | approval _ | park _ | start _ => exact hfit.elim

/-! ### Calls -/

/-- What is in a call that does not run the execution. -/
def aside : Call → Bool
  | .idle | .woken _ | .deciding _ _ | .expiring | .resume _ | .flag => true
  | _ => false

theorem aside_of_asks (h : asks k = true) : aside k = true := by
  cases k with
  | woken _ | deciding _ _ | expiring | resume _ => rfl
  | _ => cases h

/-- While nothing is parked, such a call can only ask for the run to be cancelled. -/
theorem aside_step (haside : aside k = true) (hawake : s.status.isWaiting = false)
    (hout : fromOutside k answer = true) (h : act rt p s k answer = some (s', k')) :
    aside k' = true ∧ s'.nodes = s.nodes ∧ (s'.status = s.status ∨ s'.status = .cancelling) := by
  cases k with
  | idle =>
    obtain ⟨rfl, hasks | ⟨nodeId, port, rfl, -⟩ | ⟨-, rfl⟩⟩ := begin_cases h
    · exact ⟨aside_of_asks hasks, rfl, .inl rfl⟩
    · cases hout
    · rw [hawake]
      exact ⟨rfl, rfl, .inl rfl⟩
  | woken eventKey =>
    cases h
    refine ⟨?_, rfl, .inl rfl⟩
    split_ifs <;> rfl
  | resume port =>
    cases h
    rw [hawake]
    exact ⟨rfl, rfl, .inl rfl⟩
  | deciding _ _ | expiring =>
    cases h
    exact ⟨rfl, rfl, .inl rfl⟩
  | flag =>
    cases h
    exact ⟨rfl, rfl, .inr rfl⟩
  | _ => cases haside

theorem fit_of_aside (h : aside k = true) : FitCall g rows k := by
  cases k with
  | idle | woken _ | deciding _ _ | expiring | resume _ | flag => trivial
  | _ => cases h

theorem Kept.of_status (h : Kept g s) (hnodes : s'.nodes = s.nodes) (hawake : s'.status.isWaiting = false)
    (hcomplete : s'.status = .completed → ∀ node ∈ g.nodes, ¬ Fresh s.nodes node.id) : Kept g s' where
  tidy := hnodes ▸ h.tidy
  justified := hnodes ▸ h.justified
  awake := hawake
  complete := hnodes ▸ hcomplete

/-- Nothing was left running, so a restart changes no row. -/
theorem Kept.interrupt (h : Kept g s) : s.nodes.map NodeExecution.interrupt = s.nodes := by
  have hsame : ∀ row ∈ s.nodes, row.interrupt = id row := by
    intro row hrow
    have hstored := h.tidy.stored row hrow
    unfold NodeExecution.interrupt
    split_ifs with hrunning
    · rw [hrunning] at hstored
      cases hstored
    · rfl
  rw [List.map_congr_left hsame, List.map_id]

/-- One step of the worker. -/
theorem Kept.act (hkept : Kept p.graph s) (hplain : ∀ node ∈ p.graph.nodes, node.pauses = false)
    (hsound : SoundCall p.graph s.nodes k) (hfit : FitCall p.graph s.nodes k)
    (hshallow : ∀ l, k = .loop l .check → shallow p.graph l.states = true)
    (hout : fromOutside k answer = true) (h : act rt p s k answer = some (s', k')) :
    Kept p.graph s' ∧ FitCall p.graph s'.nodes k' := by
  cases haside : aside k with
  | true =>
    obtain ⟨haside', hnodes, hstatus⟩ := aside_step haside hkept.awake hout h
    refine ⟨?_, fit_of_aside haside'⟩
    rcases hstatus with hstatus | hstatus
    · exact hkept.of_same hnodes hstatus
    · exact hkept.of_status hnodes (by rw [hstatus]; rfl) (by simp [hstatus])
  | false =>
    cases k with
    | loop l stage =>
      exact hkept.actStage hplain hsound hfit (fun hcheck => hshallow l (by rw [hcheck])) h
    | booting =>
      obtain ⟨found, -, h⟩ := Option.map_eq_some_iff.1 h
      cases h
      refine ⟨hkept, ?_⟩
      split_ifs <;> trivial
    | interrupting =>
      cases h
      exact ⟨hkept.of_same hkept.interrupt rfl, trivial⟩
    | load =>
      cases h
      refine ⟨hkept, ?_⟩
      split_ifs <;> trivial
    | loadStates saved =>
      obtain ⟨grant, -, h⟩ := Option.map_eq_some_iff.1 h
      cases h
      exact ⟨hkept, rfl⟩
    | setRunning l =>
      cases h
      exact ⟨hkept.of_status rfl rfl (by simp), hfit.le.trans (Nat.zero_le _), trivial⟩
    | finalize outcome =>
      cases h
      exact ⟨hkept.of_status rfl hfit.1 hfit.2, trivial⟩
    | finding _ | advance _ _ | unpark => exact hfit.elim
    | idle | woken _ | deciding _ _ | expiring | resume _ | flag => cases haside

end Steps

section Runs

variable {rt : Runtime} {p : Pinned} {c : Config} {s s' : Execution} {k k' : Handler}
  {answer : Option Answer}

theorem handle_cases (h : handle rt p s k answer = some (s', k')) : k'.isWorker = k.isWorker ∧
    ((k.isWorker = true ∧ s' = s ∧ k'.call = .booting) ∨
      ∃ given, fromOutside k.call given = true ∧ act rt p s k.call given = some (s', k'.call)) := by
  cases answer with
  | none =>
    rw [handle] at h
    split_ifs at h with hworker
    cases h
    exact ⟨rfl, .inl ⟨hworker, rfl, rfl⟩⟩
  | some given =>
    rw [handle] at h
    split_ifs at h with hout
    obtain ⟨next, hact, h⟩ := Option.map_eq_some_iff.1 h
    cases h
    exact ⟨rfl, .inr ⟨given, hout, hact⟩⟩

/-- What holds in every state of a run: only the first call works on the execution. -/
structure Runs (g : WorkflowGraph) (c : Config) : Prop where
  kept : Kept g c.store
  worker : ∀ i, (c.call i).isWorker = true → i = 0
  sound : SoundCall g c.store.nodes (c.call 0).call
  fit : FitCall g c.store.nodes (c.call 0).call
  aside : ∀ i, i ≠ 0 → aside (c.call i).call = true

theorem runs_enqueued {g : WorkflowGraph} : Runs g enqueued where
  kept := ⟨⟨List.nodup_nil, by simp [enqueued, queued]⟩, by simp [enqueued, queued], rfl, by simp [enqueued, queued]⟩
  worker i hworker := of_decide_eq_true hworker
  sound := trivial
  fit := trivial
  aside i hi := by
    simp only [enqueued, if_neg hi]
    rfl

/-- A step of the first call. -/
theorem Runs.own (hnodup : (p.graph.nodes.map (·.id)).Nodup)
    (hplain : ∀ node ∈ p.graph.nodes, node.pauses = false) (h : Runs p.graph c)
    (hplanned : planned p.graph c.store (c.call 0) answer = true)
    (hact : handle rt p c.store (c.call 0) answer = some (s', k')) :
    Kept p.graph s' ∧ SoundCall p.graph s'.nodes k'.call ∧ FitCall p.graph s'.nodes k'.call := by
  obtain ⟨-, ⟨-, rfl, hcall⟩ | ⟨given, hout, hact⟩⟩ := handle_cases hact
  · rw [hcall]
    exact ⟨h.kept, trivial, trivial⟩
  · have hshallow : ∀ l, (c.call 0).call = .loop l .check → shallow p.graph l.states = true := by
      intro l hcheck
      rw [planned, hcheck] at hplanned
      exact hplanned
    obtain ⟨hkept, hfit⟩ := h.kept.act hplain h.sound h.fit hshallow hout hact
    exact ⟨hkept, (soundCall_step hnodup h.kept.tidy h.sound hact).2, hfit⟩

theorem Runs.other {i : ℕ} (h : Runs p.graph c) (hi : i ≠ 0)
    (hact : handle rt p c.store (c.call i) answer = some (s', k')) :
    Kept p.graph s' ∧ s'.nodes = c.store.nodes ∧ AccountedRuns.aside k'.call = true := by
  obtain ⟨-, ⟨hworker, -, -⟩ | ⟨given, hout, hact⟩⟩ := handle_cases hact
  · exact absurd (h.worker i hworker) hi
  · obtain ⟨haside, hnodes, hstatus⟩ := aside_step (h.aside i hi) h.kept.awake hout hact
    refine ⟨?_, hnodes, haside⟩
    rcases hstatus with hstatus | hstatus
    · exact h.kept.of_same hnodes hstatus
    · exact h.kept.of_status hnodes (by rw [hstatus]; rfl) (by simp [hstatus])

theorem Runs.step (hnodup : (p.graph.nodes.map (·.id)).Nodup)
    (hplain : ∀ node ∈ p.graph.nodes, node.pauses = false) (h : Runs p.graph c) {i : ℕ}
    (hplanned : planned p.graph c.store (c.call i) answer = true)
    (hact : handle rt p c.store (c.call i) answer = some (s', k')) :
    Runs p.graph ⟨s', Function.update c.call i k'⟩ := by
  have hworker : ∀ j, (Function.update c.call i k' j).isWorker = true → j = 0 := by
    intro j hj
    by_cases hji : j = i
    · rw [hji, Function.update_self, (handle_cases hact).1] at hj
      exact hji.trans (h.worker i hj)
    · rw [Function.update_of_ne hji] at hj
      exact h.worker j hj
  by_cases hi : i = 0
  · subst hi
    obtain ⟨hkept, hsound, hfit⟩ := h.own hnodup hplain hplanned hact
    refine ⟨hkept, hworker, ?_, ?_, fun j hj => ?_⟩ <;> dsimp only
    · rwa [Function.update_self]
    · rwa [Function.update_self]
    · rw [Function.update_of_ne hj]
      exact h.aside j hj
  · obtain ⟨hkept, hnodes, haside⟩ := h.other hi hact
    refine ⟨hkept, hworker, ?_, ?_, fun j hj => ?_⟩ <;> dsimp only
    · rw [Function.update_of_ne (Ne.symm hi)]
      exact hnodes ▸ h.sound
    · rw [Function.update_of_ne (Ne.symm hi)]
      exact hnodes ▸ h.fit
    · by_cases hji : j = i
      · rw [hji, Function.update_self]
        exact haside
      · rw [Function.update_of_ne hji]
        exact h.aside j hj

theorem Runs.accounts {g : WorkflowGraph} (hnodup : (g.nodes.map (·.id)).Nodup) (h : Runs g c) (i : ℕ) :
    Accounts g c.store (c.call i).call := by
  have hloop : ∀ l stage, (c.call i).call = .loop l stage → i = 0 := by
    intro l stage hcall
    by_contra hi
    have haside := h.aside i hi
    rw [hcall] at haside
    cases haside
  refine ⟨fun l stage hcall => ?_, fun l hcall => ?_, fun l hcall => ?_, fun hcompleted node hnode => ?_⟩
  · cases hloop l stage hcall
    have hfit := h.fit
    rw [hcall] at hfit
    have hlength := h.kept.length_le
    have hiter := hfit.1
    rw [maxIterations]
    omega
  · cases hloop l _ hcall
    have hfit := h.fit
    rw [hcall] at hfit
    exact hfit.2
  · cases hloop l _ hcall
    have hfit := h.fit
    have hsound := h.sound
    rw [hcall] at hfit hsound
    rw [hsound.states rfl]
    refine h.kept.quiescent (List.filter_eq_nil_iff.2 fun node hnode hverdict => ?_)
    have hpending := pending_of_verdict (.inl (of_decide_eq_true hverdict))
    exact hfit.2 node hnode (hsound.states rfl ▸ loadStates_eq_none.2 (fresh_of_pending h.kept.tidy hpending))
  · obtain ⟨row, hrow, hid⟩ : ∃ row ∈ c.store.nodes, row.nodeId = node.id := by
      simpa [Fresh] using h.kept.complete hcompleted node hnode
    obtain ⟨other, hother, hsame, hjustified⟩ := h.kept.justified row hrow
    have hnode : other = node := List.inj_on_of_nodup_map hnodup hother hnode (hsame.trans hid)
    subst hnode
    exact hjustified.accounted (hid ▸ loadStates_of_mem h.kept.tidy hrow)

/-- The loop comes to its end, and never by the bound on the waves; and where every wave is planned
where it is shallow, a run that has completed accounts for every node. -/
theorem accounts_of_shallow (rt : Runtime) (options : ValidateOptions) (graph : StoredGraph)
    (hvalid : isValid rt nodeRegistry options graph = true) (inputContext : List (String × Value)) (depth : ℕ)
    (hplain : ∀ node ∈ (executedGraph graph rt).nodes, node.pauses = false) (c : Config)
    (h : Run (guarded (planned (executedGraph graph rt)) (handle rt (pinnedTo rt graph inputContext depth)))
      (fun _ _ => True) enqueued c) :
    WellFounded (LoopStep rt (pinnedTo rt graph inputContext depth)) ∧
      ∀ i, Accounts (executedGraph graph rt) c.store (c.call i).call := by
  have hnodup : ((executedGraph graph rt).nodes.map (·.id)).Nodup := by
    have hnodup := (wellFormed_of_isValid hvalid).nodup
    rwa [executedGraph, resolveGraph, List.map_map]
  have hruns : Runs (executedGraph graph rt) c := by
    refine h.invariant runs_enqueued ?_
    rintro c i answer s k hc - hact
    obtain ⟨hplanned, hact⟩ := guarded_eq_some.1 hact
    exact hc.step (p := pinnedTo rt graph inputContext depth) hnodup hplain hplanned hact
  exact ⟨loopStep_wellFounded rt _, hruns.accounts hnodup⟩

end Runs

/-- A question that is answered by `true`, and a chain of nodes below its other answer. -/
def asking (below : List String) : StoredGraph where
  schemaVersion := 1
  nodes :=
    [{ id := "start", type := "trigger.manual" }, { id := "ask", type := "control.condition" },
     { id := "yes", type := "control.end" }] ++
      below.map fun id => { id, type := "control.transform" }
  edges :=
    [{ id := "e1", sourceNodeId := "start", sourcePort := some "out", targetNodeId := "ask" },
     { id := "e2", sourceNodeId := "ask", sourcePort := some "true", targetNodeId := "yes" }] ++
      (("ask" :: below).zip below).map fun ends =>
        { id := ends.2, sourceNodeId := ends.1, targetNodeId := ends.2
          sourcePort := some (if ends.1 = "ask" then "false" else "out") }

def worked (n : ℕ) : List (ℕ × Option Answer) := (loaded n).map fun next => (0, next.2)

/-- With two nodes below, the second is pruned when nothing is ready any more, and is the last. -/
theorem two_accounted : ∃ c, Run (guarded (planned (executedGraph (asking ["no", "mid"]) .ascii))
      (handle .ascii (pinnedTo .ascii (asking ["no", "mid"]) [] 0))) (fun _ _ => True) enqueued c ∧
    c.store.status = .completed ∧ WellFounded (LoopStep .ascii (pinnedTo .ascii (asking ["no", "mid"]) [] 0)) ∧
    ∀ i, Accounts (executedGraph (asking ["no", "mid"]) .ascii) c.store (c.call i).call := by
  obtain ⟨c, hrun, hc⟩ := run_of_exec_any (guarded (planned (executedGraph (asking ["no", "mid"]) .ascii))
      (handle .ascii (pinnedTo .ascii (asking ["no", "mid"]) [] 0))) (fun _ _ => True) enqueued (worked 29)
    (fun c => c.store.status = .completed) (by decide +kernel)
  refine ⟨c, hrun, of_decide_eq_true hc, ?_⟩
  exact accounts_of_shallow .ascii {} (asking ["no", "mid"]) (by decide +kernel) [] 0
    (List.forall_iff_forall_mem.1 (by decide +kernel)) c hrun

/-- With a third node below them the run completes, and leaves it without a row. -/
theorem third_lost : isValid .ascii nodeRegistry {} (asking ["no", "mid", "later"]) = true ∧
    (∀ node ∈ (executedGraph (asking ["no", "mid", "later"]) .ascii).nodes, node.pauses = false) ∧
    ∃ c, Run (handle .ascii (pinnedTo .ascii (asking ["no", "mid", "later"]) [] 0)) (fun _ _ => True)
        enqueued c ∧ c.store.status = .completed ∧
      ¬ Accounts (executedGraph (asking ["no", "mid", "later"]) .ascii) c.store (c.call 0).call := by
  obtain ⟨c, hrun, hc⟩ := run_of_exec_any
    (handle .ascii (pinnedTo .ascii (asking ["no", "mid", "later"]) [] 0)) (fun _ _ => True) enqueued
    (worked 29) (fun c => c.store.status = .completed && (loadStates c.store.nodes "later").isNone)
    (by decide +kernel)
  rw [Bool.and_eq_true, decide_eq_true_eq, Option.isNone_iff_eq_none] at hc
  refine ⟨by decide +kernel, List.forall_iff_forall_mem.1 (by decide +kernel), c, hrun, hc.1, fun h => ?_⟩
  obtain ⟨state, hstate, -⟩ := h.accounted hc.1
    (resolve .ascii nodeRegistry { id := "later", type := "control.transform" }) (by
      simp [executedGraph, resolveGraph, asking])
  rw [show (resolve .ascii nodeRegistry { id := "later", type := "control.transform" }).id = "later" from rfl,
    hc.2] at hstate
  cases hstate

end UltraTorrent.Workflows.AccountedRuns
