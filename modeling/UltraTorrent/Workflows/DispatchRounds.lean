import UltraTorrent.Library.Interleaving
import UltraTorrent.Workflows.LoopInvariant

/-! How often the action of a node is called when the process crashes and boots again. Nothing is
written before a call is made, so until the node has its row nothing tells a restart of it. -/
namespace UltraTorrent.Workflows.DispatchRounds

open Library.EcmaScript Library.Interleaving GraphTypes ExecutionPlanner WorkflowStatus
  WorkflowExecution LoopInvariant

/-- An execution as `start` creates it. -/
def queued : Execution where
  status := .queued
  vars := none
  resumeAt := none
  expiresAt := none
  nodes := []
  approvals := []
  visits _ := 0
  rounds _ := 0
  calls _ := 0
  resumed := []
  asked := 0

/-- A step of what works on the execution, or a crash, after which the boot comes to it. -/
def crashing (rt : Runtime) (p : Pinned) (s : Execution) (k : Call) :
    Option Answer → Option (Execution × Call)
  | some answer => act rt p s k answer
  | none => some (s, .booting)

/-- The node that is dispatched, or whose row is about to be written. -/
def working : Call → Option String
  | .loop _ (.dispatch node _ _) | .loop _ (.calling node _ _) => some node.id
  | .loop _ (.find job) | .loop _ (.write job _) => some job.node.id
  | _ => none

/-- The action of a node was called, and the node has no row yet. -/
def exposed (s : Execution) (k : Call) : Bool := (working k).any fun id => 0 < s.calls id

/-- No crash comes between the first call of an action and the row of its node. -/
def unexposed (s : Execution) (k : Call) (answer : Option Answer) : Bool :=
  answer.isSome || !exposed s k

abbrev Config := Library.Interleaving.Config Unit Execution Call

def started : Config := ⟨queued, fun _ => .load⟩

/-- The rounds and the calls of the actions, against what the loop is about to do. -/
structure Counted (g : WorkflowGraph) (s : Execution) (k : Call) : Prop where
  unused : ∀ id, Fresh s.nodes id → working k ≠ some id → s.calls id = 0
  noRound : ∀ id, s.calls id = 0 → s.rounds id = 0
  rounds : ∀ id, s.rounds id ≤ 1
  calls : ∀ node ∈ g.nodes, (s.calls node.id : ℚ) ≤ node.attemptLimit
  dispatching : ∀ l node attempt todo, k = .loop l (.dispatch node attempt todo) →
    s.calls node.id + 1 = attempt ∧ (attempt : ℚ) ≤ node.attemptLimit
  calling : ∀ l node attempt todo, k = .loop l (.calling node attempt todo) →
    s.calls node.id = attempt

variable {rt : Runtime} {p : Pinned} {s s' : Execution} {k k' : Call} {answer : Answer} {l : Loop}
  {node : WorkflowNode} {attempt : ℕ} {todo : List WorkflowNode}

theorem one_le_attemptLimit (node : WorkflowNode) : 1 ≤ node.attemptLimit := le_max_left _ _

/-! ### Steps -/

/-- Only the call of an action counts. -/
theorem counters_step (h : act rt p s k answer = some (s', k')) :
    (∃ l node attempt todo, k = .loop l (.dispatch node attempt todo)) ∨
      s'.calls = s.calls ∧ s'.rounds = s.rounds := by
  cases k with
  | idle =>
    rw [begin_fst h]
    exact .inr ⟨rfl, rfl⟩
  | booting | loadStates _ =>
    obtain ⟨_, -, h⟩ := Option.map_eq_some_iff.1 h
    cases h
    exact .inr ⟨rfl, rfl⟩
  | loop l stage =>
    cases stage with
    | dispatch node attempt todo => exact .inl ⟨l, node, attempt, todo, rfl⟩
    | check =>
      rw [act, actStage] at h
      split_ifs at h <;> cases h <;> exact .inr ⟨rfl, rfl⟩
    | process todo =>
      cases todo <;> cases h <;> exact .inr ⟨rfl, rfl⟩
    | calling _ _ _ | start _ =>
      obtain ⟨_, -, h⟩ := Option.map_eq_some_iff.1 h
      cases h
      exact .inr ⟨rfl, rfl⟩
    | park node =>
      obtain ⟨now, -, h⟩ := Option.map_eq_some_iff.1 h
      cases h
      refine .inr ?_
      unfold Execution.park
      dsimp only
      split <;> exact ⟨rfl, rfl⟩
    | _ =>
      cases h
      exact .inr ⟨rfl, rfl⟩
  | _ =>
    cases h
    exact .inr ⟨rfl, rfl⟩

/-- An action that is about to be called, or has been and is not answered yet. -/
def underway : Call → Option (WorkflowNode × ℕ × Bool)
  | .loop _ (.dispatch node attempt _) => some (node, attempt, false)
  | .loop _ (.calling node attempt _) => some (node, attempt, true)
  | _ => none

theorem underway_of_routine (h : isRoutine k = true) : underway k = none := by
  cases k with
  | loop l stage => cases stage <;> first | rfl | cases h
  | _ => cases h

theorem underway_afterWrite {job : Persist} : underway (afterWrite l job) = none := by
  rcases afterWrite_cases l job with h | h | h
  · exact underway_of_routine h
  · rw [h]
    rfl
  · rw [h]
    rfl

theorem isBusy_of_underway (h : underway k ≠ none) : isBusy k = true := by
  cases k with
  | loop l stage => cases stage <;> first | rfl | exact absurd rfl h
  | _ => exact absurd rfl h

/-- A node that the loop comes to begins with its first attempt. -/
theorem underway_process {other : WorkflowNode} {sent : Bool}
    (h : underway (.loop (process rt p l node todo).1 (process rt p l node todo).2) =
      some (other, attempt, sent)) : other = node ∧ attempt = 1 ∧ sent = false := by
  rcases process_cases rt p l node todo with hnext | hnext | ⟨outcome, hnext⟩ <;> rw [hnext] at h <;>
    cases h
  exact ⟨rfl, rfl, rfl⟩

theorem underway_step {sent : Bool} (h : act rt p s k answer = some (s', k'))
    (hunderway : underway k' = some (node, attempt, sent)) :
    (sent = true ∧ ∃ l todo, k = .loop l (.dispatch node attempt todo)) ∨
      sent = false ∧ ((attempt = 1 ∧ ∃ l todo, k = .loop l (.process (node :: todo))) ∨
        ∃ l before todo, k = .loop l (.calling node before todo) ∧ attempt = before + 1 ∧
          ((before + 1 : ℕ) : ℚ) ≤ node.attemptLimit) := by
  cases busies_of_act h (isBusy_of_underway (by simp [hunderway])) with
  | prune l view todo =>
    rw [underway_of_routine isRoutine_prune] at hunderway
    cases hunderway
  | visit l todo =>
    cases todo with
    | nil =>
      rw [show underway (visit rt p s l []).2 = none from underway_of_routine isRoutine_again] at hunderway
      cases hunderway
    | cons node' todo =>
      obtain ⟨rfl, rfl, rfl⟩ := underway_process hunderway
      exact .inr ⟨rfl, .inl ⟨rfl, l, todo, rfl⟩⟩
  | dispatch _ l node' attempt' todo =>
    cases hunderway
    exact .inl ⟨rfl, l, todo, rfl⟩
  | retry l node' before ok todo =>
    unfold retry at hunderway
    split_ifs at hunderway with hok hlimit
    · cases hunderway
    · cases hunderway
      exact .inr ⟨rfl, .inr ⟨l, before, todo, rfl, rfl, hlimit⟩⟩
    · cases hunderway
  | write _ l job existing =>
    rw [underway_afterWrite] at hunderway
    cases hunderway
  | save _ _ _ | find _ _ | approval _ _ _ | start _ _ _ _ _ => cases hunderway

theorem working_retry {g : WorkflowGraph} {ok : Bool} :
    working (.loop l (retry g node attempt ok todo)) = some node.id := by
  rcases retry_cases g node attempt ok todo with ⟨hnext, -⟩ | ⟨outcome, hnext⟩ <;> rw [hnext] <;> rfl

theorem working_step (hsound : SoundCall p.graph s.nodes k) {id : String}
    (h : act rt p s k answer = some (s', k')) (hworking : working k = some id) :
    working k' = some id ∨ ¬ Fresh s'.nodes id := by
  cases k with
  | loop l stage =>
    cases stage with
    | dispatch node attempt todo =>
      cases h
      exact .inl hworking
    | calling node attempt todo =>
      obtain ⟨ok, -, h⟩ := Option.map_eq_some_iff.1 h
      cases h
      exact .inl (working_retry.trans hworking)
    | find job =>
      cases h
      exact .inl hworking
    | write job existing =>
      cases hsound.found job existing rfl
      cases h
      cases hworking
      exact .inr fun hfresh => hfresh _ (List.mem_append_right _ (List.mem_singleton_self _)) rfl
    | _ => cases hworking
  | _ => cases hworking

theorem bump_self {count : String → ℕ} {id : String} : bump count id id = count id + 1 :=
  Function.update_self _ _ _

theorem bump_of_ne {count : String → ℕ} {id other : String} (h : other ≠ id) :
    bump count id other = count other :=
  Function.update_of_ne h _ _

theorem Counted.dispatch (hnodup : (p.graph.nodes.map (·.id)).Nodup)
    (hsound : SoundCall p.graph s.nodes (.loop l (.dispatch node attempt todo)))
    (h : Counted p.graph s (.loop l (.dispatch node attempt todo)))
    (hact : act rt p s (.loop l (.dispatch node attempt todo)) answer = some (s', k')) :
    Counted p.graph s' k' := by
  obtain ⟨hattempt, hlimit⟩ := h.dispatching l node attempt todo rfl
  have hmem : node ∈ p.graph.nodes := hsound.mem node List.mem_cons_self
  cases hact
  refine ⟨fun id hfresh hworking => ?_, fun id hzero => ?_, fun id => ?_, fun other hother => ?_,
    fun l node attempt todo hcall => ?_, fun l' node' attempt' todo' hcall => ?_⟩ <;> dsimp only at *
  · have hid : id ≠ node.id := fun hid => hworking (congrArg some hid.symm)
    rw [bump_of_ne hid]
    exact h.unused id hfresh hworking
  · have hid : id ≠ node.id := by
      rintro rfl
      rw [bump_self] at hzero
      cases hzero
    rw [bump_of_ne hid] at hzero
    split_ifs
    · rw [bump_of_ne hid]
      exact h.noRound id hzero
    · exact h.noRound id hzero
  · split_ifs with hfirst
    · by_cases hid : id = node.id
      · have hzero : s.calls node.id = 0 := by omega
        rw [hid, bump_self, h.noRound node.id hzero]
      · rw [bump_of_ne hid]
        exact h.rounds id
    · exact h.rounds id
  · by_cases hid : other.id = node.id
    · rw [List.inj_on_of_nodup_map hnodup hother hmem hid, bump_self, hattempt]
      exact hlimit
    · rw [bump_of_ne hid]
      exact h.calls other hother
  · cases hcall
  · cases hcall
    rw [bump_self]
    exact hattempt

theorem Counted.step (hnodup : (p.graph.nodes.map (·.id)).Nodup) (hsound : SoundCall p.graph s.nodes k)
    (h : Counted p.graph s k) (hact : act rt p s k answer = some (s', k')) : Counted p.graph s' k' := by
  rcases counters_step hact with ⟨l, node, attempt, todo, rfl⟩ | ⟨hcalls, hrounds⟩
  · exact h.dispatch hnodup hsound hact
  · have hnone : ∀ l node attempt todo, k ≠ .loop l (.dispatch node attempt todo) := by
      rintro l node attempt todo rfl
      cases hact
      have hself : bump s.calls node.id node.id = s.calls node.id := congrFun hcalls node.id
      rw [bump_self] at hself
      omega
    refine ⟨fun id hfresh hworking => ?_, fun id hzero => ?_, fun id => ?_, fun node hnode => ?_,
      fun l node attempt todo hcall => ?_, fun l node attempt todo hcall => ?_⟩
    · rw [hcalls]
      refine h.unused id (hfresh.of_step hact) fun hid => ?_
      rcases working_step hsound hact hid with hid | hrow
      · exact hworking hid
      · exact hrow hfresh
    · rw [hcalls] at hzero
      rw [hrounds]
      exact h.noRound id hzero
    · rw [hrounds]
      exact h.rounds id
    · rw [hcalls]
      exact h.calls node hnode
    · rw [hcalls]
      have hunderway : underway k' = some (node, attempt, false) := by rw [hcall]; rfl
      rcases underway_step hact hunderway with
        ⟨hsent, -⟩ | ⟨-, ⟨rfl, l', todo', rfl⟩ | ⟨l', before, todo', rfl, rfl, hlimit⟩⟩
      · cases hsent
      · have hfresh := hsound.fresh node List.mem_cons_self
        rw [h.unused node.id hfresh (by simp [working])]
        exact ⟨rfl, by simpa using one_le_attemptLimit node⟩
      · exact ⟨congrArg (· + 1) (h.calling l' node before todo' rfl), hlimit⟩
    · have hunderway : underway k' = some (node, attempt, true) := by rw [hcall]; rfl
      rcases underway_step hact hunderway with ⟨-, l', todo', rfl⟩ | ⟨hsent, -⟩
      · exact absurd rfl (hnone l' node attempt todo')
      · cases hsent

theorem Counted.crash {g : WorkflowGraph} (h : Counted g s k) (hexposed : exposed s k = false) :
    Counted g s .booting where
  unused id hfresh _ := by
    by_cases hid : working k = some id
    · simpa [exposed, hid] using hexposed
    · exact h.unused id hfresh hid
  noRound := h.noRound
  rounds := h.rounds
  calls := h.calls
  dispatching l node attempt todo hcall := by cases hcall
  calling l node attempt todo hcall := by cases hcall

/-! ### Runs -/

theorem counted_started {g : WorkflowGraph} : Counted g queued .load where
  unused _ _ _ := rfl
  noRound _ _ := rfl
  rounds _ := Nat.zero_le 1
  calls node _ := by
    have h := one_le_attemptLimit node
    simp only [queued, Nat.cast_zero]
    linarith
  dispatching l node attempt todo hcall := by cases hcall
  calling l node attempt todo hcall := by cases hcall

/-- What a published execution is pinned to. -/
def pinned (g : PublishedGraph) (inputContext : List (String × Value)) : Pinned where
  graph := g.toWorkflowGraph
  inputContext := inputContext
  depth := 0

/-- Whatever crashes, as long as none comes between the first call of an action and the row of its
node, every node has one round, and no more calls than its policy allows. -/
theorem rounds_le_one {g : PublishedGraph} {inputContext : List (String × Value)} {c : Config}
    (h : Run (Library.Interleaving.guarded unexposed (crashing rt (pinned g inputContext)))
      (fun _ _ => True) started c) :
    ∀ node ∈ g.nodes, c.store.rounds node.id ≤ 1 ∧ (c.store.calls node.id : ℚ) ≤ node.attemptLimit := by
  have hinv : Tidy c.store.nodes ∧ SoundCall g.toWorkflowGraph c.store.nodes (c.call ()) ∧
      Counted g.toWorkflowGraph c.store (c.call ()) := by
    refine h.invariant (P := fun c => Tidy c.store.nodes ∧
      SoundCall g.toWorkflowGraph c.store.nodes (c.call ()) ∧
        Counted g.toWorkflowGraph c.store (c.call ())) ?_ ?_
    · exact ⟨⟨List.nodup_nil, by simp [started, queued]⟩, trivial, counted_started⟩
    · rintro c ⟨⟩ answer s' k' ⟨htidy, hsound, hcounted⟩ - hact
      obtain ⟨hunexposed, hact⟩ := guarded_eq_some.1 hact
      dsimp only
      rw [Function.update_self]
      cases answer with
      | none =>
        cases hact
        exact ⟨htidy, trivial, hcounted.crash (by simpa [unexposed] using hunexposed)⟩
      | some answer =>
        obtain ⟨htidy', hsound'⟩ := soundCall_step (p := pinned g inputContext) g.nodup htidy hsound hact
        exact ⟨htidy', hsound', hcounted.step (p := pinned g inputContext) g.nodup hsound hact⟩
  exact fun node hnode => ⟨hinv.2.2.rounds node.id, hinv.2.2.calls node hnode⟩

def manualTrigger : WorkflowNode where
  id := "trigger"
  definition := some ⟨.trigger, ["out"], none⟩

/-- An action that is tried once. -/
def moveAction : WorkflowNode where
  id := "move"
  definition := some ⟨.action, ["out", "failure"], some "move"⟩

def moving : PublishedGraph where
  nodes := [manualTrigger, moveAction]
  edges := [⟨"trigger", none, "move"⟩]
  nodup := by decide

def loaded (n : ℕ) : List (Unit × Option Answer) :=
  [((), some .go), ((), some (.grant none))] ++ List.replicate n ((), some .go)

/-- The boot finds the execution running, and runs it. -/
def reboot : List (Unit × Option Answer) :=
  [((), none), ((), some (.listed true)), ((), some .go)]

/-- A crash before the action is dispatched, and another one when its node has its row. -/
theorem moved_once : ∃ c, Run (Library.Interleaving.guarded unexposed
      (crashing .ascii (pinned moving []))) (fun _ _ => True) started c ∧
    (c.store.calls "move" = 1 ∧ c.store.status = .completed) ∧
    ∀ node ∈ moving.nodes, c.store.rounds node.id ≤ 1 ∧ (c.store.calls node.id : ℚ) ≤ node.attemptLimit := by
  obtain ⟨c, hrun, hc⟩ := run_of_exec_any (Library.Interleaving.guarded unexposed
      (crashing .ascii (pinned moving []))) (fun _ _ => True) started
    (loaded 6 ++ reboot ++ loaded 5 ++ [((), some (.action true)), ((), some .go), ((), some .go)] ++
      reboot ++ loaded 5)
    (fun c => c.store.calls "move" = 1 ∧ c.store.status = .completed) (by decide +kernel)
  exact ⟨c, hrun, of_decide_eq_true hc, rounds_le_one hrun⟩

/-- A crash while the action runs: nothing was written, and the boot dispatches it again. -/
theorem moved_twice : ¬ ∀ c, Run (crashing .ascii (pinned moving [])) (fun _ _ => True) started c →
    ∀ node ∈ moving.nodes, c.store.rounds node.id ≤ 1 ∧
      (c.store.calls node.id : ℚ) ≤ node.attemptLimit := by
  intro h
  obtain ⟨c, hrun, hc⟩ := run_of_exec_any (crashing .ascii (pinned moving [])) (fun _ _ => True)
    started (loaded 11 ++ reboot ++ loaded 5) (fun c => c.store.rounds "move" = 2) (by decide +kernel)
  have hrounds := (h c hrun moveAction (by simp [moving])).1
  rw [show moveAction.id = "move" from rfl, of_decide_eq_true hc] at hrounds
  omega

end UltraTorrent.Workflows.DispatchRounds
