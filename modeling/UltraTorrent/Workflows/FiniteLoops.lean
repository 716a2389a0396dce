import Mathlib.Data.Prod.Lex
import Mathlib.Data.Rat.Floor
import UltraTorrent.Workflows.LoopInvariant

/-! A run loop cannot go on for ever: whatever its calls are answered, and whatever happens to the
rows meanwhile, it comes to its end. -/
namespace UltraTorrent.Workflows.FiniteLoops

open Library.EcmaScript GraphTypes WorkflowExecution LoopInvariant

/-- A step of the loop after which it goes on. -/
def LoopStep (rt : Runtime) (p : Pinned) (next now : Loop × Stage) : Prop :=
  ∃ s s' answer, act rt p s (.loop now.1 now.2) answer = some (s', .loop next.1 next.2)

/-! ### The measure -/

/-- The nodes of the wave still to come when a row is written, and the part of the wave it is in. -/
def leftAfter : Next → ℕ × ℕ
  | .pruned _ todo => (2, todo.length)
  | .processed _ todo => (1, todo.length)
  | .armed => (0, 0)

/-- The part of the wave, and the nodes still to come in it. -/
def left : Stage → ℕ × ℕ
  | .check => (3, 0)
  | .prune _ todo => (2, todo.length)
  | .process todo | .dispatch _ _ todo | .calling _ _ todo => (1, todo.length)
  | .find job | .write job _ => leftAfter job.next
  | .save _ | .approval _ | .park _ | .start _ | .finish _ => (0, 0)

def attemptsLeft : Stage → ℕ
  | .dispatch node attempt _ | .calling node attempt _ => ⌊node.attemptLimit⌋₊ + 1 - attempt
  | _ => 0

/-- The steps to the end of what is done for one node. -/
def position : Stage → ℕ
  | .save _ => 8
  | .dispatch _ _ _ => 7
  | .calling _ _ _ => 6
  | .find _ => 5
  | .write _ _ => 4
  | .approval _ => 3
  | .park _ => 2
  | .start _ => 1
  | _ => 0

/-- Waves, the part of the wave, its nodes, the attempts of an action, and its single steps. -/
def height (g : WorkflowGraph) (now : Loop × Stage) : ℕ ×ₗ ℕ ×ₗ ℕ ×ₗ ℕ ×ₗ ℕ :=
  toLex (maxIterations g - now.1.iter, toLex ((left now.2).1, toLex ((left now.2).2,
    toLex (attemptsLeft now.2, position now.2))))

section Height

variable {rt : Runtime} {p : Pinned} {s s' : Execution} {l l' : Loop} {stage stage' : Stage}
  {answer : Answer} {g : WorkflowGraph}

/-- A wave goes on in a lower part, with fewer nodes, or with the same ones and fewer steps. -/
theorem height_lt (hiter : l'.iter = l.iter)
    (h : (left stage').1 < (left stage).1 ∨ (left stage').1 = (left stage).1 ∧
      ((left stage').2 < (left stage).2 ∨ (left stage').2 = (left stage).2 ∧
        (attemptsLeft stage' < attemptsLeft stage ∨ attemptsLeft stage' = attemptsLeft stage ∧
          position stage' < position stage))) :
    height g (l', stage') < height g (l, stage) := by
  simp only [height, Prod.Lex.toLex_lt_toLex, hiter, lt_irrefl, true_and, false_or]
  exact h

theorem height_again (hnext : again g l = .loop l' stage') (hpart : 0 < (left stage).1) :
    height g (l', stage') < height g (l, stage) := by
  unfold again at hnext
  split_ifs at hnext with hbound
  · cases hnext
    refine Prod.Lex.toLex_lt_toLex.2 (.inl ?_)
    show maxIterations g - (l.iter + 1) < maxIterations g - l.iter
    omega
  · cases hnext
    exact height_lt rfl (.inl hpart)

theorem height_prune {view : ExecutionPlanner.PlannerView} {todo : List WorkflowNode}
    (hnext : prune g l view todo = .loop l' stage') :
    height g (l', stage') < height g (l, .prune view todo) := by
  cases todo with
  | nil =>
    unfold prune afterPrune at hnext
    split_ifs at hnext
    · cases hnext
      exact height_lt rfl (by simp [left])
    · exact height_again hnext (by simp [left])
    · cases hnext
      exact height_lt rfl (by simp [left])
  | cons node todo =>
    rw [prune] at hnext
    split_ifs at hnext <;> cases hnext <;> exact height_lt rfl (by simp [left, leftAfter])

theorem process_iter (rt : Runtime) (p : Pinned) (l : Loop) (node : WorkflowNode)
    (todo : List WorkflowNode) : (process rt p l node todo).1.iter = l.iter := by
  unfold process
  split_ifs
  · rfl
  · cases refusal p.graph l node <;> rfl
  · rfl

theorem height_visit {todo : List WorkflowNode} (hnext : (visit rt p s l todo).2 = .loop l' stage') :
    height p.graph (l', stage') < height p.graph (l, .process todo) := by
  cases todo with
  | nil => exact height_again hnext (by simp [left])
  | cons node todo =>
    cases hnext
    refine height_lt (process_iter rt p l node todo) ?_
    rcases process_cases rt p l node todo with h | h | ⟨outcome, h⟩ <;> rw [h] <;>
      simp [left, Outcome.persist, leftAfter]

theorem height_retry {node : WorkflowNode} {attempt : ℕ} {ok : Bool} {todo : List WorkflowNode} :
    height g (l, retry g node attempt ok todo) < height g (l, .calling node attempt todo) := by
  rcases retry_cases g node attempt ok todo with ⟨h, hlimit⟩ | ⟨outcome, h⟩ <;> rw [h]
  · have hfloor : attempt + 1 ≤ ⌊node.attemptLimit⌋₊ := Nat.le_floor hlimit
    refine height_lt rfl (.inr ⟨rfl, .inr ⟨rfl, .inl ?_⟩⟩)
    show ⌊node.attemptLimit⌋₊ + 1 - (attempt + 1) < ⌊node.attemptLimit⌋₊ + 1 - attempt
    omega
  · refine height_lt rfl (.inr ⟨rfl, .inr ⟨rfl, ?_⟩⟩)
    show 0 < ⌊node.attemptLimit⌋₊ + 1 - attempt ∨ 0 = ⌊node.attemptLimit⌋₊ + 1 - attempt ∧ 5 < 6
    omega

theorem height_afterWrite {job : Persist} {existing : Option ℕ} (hnext : afterWrite l job = .loop l' stage') :
    height g (l', stage') < height g (l, .write job existing) := by
  obtain ⟨node, state, next⟩ := job
  cases next with
  | pruned view todo =>
    cases hnext
    exact height_lt rfl (by simp [left, leftAfter, attemptsLeft, position])
  | processed stops todo =>
    cases hnext
    refine height_lt rfl ?_
    cases stops <;> simp [left, leftAfter, attemptsLeft, position]
  | armed =>
    unfold afterWrite at hnext
    dsimp only at hnext
    split_ifs at hnext <;> cases hnext <;>
      exact height_lt rfl (by simp [left, leftAfter, attemptsLeft, position])

theorem height_step (h : act rt p s (.loop l stage) answer = some (s', .loop l' stage')) :
    height p.graph (l', stage') < height p.graph (l, stage) := by
  cases stage with
  | check =>
    rw [act, actStage] at h
    split_ifs at h <;> cases h
    exact height_lt rfl (by simp [left])
  | prune view todo => exact height_prune (congrArg Prod.snd (Option.some.inj h))
  | process todo => exact height_visit (congrArg Prod.snd (Option.some.inj h))
  | calling node attempt todo =>
    obtain ⟨ok, -, h⟩ := Option.map_eq_some_iff.1 h
    cases h
    exact height_retry
  | write job existing => exact height_afterWrite (congrArg Prod.snd (Option.some.inj h))
  | park node =>
    obtain ⟨now, -, h⟩ := Option.map_eq_some_iff.1 h
    have hnext : afterPark p l node = .loop l' stage' := congrArg Prod.snd h
    unfold afterPark at hnext
    split_ifs at hnext
    cases hnext
    exact height_lt rfl (by simp [left, attemptsLeft, position])
  | start node =>
    obtain ⟨ok, -, h⟩ := Option.map_eq_some_iff.1 h
    have hnext : (if ok then Call.idle else .advance node.id "failure") = .loop l' stage' := congrArg Prod.snd h
    split_ifs at hnext
  | finish failed => cases h
  | dispatch _ _ _ | save _ | find _ | approval _ =>
    cases h
    exact height_lt rfl (by simp [left, leftAfter, attemptsLeft, position])

end Height

theorem loopStep_wellFounded (rt : Runtime) (p : Pinned) : WellFounded (LoopStep rt p) := by
  refine Subrelation.wf ?_ (InvImage.wf (height p.graph) wellFounded_lt)
  rintro next now ⟨s, s', answer, h⟩
  exact height_step h

end UltraTorrent.Workflows.FiniteLoops
