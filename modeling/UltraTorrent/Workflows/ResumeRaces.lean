import Mathlib.Data.Fintype.Basic
import UltraTorrent.Workflows.DispatchRounds

/-! Several attempts to resume a parked execution at once. An attempt reads that the execution
waits, reads what it waits at, and only then writes; nothing keeps another from reading the same
in between. -/
namespace UltraTorrent.Workflows.ResumeRaces

open Library.EcmaScript Library.Interleaving GraphTypes ExecutionPlanner WorkflowStatus
  WorkflowExecution LoopInvariant
open DispatchRounds (manualTrigger)

/-- A call, and the node it is meant to resume. -/
structure Attempt where
  call : Call
  target : Option String

/-- An attempt is made on what the execution waits at; a loop can only take back the pause it has
armed. -/
def aim (s : Execution) (a : Attempt) : Option String :=
  match a.call with
  | .idle => findWaiting s.nodes
  | .loop _ (.park node) | .loop _ (.start node) => some node.id
  | _ => a.target

/-- Events, decisions and ticks resume; cancellations and children are not looked at here. -/
def resumes (_ : Execution) (a : Attempt) (answer : Answer) : Bool :=
  match a.call, answer with
  | .idle, .cancel | .idle, .childEnded _ _ => false
  | _, _ => true

def attempt (rt : Runtime) (p : Pinned) (s : Execution) (a : Attempt) (answer : Answer) :
    Option (Execution × Attempt) :=
  (act rt p s a.call answer).map fun next => (next.1, ⟨next.2, aim s a⟩)

/-- The call writes to the execution from here to the end of its run. -/
def working : Call → Bool
  | .advance _ _ | .unpark | .load | .loadStates _ | .setRunning _ | .loop _ _ | .finalize _ => true
  | _ => false

def isAttempt : Call → Bool
  | .booting | .interrupting | .flag => false
  | _ => true

def finds (s : Execution) : Call → Option String
  | .finding _ => findWaiting s.nodes
  | _ => none

variable {ι : Type*}

abbrev Config (ι : Type*) := Library.Interleaving.Config ι Execution Attempt

/-- An attempt finds the node it was made on, or none, and finds it when no other is working. -/
def Alone (c : Config ι) (i : ι) : Prop := ∀ id ∈ finds c.store (c.call i).call,
  (c.call i).target = some id ∧ ∀ j, j ≠ i → working (c.call j).call = false

instance [Fintype ι] [DecidableEq ι] (c : Config ι) (i : ι) : Decidable (Alone c i) :=
  inferInstanceAs (Decidable (∀ id ∈ finds c.store (c.call i).call, _))

/-- An execution parked at a node, which nothing has been counted of yet. -/
structure Parked (s : Execution) (w : String) : Prop where
  tidy : Tidy s.nodes
  waiting : s.status.isWaiting = true
  found : findWaiting s.nodes = some w
  resumed : s.resumed = []
  asked : s.asked = 0
  visits : ∀ id, s.visits id = 0

/-- What has been resumed has been resumed once, and fires the port it was resumed with. -/
structure Resumed (s : Execution) : Prop where
  nodup : (s.resumed.map Prod.fst).Nodup
  ports : ∀ e ∈ s.resumed, loadStates s.nodes e.1 = some ⟨.succeeded, [e.2]⟩

variable {rt : Runtime} {p : Pinned} {s s' : Execution} {k k' : Call} {answer : Answer} {l : Loop}
  {rows : List NodeExecution} {id : String}

/-! ### Rows -/

theorem loadStates_advance {nodeId port : String} :
    loadStates (rows.map (·.advance nodeId port)) id = (loadStates rows id).map fun state =>
      if id = nodeId then ⟨.succeeded, [port]⟩ else state := by
  have hpred : (fun row : NodeExecution => decide (row.nodeId = id)) ∘
      (NodeExecution.advance nodeId port) = fun row => decide (row.nodeId = id) := by
    funext row
    simp only [Function.comp, advance_nodeId]
  rw [loadStates, loadStates, ← List.map_reverse, List.find?_map, hpred, Option.map_map,
    Option.map_map]
  cases hfind : rows.reverse.find? fun row => row.nodeId = id with
  | none => rfl
  | some row =>
    have hid : row.nodeId = id := by simpa using List.find?_some hfind
    simp only [Option.map_some, Function.comp, NodeExecution.advance, hid]
    split_ifs <;> rfl

/-- What is found is waiting. -/
theorem loadStates_of_findWaiting (htidy : Tidy rows) (h : findWaiting rows = some id) :
    ∃ ports, loadStates rows id = some ⟨.waiting, ports⟩ := by
  obtain ⟨row, hrow, rfl⟩ := Option.map_eq_some_iff.1 h
  have hstatus : row.state.status = .waiting := by simpa using List.find?_some hrow
  refine ⟨row.state.firedPorts, ?_⟩
  rw [loadStates_of_mem htidy (List.mem_of_find?_eq_some hrow), ← hstatus]

/-! ### One step -/

theorem nodes_of_not_working (hattempt : isAttempt k = true) (hworking : working k = false)
    (h : act rt p s k answer = some (s', k')) : s'.nodes = s.nodes ∧ s'.resumed = s.resumed := by
  rcases nodes_step h with hsame | ⟨nodeId, port, rfl, -⟩ | ⟨rfl, -⟩ | ⟨l, job, existing, rfl, -⟩
  · exact hsame
  · cases hworking
  · cases hattempt
  · cases hworking

theorem soundCall_of_not_working {g : WorkflowGraph} (h : working k = false) : SoundCall g rows k := by
  cases k with
  | setRunning _ | loop _ _ => cases h
  | _ => trivial

theorem begin_attempt {a : Attempt} (hcall : a.call = .idle) (hresumes : resumes s a answer = true)
    (h : begin s answer = some (s', k')) : isAttempt k' = true ∧ working k' = false := by
  rcases (begin_cases h).2 with hasks | ⟨nodeId, port, rfl, -⟩ | ⟨rfl, -⟩
  · cases k' with
    | woken _ | deciding _ _ | expiring | resume _ => exact ⟨rfl, rfl⟩
    | _ => cases hasks
  · simp [resumes, hcall] at hresumes
  · simp [resumes, hcall] at hresumes

theorem isAttempt_step {a : Attempt} (hattempt : isAttempt a.call = true)
    (hresumes : resumes s a answer = true) (h : act rt p s a.call answer = some (s', k')) :
    isAttempt k' = true := by
  cases hcall : a.call with
  | idle =>
    rw [hcall] at h
    exact (begin_attempt hcall hresumes h).1
  | loop l stage =>
    rw [hcall] at h
    rcases actStage_call h with ⟨l', stage', rfl⟩ | ⟨status, rfl⟩ | ⟨node, -, rfl | rfl⟩ <;> rfl
  | booting | interrupting | flag => simp [hcall, isAttempt] at hattempt
  | loadStates _ =>
    rw [hcall] at h
    obtain ⟨_, -, h⟩ := Option.map_eq_some_iff.1 h
    cases h
    rfl
  | finding port =>
    rw [hcall] at h
    cases h
    cases findWaiting s.nodes <;> rfl
  | woken _ | resume _ | load =>
    rw [hcall] at h
    cases h
    split_ifs <;> rfl
  | _ =>
    rw [hcall] at h
    cases h
    rfl

theorem works_step {a : Attempt} (hattempt : isAttempt a.call = true)
    (hworking : working a.call = false) (hresumes : resumes s a answer = true)
    (h : act rt p s a.call answer = some (s', k')) (hworking' : working k' = true) :
    ∃ port id, a.call = .finding port ∧ findWaiting s.nodes = some id ∧ k' = .advance id port := by
  cases hcall : a.call with
  | idle =>
    rw [hcall] at h
    rw [(begin_attempt hcall hresumes h).2] at hworking'
    cases hworking'
  | booting | interrupting | flag => simp [hcall, isAttempt] at hattempt
  | finding port =>
    rw [hcall] at h
    cases h
    cases hfound : findWaiting s.nodes with
    | none =>
      rw [hfound] at hworking'
      cases hworking'
    | some id => exact ⟨port, id, rfl, rfl, rfl⟩
  | woken _ | resume _ =>
    rw [hcall] at h
    cases h
    split_ifs at hworking' <;> cases hworking'
  | deciding _ _ | expiring =>
    rw [hcall] at h
    cases h
    cases hworking'
  | _ => simp [hcall, working] at hworking

theorem advance_step {port : String} (h : act rt p s k answer = some (s', .advance id port)) :
    (k = .finding port ∧ findWaiting s.nodes = some id) ∨ (k = .idle) ∨
      ∃ l node, (k = .loop l (.park node) ∨ k = .loop l (.start node)) ∧ node.id = id := by
  cases k with
  | idle => exact .inr (.inl rfl)
  | loop l stage =>
    rcases actStage_call h with ⟨l', stage', hcall⟩ | ⟨status, hcall⟩ | ⟨node, hstage, hcall | hcall⟩
    · cases hcall
    · cases hcall
    · cases hcall
    · cases hcall
      rcases hstage with rfl | rfl
      · exact .inr (.inr ⟨l, node, .inl rfl, rfl⟩)
      · exact .inr (.inr ⟨l, node, .inr rfl, rfl⟩)
  | finding port' =>
    cases hfound : findWaiting s.nodes with
    | none => simp [act, hfound] at h
    | some id' =>
      simp only [act, hfound, Option.map_some, Option.getD_some, Option.some.injEq, Prod.mk.injEq,
        Call.advance.injEq] at h
      obtain ⟨-, rfl, rfl⟩ := h
      exact .inl ⟨rfl, rfl⟩
  | booting | loadStates _ =>
    obtain ⟨_, -, h⟩ := Option.map_eq_some_iff.1 h
    first | cases h | (simp only [Prod.mk.injEq] at h; obtain ⟨-, h⟩ := h; split_ifs at h)
  | woken _ | resume _ | load =>
    simp only [act, Option.some.injEq, Prod.mk.injEq] at h
    obtain ⟨-, h⟩ := h
    split_ifs at h
  | _ => cases h

/-! ### Attempts -/

/-- An attempt is about to advance a node that waits, the one it was made on. -/
def Aimed (s : Execution) (a : Attempt) : Prop := ∀ id port, a.call = .advance id port →
  a.target = some id ∧ ∃ ports, loadStates s.nodes id = some ⟨.waiting, ports⟩

structure Fit (g : WorkflowGraph) (s : Execution) (a : Attempt) : Prop where
  isAttempt : isAttempt a.call = true
  sound : SoundCall g s.nodes a.call
  aimed : Aimed s a

variable {a b : Attempt}

theorem act_of_attempt {a' : Attempt} (h : attempt rt p s a answer = some (s', a')) :
    act rt p s a.call answer = some (s', a'.call) ∧ a'.target = aim s a := by
  obtain ⟨next, hact, hnext⟩ := Option.map_eq_some_iff.1 h
  cases hnext
  exact ⟨hact, rfl⟩

theorem Fit.own {a' : Attempt} (hnodup : (p.graph.nodes.map (·.id)).Nodup) (htidy : Tidy s.nodes)
    (hfit : Fit p.graph s a) (hresumes : resumes s a answer = true)
    (hfinds : ∀ id ∈ finds s a.call, a.target = some id)
    (h : attempt rt p s a answer = some (s', a')) : Fit p.graph s' a' := by
  obtain ⟨hact, htarget⟩ := act_of_attempt h
  refine ⟨isAttempt_step hfit.isAttempt hresumes hact,
    (soundCall_step hnodup htidy hfit.sound hact).2, fun id port hcall => ?_⟩
  rw [hcall] at hact
  rw [htarget]
  rcases advance_step hact with ⟨hk, hfound⟩ | hk | ⟨l, node, hk, rfl⟩
  · have hnodes := (nodes_of_not_working hfit.isAttempt (by rw [hk]; rfl) hact).1
    have haim : aim s a = a.target := by simp [aim, hk]
    rw [haim, hnodes]
    exact ⟨hfinds id (by rw [hk]; exact hfound), loadStates_of_findWaiting htidy hfound⟩
  · have hworking := (begin_attempt hk hresumes (by rw [hk] at hact; exact hact)).2
    cases hworking
  · have hstays : s'.nodes = s.nodes ∧ aim s a = some node.id := by
      rcases nodes_step hact with ⟨hnodes, -⟩ | ⟨nodeId, port, hother, -⟩ | ⟨hother, -⟩ |
        ⟨l', job, existing, hother, -⟩
      · refine ⟨hnodes, ?_⟩
        rcases hk with hk | hk <;> simp [aim, hk]
      · rcases hk with hk | hk <;> simp [hk] at hother
      · rcases hk with hk | hk <;> simp [hk] at hother
      · rcases hk with hk | hk <;> simp [hk] at hother
    have hsound : ∃ stage, Sound p.graph s.nodes l stage ∧ parking stage = some node := by
      have hsound := hfit.sound
      rcases hk with hk | hk <;> rw [hk] at hsound
      · exact ⟨.park node, hsound, rfl⟩
      · exact ⟨.start node, hsound, rfl⟩
    obtain ⟨stage, hsound, hparking⟩ := hsound
    rw [hstays.1, hstays.2]
    exact ⟨rfl, [], (hsound.ofParked node hparking).2⟩

/-- What another call does leaves an attempt as it is, when one of the two is not working. -/
theorem Fit.other {g : WorkflowGraph} {a' : Attempt} (hfit : Fit g s b) (hother : Fit g s a)
    (hapart : working a.call = false ∨ working b.call = false)
    (h : attempt rt p s a answer = some (s', a')) : Fit g s' b := by
  rcases hapart with hapart | hapart
  · have hnodes := (nodes_of_not_working hother.isAttempt hapart (act_of_attempt h).1).1
    refine ⟨hfit.isAttempt, hnodes ▸ hfit.sound, ?_⟩
    unfold Aimed
    rw [hnodes]
    exact hfit.aimed
  · refine ⟨hfit.isAttempt, soundCall_of_not_working hapart, fun id port hcall => ?_⟩
    rw [hcall] at hapart
    cases hapart

/-- What is resumed was waiting, so it had not been resumed before, and it is not written again. -/
theorem Resumed.step {a' : Attempt} (hresumed : Resumed s) (hfit : Fit p.graph s a)
    (h : attempt rt p s a answer = some (s', a')) : Resumed s' := by
  have hact := (act_of_attempt h).1
  rcases nodes_step hact with ⟨hnodes, hlog⟩ | ⟨id, port, hcall, hnodes, hlog⟩ | ⟨hcall, -⟩ |
    ⟨l, job, existing, hcall, hnodes, hlog⟩
  · refine ⟨hlog ▸ hresumed.nodup, ?_⟩
    rw [hlog, hnodes]
    exact hresumed.ports
  · obtain ⟨-, ports, hwaiting⟩ := hfit.aimed id port hcall
    have hnew : ∀ e ∈ s.resumed, e.1 ≠ id := by
      rintro e he rfl
      cases (hresumed.ports e he).symm.trans hwaiting
    refine ⟨?_, fun e he => ?_⟩
    · rw [hlog, List.map_append, List.nodup_append]
      refine ⟨hresumed.nodup, List.nodup_singleton id, fun x hx y hy => ?_⟩
      obtain ⟨e, he, rfl⟩ := List.mem_map.1 hx
      rw [List.mem_singleton.1 hy]
      exact hnew e he
    · rw [hlog] at he
      rw [hnodes, loadStates_advance]
      rcases List.mem_append.1 he with he | he
      · rw [hresumed.ports e he, Option.map_some, if_neg (hnew e he)]
      · cases List.mem_singleton.1 he
        rw [hwaiting, Option.map_some, if_pos rfl]
  · have hattempt := hfit.isAttempt
    rw [hcall] at hattempt
    cases hattempt
  · have hsound : Sound p.graph s.nodes l (.write job existing) := by
      have hsound := hfit.sound
      rwa [hcall] at hsound
    cases hsound.found job existing rfl
    refine ⟨hlog ▸ hresumed.nodup, fun e he => ?_⟩
    rw [hlog] at he
    have hne : e.1 ≠ job.node.id := by
      intro hid
      have hnone := loadStates_eq_none.2 (hsound.fresh job.node List.mem_cons_self)
      rw [← hid, hresumed.ports e he] at hnone
      cases hnone
    rw [hnodes]
    rw [writeNode, loadStates_append, Function.update_of_ne hne]
    exact hresumed.ports e he

/-! ### Visits -/

/-- A node the loop has come to and whose row it has still to write. -/
def coming : Call → Option String
  | .loop _ (.dispatch node _ _) | .loop _ (.calling node _ _) | .loop _ (.save node) => some node.id
  | .loop _ (.find ⟨node, _, next⟩) | .loop _ (.write ⟨node, _, next⟩ _) =>
    match next with
    | .pruned _ _ => none
    | _ => some node.id
  | _ => none

/-- The loop comes to a node. -/
theorem visits_step (h : act rt p s k answer = some (s', k')) :
    (∃ l node todo, k = .loop l (.process (node :: todo)) ∧ s'.visits = bump s.visits node.id ∧
      coming k' = some node.id) ∨ s'.visits = s.visits := by
  cases k with
  | idle =>
    rw [begin_fst h]
    exact .inr rfl
  | booting | loadStates _ =>
    obtain ⟨_, -, h⟩ := Option.map_eq_some_iff.1 h
    cases h
    exact .inr rfl
  | loop l stage =>
    cases stage with
    | check =>
      rw [act, actStage] at h
      split_ifs at h <;> cases h <;> exact .inr rfl
    | process todo =>
      cases todo with
      | nil =>
        cases h
        exact .inr rfl
      | cons node todo =>
        cases h
        refine .inl ⟨l, node, todo, rfl, rfl, ?_⟩
        rcases process_cases rt p l node todo with hnext | hnext | ⟨outcome, hnext⟩
        · rw [hnext, coming]
        · rw [hnext, coming]
        · rw [hnext]
          rfl
    | calling _ _ _ | start _ =>
      obtain ⟨_, -, h⟩ := Option.map_eq_some_iff.1 h
      cases h
      exact .inr rfl
    | park node =>
      obtain ⟨now, -, h⟩ := Option.map_eq_some_iff.1 h
      cases h
      refine .inr ?_
      unfold Execution.park
      dsimp only
      split <;> rfl
    | _ =>
      cases h
      exact .inr rfl
  | _ =>
    cases h
    exact .inr rfl

theorem coming_step {g : WorkflowGraph} (hsound : SoundCall g s.nodes k)
    (h : act rt p s k answer = some (s', k')) (hcoming : coming k = some id) :
    coming k' = some id ∨ ¬ Fresh s'.nodes id := by
  cases k with
  | loop l stage =>
    cases stage with
    | dispatch node attempt todo =>
      cases h
      exact .inl hcoming
    | calling node attempt todo =>
      obtain ⟨ok, -, h⟩ := Option.map_eq_some_iff.1 h
      cases h
      refine .inl ?_
      rcases retry_cases p.graph node attempt ok todo with ⟨hnext, -⟩ | ⟨outcome, hnext⟩ <;>
        rw [hnext] <;> exact hcoming
    | save node | find job =>
      cases h
      exact .inl hcoming
    | write job existing =>
      cases hsound.found job existing rfl
      cases h
      obtain ⟨node, state, next⟩ := job
      refine .inr fun hfresh => ?_
      have hid : node.id = id := by cases next <;> simp_all [coming]
      exact hfresh _ (List.mem_append_right _ (List.mem_singleton_self _)) hid
    | _ => cases hcoming
  | _ => cases hcoming

theorem coming_of_not_working (h : working k = false) : coming k = none := by
  cases k with
  | loop _ _ => cases h
  | _ => rfl

/-! ### Runs -/

/-- What holds between the attempts. -/
structure Orderly (g : WorkflowGraph) (c : Config ι) : Prop where
  tidy : Tidy c.store.nodes
  resumed : Resumed c.store
  fit : ∀ i, Fit g c.store (c.call i)
  alone : ∀ i j, i ≠ j → working (c.call i).call = false ∨ working (c.call j).call = false
  visits : ∀ id, c.store.visits id ≤ 1
  unvisited : ∀ id, Fresh c.store.nodes id → (∀ i, coming (c.call i).call ≠ some id) →
    c.store.visits id = 0

section Step

variable [DecidableEq ι] {c : Config ι} {i : ι} {a' : Attempt}

omit [DecidableEq ι] in
theorem Orderly.others (h : Orderly p.graph c) (halone : Alone c i)
    (hresumes : resumes c.store (c.call i) answer = true)
    (hact : attempt rt p c.store (c.call i) answer = some (s', a')) (hworking : working a'.call = true) :
    ∀ j, j ≠ i → working (c.call j).call = false := by
  intro j hj
  cases hk : working (c.call i).call with
  | true => simpa [hk] using h.alone i j hj.symm
  | false =>
    obtain ⟨port, id, hcall, hfound, -⟩ :=
      works_step (h.fit i).isAttempt hk hresumes (act_of_attempt hact).1 hworking
    exact (halone id (by rw [hcall]; exact hfound)).2 j hj

/-- A node that the loop comes to has not been come to before. -/
theorem Orderly.visits_step (h : Orderly p.graph c)
    (hact : attempt rt p c.store (c.call i) answer = some (s', a')) :
    (∀ id, s'.visits id ≤ 1) ∧ ∀ id, Fresh s'.nodes id →
      (∀ j, coming (Function.update c.call i a' j).call ≠ some id) → s'.visits id = 0 := by
  have hact := (act_of_attempt hact).1
  have hkeep : ∀ id, Fresh s'.nodes id → (∀ j, coming (Function.update c.call i a' j).call ≠ some id) →
      c.store.visits id = 0 := by
    intro id hfresh hcoming
    refine h.unvisited id (hfresh.of_step hact) fun j hj => ?_
    by_cases hji : j = i
    · rw [hji] at hj
      have hself := hcoming i
      rw [Function.update_self] at hself
      rcases coming_step (h.fit i).sound hact hj with hj | hj
      · exact hself hj
      · exact hj hfresh
    · have hother := hcoming j
      rw [Function.update_of_ne hji] at hother
      exact hother hj
  rcases ResumeRaces.visits_step hact with ⟨l, node, todo, hcall, hvisits, hcoming⟩ | hvisits
  · have hsound : Sound p.graph c.store.nodes l (.process (node :: todo)) := by
      have hsound := (h.fit i).sound
      rwa [hcall] at hsound
    have hzero : c.store.visits node.id = 0 := by
      refine h.unvisited node.id (hsound.fresh node List.mem_cons_self) fun j hj => ?_
      by_cases hji : j = i
      · rw [hji, hcall] at hj
        cases hj
      · have hworking := h.alone i j (Ne.symm hji)
        rw [hcall] at hworking
        rw [coming_of_not_working (by simpa [working] using hworking)] at hj
        cases hj
    rw [hvisits]
    refine ⟨fun id => ?_, fun id hfresh hnone => ?_⟩
    · by_cases hid : id = node.id
      · rw [hid, bump, Function.update_self, hzero]
      · rw [bump, Function.update_of_ne hid]
        exact h.visits id
    · have hid : id ≠ node.id := by
        rintro rfl
        refine hnone i ?_
        rw [Function.update_self]
        exact hcoming
      rw [bump, Function.update_of_ne hid]
      exact hkeep id hfresh hnone
  · rw [hvisits]
    exact ⟨h.visits, hkeep⟩

theorem Orderly.step (hnodup : (p.graph.nodes.map (·.id)).Nodup) (h : Orderly p.graph c)
    (halone : Alone c i) (hresumes : resumes c.store (c.call i) answer = true)
    (hact : attempt rt p c.store (c.call i) answer = some (s', a')) :
    Orderly p.graph ⟨s', Function.update c.call i a'⟩ := by
  have hfit := h.fit i
  refine ⟨(soundCall_step hnodup h.tidy hfit.sound (act_of_attempt hact).1).1,
    h.resumed.step hfit hact, fun j => ?_, fun j l hjl => ?_, (h.visits_step hact).1,
    (h.visits_step hact).2⟩ <;> dsimp only
  · by_cases hj : j = i
    · rw [hj, Function.update_self]
      exact hfit.own hnodup h.tidy hresumes (fun id hid => (halone id hid).1) hact
    · rw [Function.update_of_ne hj]
      exact (h.fit j).other hfit (h.alone i j (Ne.symm hj)) hact
  · by_cases hj : j = i
    · have hl : l ≠ i := fun hl => hjl (hj.trans hl.symm)
      rw [hj, Function.update_self, Function.update_of_ne hl]
      cases hworking : working a'.call with
      | false => exact .inl rfl
      | true => exact .inr (h.others halone hresumes hact hworking l hl)
    · by_cases hl : l = i
      · rw [hl, Function.update_self, Function.update_of_ne hj]
        cases hworking : working a'.call with
        | false => exact .inr rfl
        | true => exact .inl (h.others halone hresumes hact hworking j hj)
      · rw [Function.update_of_ne hj, Function.update_of_ne hl]
        exact h.alone j l hjl

end Step

theorem Orderly.start {g : WorkflowGraph} {c : Config ι} {w : String} (hparked : Parked c.store w)
    (hidle : ∀ i, (c.call i).call = .idle) : Orderly g c where
  tidy := hparked.tidy
  resumed := by
    refine ⟨?_, ?_⟩
    · rw [hparked.resumed]
      exact List.nodup_nil
    · rw [hparked.resumed]
      intro e he
      cases he
  fit i := by
    refine ⟨by rw [hidle i]; rfl, by rw [hidle i]; trivial, fun id port hcall => ?_⟩
    rw [hidle i] at hcall
    cases hcall
  alone i j _ := .inl (by rw [hidle i]; rfl)
  visits id := by
    rw [hparked.visits id]
    exact Nat.zero_le 1
  unvisited id _ _ := hparked.visits id

/-! ### An attempt takes effect -/

/-- The attempt has seen that the execution waits. -/
def engaged (w : String) (k : Call) : Prop :=
  (∃ port, k = .finding port) ∨ ∃ port, k = .advance w port

/-- The node has been resumed; or it waits on, and any attempt that has seen so is on its way. -/
def Underway (w : String) (c : Config ι) : Prop :=
  (∃ port, (w, port) ∈ c.store.resumed) ∨
    c.store.status.isWaiting = true ∧ findWaiting c.store.nodes = some w ∧
      (∀ i, working (c.call i).call = true → ∃ port, (c.call i).call = .advance w port) ∧
      (0 < c.store.asked → ∃ i, engaged w (c.call i).call)

/-- What an attempt does before it works: it counts itself when it asks, and leaves the status. -/
theorem asked_step {a : Attempt} (hattempt : isAttempt a.call = true)
    (hworking : working a.call = false) (h : act rt p s a.call answer = some (s', k')) :
    s'.status = s.status ∧ (s'.asked = s.asked ∨
      ∃ port, a.call = .resume port ∧ (s.status.isWaiting = true → k' = .finding port)) := by
  cases hcall : a.call with
  | idle =>
    rw [hcall] at h
    rw [begin_fst h]
    exact ⟨rfl, .inl rfl⟩
  | booting | interrupting | flag => simp [hcall, isAttempt] at hattempt
  | resume port =>
    rw [hcall] at h
    cases h
    exact ⟨rfl, .inr ⟨port, rfl, fun hwaiting => if_pos hwaiting⟩⟩
  | woken _ | deciding _ _ | expiring | finding _ =>
    rw [hcall] at h
    cases h
    exact ⟨rfl, .inl rfl⟩
  | _ => simp [hcall, working] at hworking

theorem Underway.step [DecidableEq ι] {w : String} {c : Config ι} {i : ι} {a' : Attempt}
    (horderly : Orderly p.graph c) (h : Underway w c)
    (hresumes : resumes c.store (c.call i) answer = true)
    (hact : attempt rt p c.store (c.call i) answer = some (s', a')) :
    Underway w ⟨s', Function.update c.call i a'⟩ := by
  have hattempt := (horderly.fit i).isAttempt
  have hact := (act_of_attempt hact).1
  rcases h with ⟨port, hport⟩ | ⟨hstatus, hfound, hworking, hasked⟩
  · refine .inl ⟨port, ?_⟩
    rcases nodes_step hact with ⟨-, hlog⟩ | ⟨id, port', -, -, hlog⟩ | ⟨-, -, hlog⟩ | ⟨_, _, _, -, -, hlog⟩ <;>
      rw [hlog]
    · exact hport
    · exact List.mem_append_left _ hport
    · exact hport
    · exact hport
  · cases hk : working (c.call i).call with
    | true =>
      obtain ⟨port, hcall⟩ := hworking i hk
      rw [hcall, act, Option.some.injEq, Prod.mk.injEq] at hact
      obtain ⟨rfl, -⟩ := hact
      exact .inl ⟨port, List.mem_append_right _ (List.mem_singleton_self _)⟩
    | false =>
      obtain ⟨hnodes, -⟩ := nodes_of_not_working hattempt hk hact
      obtain ⟨hkept, hcount⟩ := asked_step hattempt hk hact
      refine .inr ⟨by rw [← hstatus, ← hkept], by rw [← hfound, ← hnodes], fun j hj => ?_, fun hpos => ?_⟩ <;>
        dsimp only at *
      · by_cases hji : j = i
        · rw [hji, Function.update_self] at hj ⊢
          obtain ⟨port, id, -, hfound', hcall⟩ := works_step hattempt hk hresumes hact hj
          cases hfound.symm.trans hfound'
          exact ⟨port, hcall⟩
        · rw [Function.update_of_ne hji] at hj ⊢
          exact hworking j hj
      · rcases hcount with hcount | ⟨port, -, hcall⟩
        · rw [hcount] at hpos
          obtain ⟨j, hj⟩ := hasked hpos
          by_cases hji : j = i
          · subst hji
            rcases hj with ⟨port, hj⟩ | ⟨port, hj⟩
            · rw [hj] at hact
              simp only [act, hfound, Option.map_some, Option.getD_some, Option.some.injEq,
                Prod.mk.injEq] at hact
              refine ⟨j, .inr ⟨port, ?_⟩⟩
              rw [Function.update_self]
              exact hact.2.symm
            · rw [hj] at hk
              cases hk
          · refine ⟨j, ?_⟩
            rw [Function.update_of_ne hji]
            exact hj
        · refine ⟨i, .inl ⟨port, ?_⟩⟩
          rw [Function.update_self]
          exact hcall hstatus

/-- In a run in which an attempt finds the waiting node only while no other works, and the node it
was made on, one attempt takes effect: nothing is resumed twice or loses the port it was resumed
with, no node is come to twice, an attempt advances only what it was made on, and once an attempt
has asked and all are done, the node it was parked at has been resumed. -/
theorem resumed_once {g : PublishedGraph} {inputContext : List (String × Value)} {depth : ℕ}
    [DecidableEq ι] {start c : Config ι} {w : String} (hparked : Parked start.store w)
    (hidle : ∀ i, (start.call i).call = .idle)
    (h : Run (guarded resumes (attempt rt ⟨g.toWorkflowGraph, inputContext, depth⟩)) Alone start c) :
    (c.store.resumed.map Prod.fst).Nodup ∧
      (∀ id port, (id, port) ∈ c.store.resumed →
        loadStates c.store.nodes id = some ⟨.succeeded, [port]⟩) ∧
      (∀ id, c.store.visits id ≤ 1) ∧
      (∀ i id port, (c.call i).call = .advance id port → (c.call i).target = some id) ∧
      ((∀ i, (c.call i).call = .idle) → 0 < c.store.asked → ∃ port, (w, port) ∈ c.store.resumed) := by
  have hinv : Orderly g.toWorkflowGraph c ∧ Underway w c := by
    refine h.invariant (P := fun c => Orderly g.toWorkflowGraph c ∧ Underway w c) ⟨Orderly.start hparked hidle, ?_⟩ ?_
    · refine .inr ⟨hparked.waiting, hparked.found, fun i hi => ?_, fun hpos => ?_⟩
      · rw [hidle i] at hi
        cases hi
      · rw [hparked.asked] at hpos
        cases hpos
    · rintro c i answer s' a' ⟨horderly, hunderway⟩ halone hact
      obtain ⟨hresumes, hact⟩ := guarded_eq_some.1 hact
      exact ⟨horderly.step (p := ⟨g.toWorkflowGraph, inputContext, depth⟩) g.nodup halone hresumes hact,
        hunderway.step (p := ⟨g.toWorkflowGraph, inputContext, depth⟩) horderly hresumes hact⟩
  obtain ⟨horderly, hunderway⟩ := hinv
  refine ⟨horderly.resumed.nodup, fun id port hmem => horderly.resumed.ports _ hmem, horderly.visits,
    fun i id port hcall => ((horderly.fit i).aimed id port hcall).1, fun hidle hpos => ?_⟩
  rcases hunderway with hresumed | ⟨-, -, -, hasked⟩
  · exact hresumed
  · obtain ⟨i, ⟨port, hi⟩ | ⟨port, hi⟩⟩ := hasked hpos
    · cases (hidle i).symm.trans hi
    · cases (hidle i).symm.trans hi

/-- A wait with a minute's patience. -/
def wait : WorkflowNode where
  id := "wait"
  definition := some ⟨.wait, ["completed", "timeout"], none⟩
  config := { eventType := some "torrent.completed" }
  timeoutSeconds := 60

def ending (id : String) : WorkflowNode where
  id := id
  definition := some ⟨.ending, [], none⟩

def waiting : PublishedGraph where
  nodes := [manualTrigger, wait, ending "done", ending "late"]
  edges := [⟨"trigger", none, "wait"⟩, ⟨"wait", some "completed", "done"⟩,
    ⟨"wait", some "timeout", "late"⟩]
  nodup := by decide

/-- The wait is armed, and its minute is over when the clock says 60000. -/
def parked : Config Bool where
  store :=
    { status := .waitingForEvent
      vars := none
      resumeAt := none
      expiresAt := some 60000
      nodes := [⟨"trigger", ⟨.succeeded, ["out"]⟩⟩, ⟨"wait", ⟨.waiting, []⟩⟩]
      approvals := []
      visits := fun _ => 0
      rounds := fun _ => 0
      calls := fun _ => 0
      resumed := []
      asked := 0 }
  call _ := ⟨.idle, none⟩

theorem parked_at_wait : Parked parked.store "wait" := by
  refine ⟨⟨by decide, ?_⟩, rfl, by decide, rfl, rfl, fun _ => rfl⟩
  intro row hrow
  simp only [parked, List.mem_cons, List.not_mem_nil, or_false] at hrow
  rcases hrow with rfl | rfl <;> rfl

/-- The event and the tick both find the execution listed; the tick asks when the event is through,
and resumes nothing. -/
theorem resumed_by_event : ∃ c, Run (guarded resumes (attempt .ascii ⟨waiting.toWorkflowGraph, [], 0⟩))
      Alone parked c ∧ (c.store.resumed = [("wait", "completed")] ∧ c.store.asked = 2) ∧
    (c.store.resumed.map Prod.fst).Nodup ∧
      (∀ id port, (id, port) ∈ c.store.resumed →
        loadStates c.store.nodes id = some ⟨.succeeded, [port]⟩) ∧
      (∀ id, c.store.visits id ≤ 1) ∧
      (∀ i id port, (c.call i).call = .advance id port → (c.call i).target = some id) ∧
      ((∀ i, (c.call i).call = .idle) → 0 < c.store.asked →
        ∃ port, ("wait", port) ∈ c.store.resumed) := by
  obtain ⟨c, hrun, hc⟩ := run_of_exec_any
    (guarded resumes (attempt .ascii ⟨waiting.toWorkflowGraph, [], 0⟩)) Alone parked
    ([(true, .event "torrent.completed"), (false, .expired 60000)] ++ List.replicate 6 (true, .go) ++
      [(true, .grant none)] ++ List.replicate 14 (true, .go) ++ [(false, .go)])
    (fun c => c.store.resumed = [("wait", "completed")] ∧ c.store.asked = 2) (by decide +kernel)
  exact ⟨c, hrun, of_decide_eq_true hc, resumed_once parked_at_wait (fun _ => rfl) hrun⟩

/-- The event and the tick both read that the wait is on, and both resume it. -/
theorem resumed_by_both : ¬ ∀ c,
    Run (guarded resumes (attempt .ascii ⟨waiting.toWorkflowGraph, [], 0⟩)) (fun _ _ => True) parked c →
      (c.store.resumed.map Prod.fst).Nodup := by
  intro h
  obtain ⟨c, hrun, hc⟩ := run_of_exec_any
    (guarded resumes (attempt .ascii ⟨waiting.toWorkflowGraph, [], 0⟩)) (fun _ _ => True) parked
    ([(true, .event "torrent.completed"), (false, .expired 60000)] ++
      [(true, .go), (true, .go), (false, .go), (true, .go), (false, .go), (true, .go), (false, .go)])
    (fun c => c.store.resumed = [("wait", "completed"), ("wait", "timeout")]) (by decide +kernel)
  have hnodup := h c hrun
  rw [of_decide_eq_true hc] at hnodup
  exact absurd hnodup (by decide)

end UltraTorrent.Workflows.ResumeRaces
