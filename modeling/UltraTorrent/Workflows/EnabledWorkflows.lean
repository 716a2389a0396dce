import UltraTorrent.Workflows.PublishedVersions

/-! The status of a workflow beside its flag `enabled`. Every write of a status is a transition of
the state machine, and what is enabled can be switched off, as long as no draft is saved of a
workflow that is published or disabled and none is published that validation has not made ready. -/
namespace UltraTorrent.Workflows.EnabledWorkflows

open Library.EcmaScript Library.Interleaving NodeRegistry PublishedVersions WorkflowValidator

section Changes

variable (rt : Runtime) (registry : NodeDefinitionLookup) (graphChecksum : StoredGraph → String)

/-- The row of `workflows` a call is about to write, and how. -/
def change : Call → Option (ℕ × (Workflow → Workflow))
  | .pointing save draft => some (save.workflowId, fun workflow =>
    { workflow with currentDraftVersionId := some draft })
  | .saving save _ => some (save.workflowId, fun workflow =>
    { workflow with
      status := if accepts rt registry save.workflowId save.permissions save.graph then .ready
        else .validationFailed })
  | .publishing id draft _ => some (id, fun workflow =>
    { workflow with
      status := .published
      publishedVersionId := some draft
      currentDraftVersionId := none
      enabled := true })
  | .enabling id enabled => some (id, fun workflow =>
    { workflow with enabled := enabled, status := if enabled then .published else .disabled })
  | .archiving id => some (id, fun workflow => { workflow with enabled := false, status := .archived })
  | _ => none

/-- The workflow a call is about to write, and the statuses that it may find there. -/
def finds : Call → Option (ℕ × List WorkflowStatus)
  | .saving save _ => some (save.workflowId, [.draft, .validationFailed, .ready])
  | .publishing id _ _ => some (id, [.ready, .published, .disabled])
  | .enabling id true => some (id, [.ready, .published, .disabled])
  | .enabling id false => some (id, [.published, .disabled])
  | _ => none

def inTurn (db : Database) (k : Call) : Bool :=
  (finds k).all fun f => (db.workflows[f.1]?).all fun workflow => decide (workflow.status ∈ f.2)

/-- Every status written is one that leads on from the status before it. -/
def Moves (db db' : Database) : Prop :=
  ∀ (id : ℕ) (workflow workflow' : Workflow), db.workflows[id]? = some workflow →
    db'.workflows[id]? = some workflow' → workflow.status.canTransition workflow'.status = true

/-- `setEnabled(id, false)`, with no other call between its read and its write. -/
def switchedOff (db : Database) (id : ℕ) : Option Database :=
  (act rt registry graphChecksum db .idle (.setEnabled id false)).bind fun next =>
    (act rt registry graphChecksum next.1 next.2 .go).map (·.1)

end Changes

def OnlyPublished (db : Database) : Prop :=
  ∀ workflow ∈ db.workflows, workflow.enabled = true → workflow.status = .published

variable {rt : Runtime} {registry : NodeDefinitionLookup} {graphChecksum : StoredGraph → String}
  {db db' : Database} {k k' : Call} {request : Request}

theorem begin_workflows (h : begin graphChecksum db request = some (db', k')) :
    ∃ added : List Workflow, (∀ workflow ∈ added, workflow.enabled = false) ∧
      db'.workflows = db.workflows ++ added := by
  cases request with
  | go => cases h
  | create =>
    cases h
    exact ⟨[⟨.draft, false, some db.versions.length, none⟩], by simp, rfl⟩
  | saveDraft save =>
    obtain ⟨workflow, -, h⟩ := Option.map_eq_some_iff.1 h
    cases h
    exact ⟨[], nofun, (List.append_nil _).symm⟩
  | publish id permissions =>
    obtain ⟨workflow, -, h⟩ := Option.bind_eq_some_iff.1 h
    obtain ⟨draft, -, h⟩ := Option.map_eq_some_iff.1 h
    cases h
    exact ⟨[], nofun, (List.append_nil _).symm⟩
  | setEnabled id enabled =>
    obtain ⟨workflow, -, h⟩ := Option.bind_eq_some_iff.1 h
    dsimp only at h
    split_ifs at h <;> cases h <;> exact ⟨[], nofun, (List.append_nil _).symm⟩
  | archive id =>
    obtain ⟨workflow, -, h⟩ := Option.bind_eq_some_iff.1 h
    split_ifs at h
    cases h
    exact ⟨[], nofun, (List.append_nil _).symm⟩

/-- A step writes the row its call is about to write; without one it adds at most a workflow. -/
theorem workflows_act (h : act rt registry graphChecksum db k request = some (db', k')) :
    (∃ id f, change rt registry k = some (id, f) ∧ db'.workflows = db.workflows.modify id f) ∨
      (change rt registry k = none ∧ ∃ added : List Workflow,
        (∀ workflow ∈ added, workflow.enabled = false) ∧ db'.workflows = db.workflows ++ added) := by
  cases k with
  | idle => exact .inr ⟨rfl, begin_workflows h⟩
  | ensuring | numbering | basing | reading =>
    cases h
    exact .inr ⟨rfl, [], nofun, (List.append_nil _).symm⟩
  | forking save number graph checksum =>
    have hfork : (db.fork save number graph checksum).1.workflows = db.workflows := by
      unfold Database.fork
      split_ifs <;> rfl
    refine .inr ⟨rfl, [], nofun, ?_⟩
    rw [List.append_nil, ← hfork, Option.some.inj h]
  | pointing | saving | publishing | enabling | archiving =>
    cases h
    exact .inl ⟨_, _, rfl, rfl⟩

theorem canTransition_published (status : WorkflowStatus) :
    status.canTransition .published = true ↔ status ∈ [.ready, .published, .disabled] := by
  cases status <;> decide

theorem canTransition_disabled (status : WorkflowStatus) :
    status.canTransition .disabled = true ↔ status ∈ [.published, .disabled] := by
  cases status <;> decide

theorem canTransition_archived (status : WorkflowStatus) : status.canTransition .archived = true := by
  cases status <;> rfl

theorem canTransition_saved (status : WorkflowStatus) (valid : Bool) :
    status.canTransition (if valid then .ready else .validationFailed) = true ↔
      status ∈ [.draft, .validationFailed, .ready] := by
  cases status <;> cases valid <;> decide

theorem canTransition_change_iff {id : ℕ} {f : Workflow → Workflow} (workflow : Workflow)
    (hchange : change rt registry k = some (id, f)) :
    workflow.status.canTransition (f workflow).status = true ↔
      ∀ statuses, finds k = some (id, statuses) → workflow.status ∈ statuses := by
  have hfinds : ∀ {statuses : List WorkflowStatus}, finds k = some (id, statuses) →
      ((∀ statuses, finds k = some (id, statuses) → workflow.status ∈ statuses) ↔
        workflow.status ∈ statuses) := by
    intro statuses h
    simp [h]
  cases k with
  | pointing save draft =>
    cases hchange
    simp [finds, WorkflowStatus.canTransition]
  | saving save draft =>
    cases hchange
    rw [hfinds rfl]
    exact canTransition_saved _ _
  | publishing id draft permissions =>
    cases hchange
    rw [hfinds rfl]
    exact canTransition_published _
  | enabling id enabled =>
    cases hchange
    cases enabled with
    | false =>
      rw [hfinds rfl]
      exact canTransition_disabled _
    | true =>
      rw [hfinds rfl]
      exact canTransition_published _
  | archiving id =>
    cases hchange
    exact ⟨nofun, fun _ => canTransition_archived _⟩
  | _ => cases hchange

theorem finds_eq_some (rt : Runtime) (registry : NodeDefinitionLookup) {f : ℕ × List WorkflowStatus}
    (h : finds k = some f) : ∃ g, change rt registry k = some (f.1, g) := by
  unfold finds at h
  split at h <;> cases h <;> exact ⟨_, rfl⟩

theorem inTurn_iff : inTurn db k = true ↔ ∀ id statuses, finds k = some (id, statuses) →
    ∀ workflow, db.workflows[id]? = some workflow → workflow.status ∈ statuses := by
  unfold inTurn
  cases finds k with
  | none => exact ⟨nofun, fun _ => rfl⟩
  | some f =>
    rw [Option.all_some, Option.all_eq_true]
    constructor
    · rintro h id statuses ⟨⟩ workflow hworkflow
      exact of_decide_eq_true (h workflow hworkflow)
    · intro h workflow hworkflow
      exact decide_eq_true (h f.1 f.2 rfl workflow hworkflow)

theorem moves_modify {id : ℕ} {f : Workflow → Workflow}
    (hworkflows : db'.workflows = db.workflows.modify id f) : Moves db db' ↔
      ∀ workflow, db.workflows[id]? = some workflow →
        workflow.status.canTransition (f workflow).status = true := by
  unfold Moves
  rw [hworkflows]
  constructor
  · intro h workflow hworkflow
    refine h id workflow (f workflow) hworkflow ?_
    rw [List.getElem?_modify, hworkflow, Option.map_eq_map, Option.map_some, if_pos rfl]
  · intro h other workflow workflow' hworkflow hworkflow'
    rw [List.getElem?_modify, hworkflow, Option.map_eq_map, Option.map_some,
      Option.some.injEq] at hworkflow'
    split_ifs at hworkflow' with hid <;> subst hworkflow'
    · exact h workflow (hid ▸ hworkflow)
    · simp [WorkflowStatus.canTransition]

theorem moves_append {added : List Workflow} (hworkflows : db'.workflows = db.workflows ++ added) :
    Moves db db' := by
  intro id workflow workflow' hworkflow hworkflow'
  rw [hworkflows, List.getElem?_append_left (List.getElem?_eq_some_iff.1 hworkflow).1,
    hworkflow] at hworkflow'
  cases hworkflow'
  simp [WorkflowStatus.canTransition]

theorem moves_iff (h : act rt registry graphChecksum db k request = some (db', k')) :
    Moves db db' ↔ inTurn db k = true := by
  rcases workflows_act h with ⟨id, f, hchange, hworkflows⟩ | ⟨hchange, added, -, hworkflows⟩
  · rw [moves_modify hworkflows, inTurn_iff]
    constructor
    · intro hmoves id' statuses hfinds workflow hworkflow
      obtain ⟨g, hg⟩ := finds_eq_some rt registry hfinds
      cases hg.symm.trans hchange
      exact (canTransition_change_iff workflow hchange).1 (hmoves workflow hworkflow) statuses hfinds
    · intro hturn workflow hworkflow
      exact (canTransition_change_iff workflow hchange).2 fun statuses hfinds =>
        hturn id statuses hfinds workflow hworkflow
  · refine ⟨fun _ => inTurn_iff.2 fun id statuses hfinds => ?_, fun _ => moves_append hworkflows⟩
    obtain ⟨g, hg⟩ := finds_eq_some rt registry hfinds
    rw [hchange] at hg
    cases hg

/-! ### Runs -/

theorem enabled_change {id : ℕ} {f : Workflow → Workflow} {workflow : Workflow}
    (hchange : change rt registry k = some (id, f))
    (hturn : ∀ statuses, finds k = some (id, statuses) → workflow.status ∈ statuses)
    (hbefore : workflow.enabled = true → workflow.status = .published)
    (hafter : (f workflow).enabled = true) : (f workflow).status = .published := by
  cases k with
  | pointing save draft =>
    cases hchange
    exact hbefore hafter
  | saving save draft =>
    cases hchange
    have hmem := hturn _ rfl
    rw [hbefore hafter] at hmem
    exact absurd hmem (by decide)
  | publishing id draft permissions =>
    cases hchange
    rfl
  | enabling id enabled =>
    cases hchange
    exact if_pos hafter
  | archiving id =>
    cases hchange
    cases hafter
  | _ => cases hchange

theorem OnlyPublished.step (h : OnlyPublished db) (hturn : inTurn db k = true)
    (hact : act rt registry graphChecksum db k request = some (db', k')) : OnlyPublished db' := by
  rw [inTurn_iff] at hturn
  intro workflow' hworkflow' henabled
  rcases workflows_act hact with ⟨id, f, hchange, hworkflows⟩ | ⟨-, added, hadded, hworkflows⟩ <;>
    rw [hworkflows] at hworkflow'
  · obtain ⟨other, hother⟩ := List.mem_iff_getElem?.1 hworkflow'
    rw [List.getElem?_modify] at hother
    obtain ⟨workflow, hworkflow, hf⟩ := Option.map_eq_some_iff.1 hother
    have hbefore := h workflow (List.mem_of_getElem? hworkflow)
    split_ifs at hf with hid <;> subst hf
    · subst hid
      exact enabled_change hchange (fun statuses hfinds => hturn _ _ hfinds workflow hworkflow)
        hbefore henabled
    · exact hbefore henabled
  · rcases List.mem_append.1 hworkflow' with hmem | hmem
    · exact h workflow' hmem henabled
    · rw [hadded workflow' hmem] at henabled
      cases henabled

theorem switchedOff_of_published {id : ℕ} {workflow : Workflow}
    (hworkflow : db.workflows[id]? = some workflow) (hstatus : workflow.status = .published)
    (henabled : workflow.enabled = true) :
    switchedOff rt registry graphChecksum db id = some { db with
      workflows := db.workflows.modify id fun workflow =>
        { workflow with enabled := false, status := .disabled } } := by
  have hexists : db.mustExist id = some workflow := by
    rw [Database.mustExist, hworkflow, Option.filter_some, hstatus]
    rfl
  have hbegin : act rt registry graphChecksum db .idle (.setEnabled id false) =
      some (db, .enabling id false) := by
    simp [act, begin, hexists, henabled, hstatus, WorkflowStatus.canTransition,
      WorkflowStatus.transitions]
  rw [switchedOff, hbegin]
  rfl

variable {ι : Type*} [DecidableEq ι]

/-- In a run whose steps are all taken in turn, whatever is enabled can be switched off, and the next
step writes a status that leads on from the one before just when it is in turn itself. -/
theorem switched_off {start c : Config ι} (hstore : start.store = ⟨[], []⟩)
    (h : Run (act rt registry graphChecksum) (alone fun db k => inTurn db k = true) start c) :
    (∀ (id : ℕ) (workflow : Workflow), c.store.workflows[id]? = some workflow →
      workflow.enabled = true → ∃ db', switchedOff rt registry graphChecksum c.store id = some db' ∧
        (db'.workflows[id]?).map (·.enabled) = some false) ∧
    ∀ (i : ι) (request : Request) (c' : Config ι),
      step (act rt registry graphChecksum) c i request = some c' →
        (Moves c.store c'.store ↔ inTurn c.store (c.call i) = true) := by
  have honly : OnlyPublished c.store := by
    refine h.invariant (P := fun c => OnlyPublished c.store) ?_ ?_
    · rw [hstore]
      exact nofun
    · intro c i request db' k' honly hturn hact
      exact honly.step hturn hact
  constructor
  · intro id workflow hworkflow henabled
    have hstatus := honly workflow (List.mem_of_getElem? hworkflow) henabled
    refine ⟨_, switchedOff_of_published hworkflow hstatus henabled, ?_⟩
    rw [List.getElem?_modify, hworkflow]
    simp
  · intro i request c' hstep
    obtain ⟨db', k', hact, rfl⟩ := step_eq_some.1 hstep
    exact moves_iff hact

/-- The draft is published. -/
def publishing : List (Bool × Request) := drafted ++ [(true, .publish 0 []), (true, .go), (true, .go)]

theorem published_off : ∃ c,
    Run (act .ascii nodeRegistry countNodes) (alone fun db k => inTurn db k = true) nothing c ∧
    c.store.workflows.map (·.enabled) = [true] ∧
    (∀ (id : ℕ) (workflow : Workflow), c.store.workflows[id]? = some workflow →
      workflow.enabled = true → ∃ db', switchedOff .ascii nodeRegistry countNodes c.store id = some db' ∧
        (db'.workflows[id]?).map (·.enabled) = some false) ∧
    ∀ (i : Bool) (request : Request) (c' : Config Bool),
      step (act .ascii nodeRegistry countNodes) c i request = some c' →
        (Moves c.store c'.store ↔ inTurn c.store (c.call i) = true) := by
  obtain ⟨c, hrun, hc⟩ := run_of_exec_any (act .ascii nodeRegistry countNodes)
    (alone fun db k => inTurn db k = true) nothing publishing
    (fun c => c.store.workflows.map (·.enabled) = [true]) (by rfl)
  exact ⟨c, hrun, of_decide_eq_true hc, switched_off rfl hrun⟩

/-- The next draft is saved while the workflow is published and enabled: its status is now `ready`,
which does not lead to `disabled`. -/
theorem ready_stays_on : ¬ ∀ c, Run (act .ascii nodeRegistry countNodes) (fun _ _ => True) nothing c →
    ∀ (id : ℕ) (workflow : Workflow), c.store.workflows[id]? = some workflow →
      workflow.enabled = true → (switchedOff .ascii nodeRegistry countNodes c.store id).isSome := by
  intro h
  obtain ⟨c, hrun, hc⟩ := run_of_exec_any (act .ascii nodeRegistry countNodes) (fun _ _ => True)
    nothing
    (publishing ++ [(true, .saveDraft ⟨0, manualGraph, []⟩), (true, .go), (true, .go), (true, .go),
      (true, .go), (true, .go)])
    (fun c => (c.store.workflows[0]?).any (·.enabled) &&
      (switchedOff .ascii nodeRegistry countNodes c.store 0).isNone) (by rfl)
  obtain ⟨henabled, hrefused⟩ := Bool.and_eq_true_iff.1 hc
  obtain ⟨workflow, hworkflow, henabled⟩ := (Option.any_eq_true _ _).1 henabled
  have hsome := h c hrun 0 workflow hworkflow henabled
  rw [Option.isNone_iff_eq_none] at hrefused
  rw [hrefused] at hsome
  cases hsome

end UltraTorrent.Workflows.EnabledWorkflows
