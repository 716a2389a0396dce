import Mathlib.Data.Fintype.Basic
import UltraTorrent.Library.Interleaving
import UltraTorrent.Workflows.WorkflowValidator

/-! The versions of workflows under several editors at once. A draft is read, and checked, before the
transaction that writes it, so another call may have published it in between, or saved what was not
checked. -/
namespace UltraTorrent.Workflows.PublishedVersions

open Library.EcmaScript Library.Interleaving NodeRegistry WorkflowValidator

/-! ### The database -/

inductive WorkflowStatus where
  | draft
  | validationFailed
  | ready
  | published
  | disabled
  | archived
  deriving DecidableEq

/-- The transitions of `WorkflowSM`. -/
def WorkflowStatus.transitions : WorkflowStatus → List WorkflowStatus
  | .draft => [.validationFailed, .ready, .archived]
  | .validationFailed => [.draft, .ready, .archived]
  | .ready => [.published, .draft, .validationFailed, .archived]
  | .published => [.disabled, .draft, .archived]
  | .disabled => [.published, .draft, .archived]
  | .archived => []

def WorkflowStatus.canTransition (src dst : WorkflowStatus) : Bool :=
  src = dst || dst ∈ src.transitions

inductive VersionStatus where
  | draft
  | validationFailed
  | ready
  | published
  deriving DecidableEq

/-- A row of `workflow_versions`. The last two fields are not stored: the options its graph was
checked with when it was published, and whether its graph, its checksum or its status was written
after that. -/
structure WorkflowVersion where
  workflowId : ℕ
  versionNumber : ℕ
  status : VersionStatus
  graph : StoredGraph
  checksum : String
  checked : ValidateOptions
  rewritten : Bool

structure Workflow where
  status : WorkflowStatus
  enabled : Bool
  currentDraftVersionId : Option ℕ
  publishedVersionId : Option ℕ

/-- Workflows and versions are known by the order they were created in. -/
structure Database where
  workflows : List Workflow
  versions : List WorkflowVersion

def emptyGraph : StoredGraph := ⟨schemaVersion, [], []⟩

def Database.mustExist (db : Database) (id : ℕ) : Option Workflow :=
  db.workflows[id]?.filter fun workflow => workflow.status ≠ .archived

/-! ### Calls -/

structure Save where
  workflowId : ℕ
  graph : StoredGraph
  permissions : List String

/-- Where a call stands, with what it has read. -/
inductive Call where
  | idle
  | ensuring (save : Save) (draft : ℕ) (base : Option ℕ)
  | numbering (save : Save) (base : Option ℕ)
  | basing (save : Save) (base : Option ℕ) (number : ℕ)
  | forking (save : Save) (number : ℕ) (graph : StoredGraph) (checksum : String)
  | pointing (save : Save) (draft : ℕ)
  | saving (save : Save) (draft : ℕ)
  | reading (id draft : ℕ) (permissions : List String)
  | publishing (id draft : ℕ) (permissions : List String)
  | enabling (id : ℕ) (enabled : Bool)
  | archiving (id : ℕ)

inductive Request where
  | go
  | create
  | saveDraft (save : Save)
  | publish (id : ℕ) (permissions : List String)
  | setEnabled (id : ℕ) (enabled : Bool)
  | archive (id : ℕ)

/-- What a user's graph is checked against. -/
def checkedBy (id : ℕ) (permissions : List String) : ValidateOptions where
  grantedPermissions := some permissions
  selfWorkflowId := some (toString id)

def WorkflowVersion.write (v : WorkflowVersion) (status : VersionStatus) (graph : StoredGraph)
    (checksum : String) (checked : ValidateOptions) : WorkflowVersion :=
  { v with
    status := status
    graph := graph
    checksum := checksum
    checked := checked
    rewritten := v.rewritten || decide (v.status = .published) }

section Service

variable (rt : Runtime) (registry : NodeDefinitionLookup) (graphChecksum : StoredGraph → String)

/-- `validateWorkflowGraph(...).valid`, with the user's permissions. -/
def accepts (id : ℕ) (permissions : List String) (graph : StoredGraph) : Bool :=
  isValid rt registry (checkedBy id permissions) graph

/-- `create`, in one transaction. -/
def Database.create (db : Database) : Database where
  workflows := db.workflows ++ [⟨.draft, false, some db.versions.length, none⟩]
  versions := db.versions ++
    [⟨db.workflows.length, 1, .draft, emptyGraph, graphChecksum emptyGraph, {}, false⟩]

/-- The read every call begins with. -/
def begin (db : Database) : Request → Option (Database × Call)
  | .go => none
  | .create => some (db.create graphChecksum, .idle)
  | .saveDraft save => (db.mustExist save.workflowId).map fun workflow =>
    (db, match workflow.currentDraftVersionId with
      | some draft => .ensuring save draft workflow.publishedVersionId
      | none => .numbering save workflow.publishedVersionId)
  | .publish id permissions => (db.mustExist id).bind fun workflow =>
    workflow.currentDraftVersionId.map fun draft => (db, .reading id draft permissions)
  | .setEnabled id enabled => (db.mustExist id).bind fun workflow =>
    let next : WorkflowStatus := if enabled then .published else .disabled
    if (enabled ∧ workflow.publishedVersionId = none) ∨ workflow.enabled = enabled then none
    else if workflow.status.canTransition next then some (db, .enabling id enabled) else none
  | .archive id => (db.mustExist id).bind fun workflow =>
    if workflow.status.canTransition .archived then some (db, .archiving id) else none

/-- `_max.versionNumber`. -/
def Database.maxNumber (db : Database) (workflowId : ℕ) : ℕ :=
  ((db.versions.filter fun v => v.workflowId = workflowId).map (·.versionNumber)).foldr max 0

def ensure (db : Database) (save : Save) (draft : ℕ) (base : Option ℕ) : Call :=
  if db.versions[draft]?.any fun v => v.status ≠ .published then .saving save draft
  else .numbering save base

def forkFrom (db : Database) (base : Option ℕ) : StoredGraph × String :=
  match base.bind fun id => db.versions[id]? with
  | some v => (v.graph, v.checksum)
  | none => (emptyGraph, graphChecksum emptyGraph)

/-- A version number is taken once. -/
def Database.fork (db : Database) (save : Save) (number : ℕ) (graph : StoredGraph)
    (checksum : String) : Database × Call :=
  if db.versions.any fun v => v.workflowId = save.workflowId && v.versionNumber = number then
    (db, .idle)
  else
    ({ db with versions := db.versions ++
        [⟨save.workflowId, number, .draft, graph, checksum, {}, false⟩] },
      .pointing save db.versions.length)

/-- The transaction of `saveDraft`. -/
def Database.saveDraft (db : Database) (save : Save) (draft : ℕ) : Database :=
  let valid := accepts rt registry save.workflowId save.permissions save.graph
  { workflows := db.workflows.modify save.workflowId fun workflow =>
      { workflow with status := if valid then .ready else .validationFailed }
    versions := db.versions.modify draft fun v =>
      v.write (if valid then .ready else .validationFailed) save.graph (graphChecksum save.graph)
        v.checked }

/-- The transaction of `publish`. -/
def Database.publish (db : Database) (id draft : ℕ) (permissions : List String) : Database where
  workflows := db.workflows.modify id fun workflow =>
    { workflow with
      status := .published
      publishedVersionId := some draft
      currentDraftVersionId := none
      enabled := true }
  versions := db.versions.modify draft fun v =>
    v.write .published v.graph v.checksum (checkedBy id permissions)

def act (db : Database) (k : Call) (request : Request) : Option (Database × Call) :=
  match k with
  | .idle => begin graphChecksum db request
  | .ensuring save draft base => some (db, ensure db save draft base)
  | .numbering save base => some (db, .basing save base (db.maxNumber save.workflowId + 1))
  | .basing save base number =>
    let source := forkFrom graphChecksum db base
    some (db, .forking save number source.1 source.2)
  | .forking save number graph checksum => some (db.fork save number graph checksum)
  | .pointing save draft =>
    some ({ db with workflows := db.workflows.modify save.workflowId fun workflow =>
      { workflow with currentDraftVersionId := some draft } }, .saving save draft)
  | .saving save draft => some (db.saveDraft rt registry graphChecksum save draft, .idle)
  | .reading id draft permissions =>
    some (db, if db.versions[draft]?.any fun v => accepts rt registry id permissions v.graph then
      .publishing id draft permissions else .idle)
  | .publishing id draft permissions => some (db.publish id draft permissions, .idle)
  | .enabling id enabled =>
    some ({ db with workflows := db.workflows.modify id fun workflow =>
      { workflow with enabled := enabled, status := if enabled then .published else .disabled } },
      .idle)
  | .archiving id =>
    some ({ db with workflows := db.workflows.modify id fun workflow =>
      { workflow with enabled := false, status := .archived } }, .idle)

end Service

/-! ### Overlaps -/

/-- The version a call has read as a draft, or made, and is about to write. -/
def holds : Call → Option ℕ
  | .pointing _ draft | .saving _ draft | .publishing _ draft _ => some draft
  | _ => none

def publication : Call → Option (ℕ × ℕ × List String)
  | .publishing id draft permissions => some (id, draft, permissions)
  | _ => none

def saved : Call → Option (Save × ℕ)
  | .saving save draft => some (save, draft)
  | _ => none

/-- The draft a publication is about to read. -/
def asked : Call → Option (ℕ × ℕ × List String)
  | .reading id draft permissions => some (id, draft, permissions)
  | _ => none

section Overlaps

variable {ι : Type*} (rt : Runtime) (registry : NodeDefinitionLookup)

abbrev Config (ι : Type*) := Library.Interleaving.Config ι Database Call

/-- A version is published only while no other call is about to write it. A draft is saved only
with a graph that every call about to publish it would have found valid. A publication does not
find its draft published already, and valid. -/
structure Apart (c : Config ι) (i : ι) : Prop where
  publishing : ∀ p ∈ publication (c.call i), ∀ j, j ≠ i → holds (c.call j) ≠ some p.2.1
  saving : ∀ s ∈ saved (c.call i), ∀ j, ∀ p ∈ publication (c.call j), p.2.1 = s.2 →
    accepts rt registry p.1 p.2.2 s.1.graph = true
  reading : ∀ p ∈ asked (c.call i), ∀ v ∈ c.store.versions[p.2.1]?,
    accepts rt registry p.1 p.2.2 v.graph = true → v.status ≠ .published

instance [Fintype ι] [DecidableEq ι] (c : Config ι) (i : ι) : Decidable (Apart rt registry c i) :=
  decidable_of_iff
    ((∀ p ∈ publication (c.call i), ∀ j, j ≠ i → holds (c.call j) ≠ some p.2.1) ∧
      (∀ s ∈ saved (c.call i), ∀ j, ∀ p ∈ publication (c.call j), p.2.1 = s.2 →
        accepts rt registry p.1 p.2.2 s.1.graph = true) ∧
      ∀ p ∈ asked (c.call i), ∀ v ∈ c.store.versions[p.2.1]?,
        accepts rt registry p.1 p.2.2 v.graph = true → v.status ≠ .published)
    ⟨fun h => ⟨h.1, h.2.1, h.2.2⟩, fun h => ⟨h.publishing, h.saving, h.reading⟩⟩

/-- No version was written once it was published, and every published graph was found valid. No
call is about to write a published version, or to publish a graph it has not found valid. -/
structure Settled (c : Config ι) : Prop where
  versions : ∀ (d : ℕ) (v : WorkflowVersion), c.store.versions[d]? = some v → v.rewritten = false ∧
    (v.status = .published → isValid rt registry v.checked v.graph = true)
  held : ∀ i, ∀ d ∈ holds (c.call i), ∃ v, c.store.versions[d]? = some v ∧ v.status ≠ .published
  checked : ∀ i, ∀ p ∈ publication (c.call i), ∀ v ∈ c.store.versions[p.2.1]?,
    accepts rt registry p.1 p.2.2 v.graph = true

end Overlaps

/-! ### Steps -/

/-- What one step does to the versions, and what the call is then about to write. -/
inductive Effect (rt : Runtime) (registry : NodeDefinitionLookup)
    (graphChecksum : StoredGraph → String) (db db' : Database) (k k' : Call) : Prop
  | quiet (hversions : db'.versions = db.versions) (hholds : holds k' = none)
  | create (v : WorkflowVersion) (hversions : db'.versions = db.versions ++ [v])
      (hdraft : v.status = .draft) (hrewritten : v.rewritten = false)
      (hcall : k' = .idle ∨ ∃ save, k' = .pointing save db.versions.length)
  | hold (save : Save) (d : ℕ) (v : WorkflowVersion) (hversions : db'.versions = db.versions)
      (hv : db.versions[d]? = some v) (hstatus : v.status ≠ .published) (hcall : k' = .saving save d)
  | carry (save : Save) (d : ℕ) (hversions : db'.versions = db.versions)
      (hbefore : k = .pointing save d) (hcall : k' = .saving save d)
  | save (save : Save) (d : ℕ) (hbefore : k = .saving save d) (hcall : k' = .idle)
      (hstore : db' = db.saveDraft rt registry graphChecksum save d)
  | read (id d : ℕ) (permissions : List String) (v : WorkflowVersion)
      (hversions : db'.versions = db.versions) (hbefore : k = .reading id d permissions)
      (hv : db.versions[d]? = some v) (haccepts : accepts rt registry id permissions v.graph = true)
      (hcall : k' = .publishing id d permissions)
  | publish (id d : ℕ) (permissions : List String) (hbefore : k = .publishing id d permissions)
      (hcall : k' = .idle) (hstore : db' = db.publish id d permissions)

variable {rt : Runtime} {registry : NodeDefinitionLookup} {graphChecksum : StoredGraph → String}
  {db db' : Database} {k k' : Call} {request : Request}

theorem effect_begin (h : begin graphChecksum db request = some (db', k')) :
    Effect rt registry graphChecksum db db' .idle k' := by
  cases request with
  | go => cases h
  | create =>
    cases h
    exact .create _ rfl rfl rfl (.inl rfl)
  | saveDraft save =>
    obtain ⟨workflow, -, h⟩ := Option.map_eq_some_iff.1 h
    cases h
    exact .quiet rfl (by cases workflow.currentDraftVersionId <;> rfl)
  | publish id permissions =>
    obtain ⟨workflow, -, h⟩ := Option.bind_eq_some_iff.1 h
    obtain ⟨draft, -, h⟩ := Option.map_eq_some_iff.1 h
    cases h
    exact .quiet rfl rfl
  | setEnabled id enabled =>
    obtain ⟨workflow, -, h⟩ := Option.bind_eq_some_iff.1 h
    dsimp only at h
    split_ifs at h <;> cases h <;> exact .quiet rfl rfl
  | archive id =>
    obtain ⟨workflow, -, h⟩ := Option.bind_eq_some_iff.1 h
    split_ifs at h
    cases h
    exact .quiet rfl rfl

theorem effect_act (h : act rt registry graphChecksum db k request = some (db', k')) :
    Effect rt registry graphChecksum db db' k k' := by
  cases k with
  | idle => exact effect_begin h
  | ensuring save draft base =>
    cases h
    unfold ensure
    split_ifs with hmutable
    · obtain ⟨v, hv, hstatus⟩ := Option.any_eq_true _ _ |>.1 hmutable
      exact .hold save draft v rfl hv (of_decide_eq_true hstatus) rfl
    · exact .quiet rfl rfl
  | forking save number graph checksum =>
    have hfork : db.fork save number graph checksum = (db', k') := Option.some.inj h
    unfold Database.fork at hfork
    split_ifs at hfork <;> cases hfork
    · exact .quiet rfl rfl
    · exact .create _ rfl rfl rfl (.inr ⟨save, rfl⟩)
  | pointing save draft =>
    cases h
    exact .carry save draft rfl rfl rfl
  | saving save draft =>
    cases h
    exact .save save draft rfl rfl rfl
  | reading id draft permissions =>
    cases h
    split_ifs with hvalid
    · obtain ⟨v, hv, haccepts⟩ := Option.any_eq_true _ _ |>.1 hvalid
      exact .read id draft permissions v rfl rfl hv haccepts rfl
    · exact .quiet rfl rfl
  | publishing id draft permissions =>
    cases h
    exact .publish id draft permissions rfl rfl rfl
  | numbering _ _ | basing _ _ _ | enabling _ _ | archiving _ =>
    cases h
    exact .quiet rfl rfl

/-- The version a transaction writes, and the others. -/
theorem getElem?_write {d e : ℕ} {f : WorkflowVersion → WorkflowVersion} {v : WorkflowVersion}
    (h : (db.versions.modify d f)[e]? = some v) :
    ∃ u, db.versions[e]? = some u ∧ ((e = d ∧ v = f u) ∨ e ≠ d ∧ v = u) := by
  rw [List.getElem?_modify] at h
  obtain ⟨u, hu, hv⟩ := Option.map_eq_some_iff.1 h
  refine ⟨u, hu, ?_⟩
  by_cases hde : d = e
  · rw [if_pos hde] at hv
    exact .inl ⟨hde.symm, hv.symm⟩
  · rw [if_neg hde] at hv
    exact .inr ⟨fun hed => hde hed.symm, hv.symm⟩

theorem write_getElem? {d e : ℕ} {f : WorkflowVersion → WorkflowVersion} {u : WorkflowVersion}
    (h : db.versions[e]? = some u) :
    (db.versions.modify d f)[e]? = some (if e = d then f u else u) := by
  rw [List.getElem?_modify, h]
  by_cases hde : d = e
  · simp [hde]
  · simp [hde, Ne.symm hde]

/-! ### Runs -/

section Runs

variable {ι : Type*} [DecidableEq ι] {c : Config ι} {i : ι}

theorem Settled.same (h : Settled rt registry c) (hversions : db'.versions = c.store.versions)
    (hheld : ∀ d ∈ holds k', ∃ v, c.store.versions[d]? = some v ∧ v.status ≠ .published)
    (hchecked : ∀ p ∈ publication k', ∀ v ∈ c.store.versions[p.2.1]?,
      accepts rt registry p.1 p.2.2 v.graph = true) :
    Settled rt registry ⟨db', Function.update c.call i k'⟩ := by
  refine ⟨fun d v hv => ?_, fun j d hd => ?_, fun j p hp v hv => ?_⟩ <;> dsimp only at * <;>
    rw [hversions] at *
  · exact h.versions d v hv
  · by_cases hji : j = i
    · rw [hji, Function.update_self] at hd
      exact hheld d hd
    · rw [Function.update_of_ne hji] at hd
      exact h.held j d hd
  · by_cases hji : j = i
    · rw [hji, Function.update_self] at hp
      exact hchecked p hp v hv
    · rw [Function.update_of_ne hji] at hp
      exact h.checked j p hp v hv

theorem holds_of_publication {p : ℕ × ℕ × List String} (h : p ∈ publication k) : holds k = some p.2.1 := by
  unfold publication at h
  split at h <;> cases h
  rfl

theorem Settled.create {v : WorkflowVersion} (h : Settled rt registry c)
    (hversions : db'.versions = c.store.versions ++ [v]) (hdraft : v.status = .draft)
    (hrewritten : v.rewritten = false) (hpublication : publication k' = none)
    (hheld : ∀ d ∈ holds k', d = c.store.versions.length) :
    Settled rt registry ⟨db', Function.update c.call i k'⟩ := by
  have hold : ∀ {d : ℕ} {u : WorkflowVersion}, c.store.versions[d]? = some u →
      (c.store.versions ++ [v])[d]? = some u := by
    intro d u hu
    rw [List.getElem?_append_left (List.getElem?_eq_some_iff.1 hu).1]
    exact hu
  refine ⟨fun d u hu => ?_, fun j d hd => ?_, fun j p hp u hu => ?_⟩ <;> dsimp only at * <;>
    rw [hversions] at *
  · rcases Nat.lt_or_ge d c.store.versions.length with hd | hd
    · rw [List.getElem?_append_left hd] at hu
      exact h.versions d u hu
    · rw [List.getElem?_append_right hd] at hu
      obtain rfl := List.mem_singleton.1 (List.mem_of_getElem? hu)
      rw [hdraft]
      exact ⟨hrewritten, fun hpublished => by cases hpublished⟩
  · by_cases hji : j = i
    · rw [hji, Function.update_self] at hd
      rw [hheld d hd]
      refine ⟨v, by simp, ?_⟩
      rw [hdraft]
      decide
    · rw [Function.update_of_ne hji] at hd
      obtain ⟨u, hu, hstatus⟩ := h.held j d hd
      exact ⟨u, hold hu, hstatus⟩
  · by_cases hji : j = i
    · rw [hji, Function.update_self, hpublication] at hp
      cases hp
    · rw [Function.update_of_ne hji] at hp
      obtain ⟨w, hw, -⟩ := h.held j p.2.1 (holds_of_publication hp)
      cases (hold hw).symm.trans hu
      exact h.checked j p hp _ hw

/-- The transaction of a save: nothing it writes is published, and whoever is about to publish it
would have found it valid. -/
theorem Settled.save {save : Save} {d : ℕ} (h : Settled rt registry c)
    (happart : Apart rt registry c i) (hcall : c.call i = .saving save d) :
    Settled rt registry
      ⟨c.store.saveDraft rt registry graphChecksum save d, Function.update c.call i .idle⟩ := by
  have hstatus : (if accepts rt registry save.workflowId save.permissions save.graph then
      VersionStatus.ready else .validationFailed) ≠ .published := by
    split_ifs <;> decide
  have hheld : ∀ u, c.store.versions[d]? = some u → u.status ≠ .published := by
    intro u hu
    obtain ⟨w, hw, hdraft⟩ := h.held i d (by rw [hcall]; rfl)
    cases hw.symm.trans hu
    exact hdraft
  refine ⟨fun e v hv => ?_, fun j e he => ?_, fun j p hp v hv => ?_⟩ <;> dsimp only at *
  · obtain ⟨u, hu, ⟨rfl, rfl⟩ | ⟨-, rfl⟩⟩ := getElem?_write hv
    · refine ⟨?_, fun hpublished => absurd hpublished hstatus⟩
      simp [WorkflowVersion.write, (h.versions e u hu).1, hheld u hu]
    · exact h.versions e v hu
  · have hji : j ≠ i := by
      rintro rfl
      rw [Function.update_self] at he
      cases he
    rw [Function.update_of_ne hji] at he
    obtain ⟨u, hu, hdraft⟩ := h.held j e he
    refine ⟨_, write_getElem? hu, ?_⟩
    by_cases hed : e = d
    · rw [if_pos hed]
      exact hstatus
    · rw [if_neg hed]
      exact hdraft
  · have hji : j ≠ i := by
      rintro rfl
      rw [Function.update_self] at hp
      cases hp
    rw [Function.update_of_ne hji] at hp
    obtain ⟨u, hu, ⟨hd, rfl⟩ | ⟨-, rfl⟩⟩ := getElem?_write hv
    · exact happart.saving (save, d) (by rw [hcall]; rfl) j p hp hd
    · exact h.checked j p hp v hu

theorem Settled.publish {id d : ℕ} {permissions : List String} (h : Settled rt registry c)
    (happart : Apart rt registry c i) (hcall : c.call i = .publishing id d permissions) :
    Settled rt registry ⟨c.store.publish id d permissions, Function.update c.call i .idle⟩ := by
  have hself : (id, d, permissions) ∈ publication (c.call i) := by
    rw [hcall]
    rfl
  have hothers : ∀ {j e}, e ∈ holds (Function.update c.call i .idle j) → e ∈ holds (c.call j) ∧ e ≠ d := by
    intro j e he
    have hji : j ≠ i := by
      rintro rfl
      rw [Function.update_self] at he
      cases he
    rw [Function.update_of_ne hji] at he
    refine ⟨he, ?_⟩
    rintro rfl
    exact happart.publishing _ hself j hji he
  refine ⟨fun e v hv => ?_, fun j e he => ?_, fun j p hp v hv => ?_⟩ <;> dsimp only at *
  · obtain ⟨u, hu, ⟨rfl, rfl⟩ | ⟨-, rfl⟩⟩ := getElem?_write hv
    · obtain ⟨w, hw, hdraft⟩ := h.held i e (holds_of_publication hself)
      cases hw.symm.trans hu
      refine ⟨?_, fun _ => h.checked i _ hself u hu⟩
      simp [WorkflowVersion.write, (h.versions e u hu).1, hdraft]
    · exact h.versions e v hu
  · obtain ⟨he, hed⟩ := hothers he
    obtain ⟨u, hu, hdraft⟩ := h.held j e he
    refine ⟨u, ?_, hdraft⟩
    exact (write_getElem? hu).trans (by rw [if_neg hed])
  · obtain ⟨-, hpd⟩ := hothers (holds_of_publication hp)
    have hji : j ≠ i := by
      rintro rfl
      rw [Function.update_self] at hp
      cases hp
    rw [Function.update_of_ne hji] at hp
    obtain ⟨u, hu, ⟨hd, -⟩ | ⟨-, rfl⟩⟩ := getElem?_write hv
    · exact absurd hd hpd
    · exact h.checked j p hp v hu

theorem Settled.step (h : Settled rt registry c) (happart : Apart rt registry c i)
    (hact : act rt registry graphChecksum c.store (c.call i) request = some (db', k')) :
    Settled rt registry ⟨db', Function.update c.call i k'⟩ := by
  have hnone : ∀ {k : Call}, holds k = none → publication k = none := by
    intro k hk
    cases k with
    | publishing _ _ _ => cases hk
    | _ => rfl
  cases effect_act hact with
  | quiet hversions hholds =>
    exact h.same hversions (by simp [hholds]) (by simp [hnone hholds])
  | create v hversions hdraft hrewritten hcall =>
    refine h.create hversions hdraft hrewritten ?_ fun d hd => ?_ <;>
      rcases hcall with rfl | ⟨save, rfl⟩
    · rfl
    · rfl
    · cases hd
    · cases hd
      rfl
  | hold save d v hversions hv hstatus hcall =>
    subst hcall
    refine h.same hversions (fun e he => ?_) (fun p hp => by cases hp)
    cases he
    exact ⟨v, hv, hstatus⟩
  | carry save d hversions hbefore hcall =>
    subst hcall
    refine h.same hversions (fun e he => ?_) (fun p hp => by cases hp)
    cases he
    exact h.held i d (by rw [hbefore]; rfl)
  | save save d hbefore hcall hstore =>
    subst hcall hstore
    exact h.save happart hbefore
  | read id d permissions v hversions hbefore hv haccepts hcall =>
    subst hcall
    have hstatus := happart.reading (id, d, permissions) (by rw [hbefore]; rfl) v hv haccepts
    refine h.same hversions (fun e he => ?_) fun p hp u hu => ?_
    · cases he
      exact ⟨v, hv, hstatus⟩
    · cases hp
      cases hv.symm.trans hu
      exact haccepts
  | publish id d permissions hbefore hcall hstore =>
    subst hcall hstore
    exact h.publish happart hbefore

/-- Whoever edits and publishes: in a run whose steps keep apart, no published version is written
again, and its graph is one that validation accepted. -/
theorem settled_of_apart {start : Config ι} (hstore : start.store = ⟨[], []⟩)
    (hidle : ∀ i, start.call i = .idle)
    (h : Run (act rt registry graphChecksum) (Apart rt registry) start c) :
    ∀ v ∈ c.store.versions, v.rewritten = false ∧
      (v.status = .published → isValid rt registry v.checked v.graph = true) := by
  have hsettled : Settled rt registry c := by
    refine h.invariant ⟨fun d v hv => ?_, fun i d hd => ?_, fun i p hp => ?_⟩ ?_
    · rw [hstore] at hv
      cases hv
    · rw [hidle i] at hd
      cases hd
    · rw [hidle i] at hp
      cases hp
    · intro c i request db' k' hsettled happart hact
      exact hsettled.step happart hact
  intro v hv
  obtain ⟨d, hd⟩ := List.mem_iff_getElem?.1 hv
  exact hsettled.versions d v hd

end Runs

/-- A workflow that is started by hand and does nothing. -/
def manualGraph : StoredGraph := ⟨schemaVersion, [⟨"start", "trigger.manual", [], none, 0⟩], []⟩

def countNodes (graph : StoredGraph) : String := toString graph.nodes.length

def nothing : Config Bool := ⟨⟨[], []⟩, fun _ => .idle⟩

/-- A first user makes a workflow and saves a draft. -/
def drafted : List (Bool × Request) :=
  [(true, .create), (true, .saveDraft ⟨0, manualGraph, []⟩), (true, .go), (true, .go)]

/-- A second user comes to save an empty graph while the first one publishes, and is given a version
of their own. -/
theorem published_apart : ∃ c, Run (act .ascii nodeRegistry countNodes) (Apart .ascii nodeRegistry)
      nothing c ∧ (c.store.versions.map (·.status)) = [.published, .validationFailed] ∧
    ∀ v ∈ c.store.versions, v.rewritten = false ∧
      (v.status = .published → isValid .ascii nodeRegistry v.checked v.graph = true) := by
  obtain ⟨c, hrun, hc⟩ := run_of_exec_any (act .ascii nodeRegistry countNodes)
    (Apart .ascii nodeRegistry) nothing
    (drafted ++ [(true, .publish 0 []), (true, .go), (false, .saveDraft ⟨0, emptyGraph, []⟩), (true, .go)] ++
      List.replicate 6 (false, .go))
    (fun c => c.store.versions.map (·.status) = [.published, .validationFailed]) (by decide +kernel)
  exact ⟨c, hrun, of_decide_eq_true hc, settled_of_apart rfl (fun _ => rfl) hrun⟩

/-- The first user's publication has read and checked the draft when a second user saves an empty
graph over it. -/
theorem published_unchecked : ¬ ∀ c, Run (act .ascii nodeRegistry countNodes) (fun _ _ => True)
      nothing c → ∀ v ∈ c.store.versions, v.rewritten = false ∧
    (v.status = .published → isValid .ascii nodeRegistry v.checked v.graph = true) := by
  intro h
  obtain ⟨c, hrun, hc⟩ := run_of_exec_any (act .ascii nodeRegistry countNodes) (fun _ _ => True)
    nothing
    (drafted ++ [(true, .publish 0 []), (true, .go), (false, .saveDraft ⟨0, emptyGraph, []⟩),
      (false, .go), (false, .go), (true, .go)])
    (fun c => c.store.versions.any fun v => v.status = .published &&
      !isValid .ascii nodeRegistry v.checked v.graph) (by decide +kernel)
  obtain ⟨v, hv, hbad⟩ := List.any_eq_true.1 hc
  obtain ⟨hstatus, hinvalid⟩ := Bool.and_eq_true_iff.1 hbad
  have hvalid := (h c hrun v hv).2 (of_decide_eq_true hstatus)
  rw [hvalid] at hinvalid
  cases hinvalid

end UltraTorrent.Workflows.PublishedVersions
