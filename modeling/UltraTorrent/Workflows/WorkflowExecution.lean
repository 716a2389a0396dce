import Mathlib.Data.List.Basic
import UltraTorrent.Workflows.ExecutionPlanner

/-! The lifecycle of a workflow execution. -/
namespace UltraTorrent.Workflows.WorkflowStatus

inductive WorkflowExecutionStatus where
  | scheduled
  | queued
  | running
  | waiting
  | waitingForEvent
  | waitingForApproval
  | paused
  | retrying
  | completed
  | completedWithWarnings
  | failed
  | cancelling
  | cancelled
  | expired
  deriving DecidableEq

namespace WorkflowExecutionStatus

/-- The transitions of `ExecutionSM`. -/
def transitions : WorkflowExecutionStatus → List WorkflowExecutionStatus
  | .scheduled => [.queued, .cancelled, .expired]
  | .queued => [.running, .cancelled]
  | .running => [.waiting, .waitingForEvent, .waitingForApproval, .paused, .retrying, .completed,
      .completedWithWarnings, .failed, .cancelling]
  | .waiting | .waitingForEvent | .waitingForApproval => [.running, .cancelling, .failed, .expired]
  | .paused => [.running, .cancelling]
  | .retrying => [.queued, .running]
  | .cancelling => [.cancelled]
  | .completed | .completedWithWarnings | .failed | .cancelled | .expired => []

/-- `ExecutionSM.canTransition`. -/
def canTransition (src dst : WorkflowExecutionStatus) : Bool :=
  src = dst || dst ∈ src.transitions

def isTerminal (status : WorkflowExecutionStatus) : Bool := status.transitions.isEmpty

/-- `EXECUTION_ACTIVE.has`. -/
def isActive (status : WorkflowExecutionStatus) : Bool := !status.isTerminal

def isWaiting (status : WorkflowExecutionStatus) : Bool :=
  status ∈ [.waiting, .waitingForEvent, .waitingForApproval, .paused]

/-- Nothing leads on from a terminal status. -/
theorem eq_of_canTransition {src dst : WorkflowExecutionStatus} (hterminal : src.isTerminal = true)
    (h : src.canTransition dst = true) : dst = src := by
  rw [isTerminal, List.isEmpty_iff] at hterminal
  simp only [canTransition, hterminal, List.not_mem_nil, decide_false, Bool.or_false,
    decide_eq_true_eq] at h
  exact h.symm

end WorkflowExecutionStatus

end UltraTorrent.Workflows.WorkflowStatus

/-! The durable workflow executor, one database call or action call at a time: the run loop,
the pause points it arms, and everything that resumes or cancels an execution. A database call
that only reads what never changes, or writes what is never read, is part of the next one. -/
namespace UltraTorrent.Workflows.WorkflowExecution

open Library.EcmaScript GraphTypes ExecutionPlanner WorkflowStatus

/-! ### The database -/

/-- A row of `workflow_node_executions`. -/
structure NodeExecution where
  nodeId : String
  state : NodeRunState
  deriving DecidableEq

inductive ApprovalStatus where
  | pending
  | approved
  | rejected
  | expired
  deriving DecidableEq

structure WorkflowApproval where
  status : ApprovalStatus
  requiredPermission : Option String
  deriving DecidableEq

/-- An execution with its node rows and approvals, each in the order of their creation. The
last five fields are not stored: they count, for each node, how often a run loop has come to it,
how often its dispatch has begun and how often its action was called, and list the nodes that
were resumed with their ports, and the calls of `resume`. -/
structure Execution where
  status : WorkflowExecutionStatus
  vars : Option Value
  resumeAt : Option Instant
  expiresAt : Option Instant
  nodes : List NodeExecution
  approvals : List WorkflowApproval
  visits : String → ℕ
  rounds : String → ℕ
  calls : String → ℕ
  resumed : List (String × String)
  asked : ℕ

/-- What an execution is pinned to: its version's graph, and its own immutable columns. -/
structure Pinned where
  graph : WorkflowGraph
  inputContext : List (String × Value)
  depth : ℕ

/-- The last row of a node is the one that stays in the map. -/
def loadStates (rows : List NodeExecution) : States := fun id =>
  (rows.reverse.find? fun row => row.nodeId = id).map (·.state)

/-- `findFirst` for one node. -/
def findNode (rows : List NodeExecution) (id : String) : Option ℕ :=
  rows.findIdx? fun row => row.nodeId = id

def writeNode (rows : List NodeExecution) (existing : Option ℕ) (id : String)
    (state : NodeRunState) : List NodeExecution :=
  match existing with
  | some i => rows.modify i fun row => { row with state := state }
  | none => rows ++ [⟨id, state⟩]

/-- The waiting node `resume` finds. -/
def findWaiting (rows : List NodeExecution) : Option String :=
  (rows.find? fun row => row.state.status = .waiting).map (·.nodeId)

def NodeExecution.advance (id port : String) (row : NodeExecution) : NodeExecution :=
  if row.nodeId = id then { row with state := ⟨.succeeded, [port]⟩ } else row

/-- A node left running by a crash is marked failed. -/
def NodeExecution.interrupt (row : NodeExecution) : NodeExecution :=
  if row.state.status = .running then { row with state := { row.state with status := .failed } }
  else row

/-! ### What a run holds in memory -/

/-- The execution identity's effective authority. -/
structure IdentityGrant where
  superAdmin : Bool
  permissions : List String
  deriving DecidableEq

/-- `ACTION_PERMISSION`. -/
def actionPermission : List (String × String) :=
  [("move", "torrents.move"), ("pause", "torrents.pause"), ("stop", "torrents.stop"),
   ("delete", "torrents.delete"), ("delete_with_data", "torrents.delete_data"),
   ("rename_for_media", "media_manager.rename"), ("media_scan_library", "media_manager.scan"),
   ("media_match", "media_manager.match"),
   ("media_fetch_metadata", "media_manager.edit_metadata"),
   ("media_fetch_artwork", "media_manager.manage_artwork"),
   ("media_generate_nfo", "media_manager.generate_nfo"),
   ("media_rename", "media_manager.rename"), ("media_move", "media_manager.move_files"),
   ("media_server_refresh", "media_manager.manage_integrations"),
   ("media_run_duplicate_scan", "media_manager.scan"),
   ("media_ignore_duplicate_group", "media_manager.delete"),
   ("media_duplicate_report", "media_manager.view"),
   ("subtitle_scan_missing", "subtitle_intelligence.search"),
   ("subtitle_download", "subtitle_intelligence.download"),
   ("refresh_rss_show_status", "rss.manage"), ("disable_rss_rule", "rss.manage"),
   ("convert_rule_to_backfill", "rss.manage")]

structure Loop where
  grant : Option IdentityGrant
  states : States
  vars : Value
  iter : ℕ

def maxIterations (g : WorkflowGraph) : ℕ := g.nodes.length * 3 + 5

/-- The variables a run starts from: an input that has a key `vars` hides the saved ones. -/
def initialVars (p : Pinned) (saved : Option Value) : Value :=
  (p.inputContext.lookup "vars").getD (saved.getD (.object []))

/-- What paths are resolved in. -/
def context (p : Pinned) (vars : Value) : Value :=
  .object (("vars", vars) :: (p.inputContext ++ [("trigger", .object p.inputContext)]))

/-- Variables without keys are not saved. -/
def saveVars (saved : Option Value) (vars : Value) : Option Value :=
  match vars with
  | .object [] | .array [] | .string "" => saved
  | .object _ | .array _ | .string _ => some vars
  | _ => saved

/-! ### Where a call stands -/

/-- What follows the write of a node's row. -/
inductive Next where
  | pruned (view : PlannerView) (todo : List WorkflowNode)
  | processed (stops : Bool) (todo : List WorkflowNode)
  | armed

/-- `persistNode`. -/
structure Persist where
  node : WorkflowNode
  state : NodeRunState
  next : Next

inductive Stage where
  | check
  | prune (view : PlannerView) (todo : List WorkflowNode)
  | process (todo : List WorkflowNode)
  | dispatch (node : WorkflowNode) (attempt : ℕ) (todo : List WorkflowNode)
  | calling (node : WorkflowNode) (attempt : ℕ) (todo : List WorkflowNode)
  | save (node : WorkflowNode)
  | find (job : Persist)
  | write (job : Persist) (existing : Option ℕ)
  | approval (node : WorkflowNode)
  | park (node : WorkflowNode)
  | start (node : WorkflowNode)
  | finish (failed : Bool)

inductive Call where
  | idle
  | booting
  | interrupting
  | woken (eventKey : String)
  | deciding (approval : ℕ) (approved : Bool)
  | expiring
  | resume (port : String)
  | finding (port : String)
  | advance (nodeId port : String)
  | unpark
  | load
  | loadStates (saved : Option Value)
  | setRunning (l : Loop)
  | loop (l : Loop) (stage : Stage)
  | finalize (status : WorkflowExecutionStatus)
  | flag

inductive Answer where
  | go
  | listed (found : Bool)
  | clock (now : Instant)
  | grant (held : Option IdentityGrant)
  | action (ok : Bool)
  | started (ok : Bool)
  | event (eventKey : String)
  | respond (approval : ℕ) (approved : Bool) (permissions : List String)
  | due (now : Instant)
  | expired (now : Instant)
  | childEnded (nodeId port : String)
  | cancel

def Answer.listed? : Answer → Option Bool
  | .listed found => some found
  | _ => none

def Answer.clock? : Answer → Option Instant
  | .clock now => some now
  | _ => none

def Answer.grant? : Answer → Option (Option IdentityGrant)
  | .grant held => some held
  | _ => none

def Answer.action? : Answer → Option Bool
  | .action ok => some ok
  | _ => none

def Answer.started? : Answer → Option Bool
  | .started ok => some ok
  | _ => none

/-! ### Node processing -/

/-- A node's outcome, and whether the run stops at it. -/
structure Outcome where
  state : NodeRunState
  stops : Bool

def failure (g : WorkflowGraph) (node : WorkflowNode) : Outcome where
  state := ⟨.failed, if g.hasFailureEdge node.id then ["failure"] else []⟩
  stops := !g.hasFailureEdge node.id

def denied (grant : Option IdentityGrant) (actionId : String) : Bool :=
  match grant, actionPermission.lookup actionId with
  | some grant, some required => !grant.superAdmin && decide (required ∉ grant.permissions)
  | _, _ => false

/-- Why an action is not even tried. -/
def refusal (g : WorkflowGraph) (l : Loop) (node : WorkflowNode) : Option Outcome :=
  match node.definition.bind (·.actionId) with
  | none | some "" => some ⟨⟨.failed, []⟩, true⟩
  | some actionId => if denied l.grant actionId then some (failure g node) else none

def Outcome.persist (o : Outcome) (node : WorkflowNode) (todo : List WorkflowNode) : Stage :=
  .find ⟨node, o.state, .processed o.stops todo⟩

/-- A node the loop comes to: a pause is armed, an action dispatched, any other node done. -/
def process (rt : Runtime) (p : Pinned) (l : Loop) (node : WorkflowNode)
    (todo : List WorkflowNode) : Loop × Stage :=
  if node.pauses then (l, .save node)
  else if node.category = some .action then
    match refusal p.graph l node with
    | some outcome => (l, outcome.persist node todo)
    | none => (l, .dispatch node 1 todo)
  else
    ({ l with vars := assign rt node (context p l.vars) l.vars },
      Outcome.persist ⟨⟨.succeeded, firedPorts rt node (context p l.vars)⟩, false⟩ node todo)

/-- After an action call: the attempts go on while they are allowed. -/
def retry (g : WorkflowGraph) (node : WorkflowNode) (attempt : ℕ) (ok : Bool)
    (todo : List WorkflowNode) : Stage :=
  if ok then Outcome.persist ⟨⟨.succeeded, ["out"]⟩, false⟩ node todo
  else if ((attempt + 1 : ℕ) : ℚ) ≤ node.attemptLimit then .dispatch node (attempt + 1) todo
  else (failure g node).persist node todo

/-! ### The run loop -/

/-- Once more for one key. -/
def bump (count : String → ℕ) (id : String) : String → ℕ :=
  Function.update count id (count id + 1)

/-- The next wave, within the bound on the waves. -/
def again (g : WorkflowGraph) (l : Loop) : Call :=
  if l.iter + 1 < maxIterations g then .loop { l with iter := l.iter + 1 } .check
  else .loop l (.finish false)

/-- When the dead nodes are skipped. -/
def afterPrune (g : WorkflowGraph) (l : Loop) (view : PlannerView) : Call :=
  if view.ready.isEmpty then
    if view.quiescent || view.dead.isEmpty then .loop l (.finish false) else again g l
  else .loop l (.process view.ready)

/-- The next dead node that is not skipped yet. -/
def prune (g : WorkflowGraph) (l : Loop) (view : PlannerView) : List WorkflowNode → Call
  | [] => afterPrune g l view
  | node :: todo =>
    if (l.states node.id).map (·.status) = some .skipped then .loop l (.prune view todo)
    else .loop l (.find ⟨node, ⟨.skipped, []⟩, .pruned view todo⟩)

/-- The next ready node; after the last one the heartbeat is written. -/
def visit (rt : Runtime) (p : Pinned) (s : Execution) (l : Loop) :
    List WorkflowNode → Execution × Call
  | [] => (s, again p.graph l)
  | node :: todo =>
    let next := process rt p l node todo
    ({ s with visits := bump s.visits node.id }, .loop next.1 next.2)

/-- When a node's row is written. -/
def afterWrite (l : Loop) (job : Persist) : Call :=
  match job.next with
  | .pruned view todo =>
    .loop { l with states := Function.update l.states job.node.id (some job.state) }
      (.prune view todo)
  | .processed stops todo =>
    .loop { l with states := Function.update l.states job.node.id (some job.state) }
      (if stops then .finish true else .process todo)
  | .armed => .loop l (if job.node.category = some .approval then .approval job.node
      else .park job.node)

/-- A child can be started, below the deepest nesting allowed. -/
def canInvoke (p : Pinned) (node : WorkflowNode) : Bool :=
  node.config.workflowId ≠ "" && decide (p.depth + 1 ≤ 5)

/-- `setWaiting`, with what each category waits for. -/
def Execution.park (s : Execution) (p : Pinned) (node : WorkflowNode) (now : Instant) :
    Execution :=
  let expiresAt :=
    if 0 < node.timeoutSeconds then some (newDate (now + node.timeoutSeconds * 1000)) else none
  match node.category with
  | some .delay =>
    let resumeAt := newDate (now + node.config.duration * 1000)
    { s with status := .waiting, resumeAt := some resumeAt, expiresAt := none }
  | some .wait =>
    { s with status := .waitingForEvent, resumeAt := none, expiresAt := expiresAt }
  | some .approval =>
    { s with status := .waitingForApproval, resumeAt := none, expiresAt := expiresAt }
  | _ =>
    let expiresAt := if canInvoke p node then expiresAt else none
    { s with status := .waiting, resumeAt := none, expiresAt := expiresAt }

/-- What follows `setWaiting`: a sub-workflow has its child started, or is resumed at once. -/
def afterPark (p : Pinned) (l : Loop) (node : WorkflowNode) : Call :=
  if node.category = some .subworkflow then
    if canInvoke p node then .loop l (.start node) else .advance node.id "failure"
  else .idle

def actStage (rt : Runtime) (p : Pinned) (s : Execution) (l : Loop) (stage : Stage)
    (answer : Answer) : Option (Execution × Call) :=
  match stage with
  | .check =>
    if s.status = .cancelling then some (s, .finalize .cancelled)
    else
      let view := planExecution p.graph l.states
      some (s, .loop l (.prune view view.dead))
  | .prune view todo => some (s, prune p.graph l view todo)
  | .process todo => some (visit rt p s l todo)
  | .dispatch node attempt todo =>
    some ({ s with
      calls := bump s.calls node.id
      rounds := if attempt = 1 then bump s.rounds node.id else s.rounds },
      .loop l (.calling node attempt todo))
  | .calling node attempt todo =>
    answer.action?.map fun ok => (s, .loop l (retry p.graph node attempt ok todo))
  | .save node =>
    some ({ s with vars := saveVars s.vars l.vars },
      .loop l (.find ⟨node, ⟨.waiting, []⟩, .armed⟩))
  | .find job => some (s, .loop l (.write job (findNode s.nodes job.node.id)))
  | .write job existing =>
    some ({ s with nodes := writeNode s.nodes existing job.node.id job.state }, afterWrite l job)
  | .approval node =>
    some ({ s with approvals := s.approvals ++ [⟨.pending, node.config.requiredPermission⟩] },
      .loop l (.park node))
  | .park node => answer.clock?.map fun now => (s.park p node now, afterPark p l node)
  | .start node =>
    answer.started?.map fun ok => (s, if ok then .idle else .advance node.id "failure")
  | .finish failed =>
    some ({ s with vars := saveVars s.vars l.vars },
      .finalize (if failed then .failed else .completed))

/-! ### What begins and resumes a run -/

def mayDecide (s : Execution) (approval : ℕ) (permissions : List String) : Bool :=
  s.approvals[approval]?.any fun a => decide (a.status = .pending) &&
    a.requiredPermission.all fun required => required ∈ permissions

/-- Events, approvals, ticks, a child's end and a cancellation find their executions. -/
def begin (s : Execution) : Answer → Option (Execution × Call)
  | .event eventKey => if s.status = .waitingForEvent then some (s, .woken eventKey) else none
  | .respond approval approved permissions =>
    if mayDecide s approval permissions then some (s, .deciding approval approved) else none
  | .due now =>
    if s.status = .waiting ∧ s.resumeAt.any (· ≤ now) then some (s, .resume "out") else none
  | .expired now =>
    if s.expiresAt.any (· ≤ now) then
      match s.status with
      | .waitingForEvent => some (s, .resume "timeout")
      | .waitingForApproval => some (s, .expiring)
      | _ => none
    else none
  | .childEnded nodeId port => some (s, .advance nodeId port)
  | .cancel =>
    if s.status.isActive then
      some (s, if s.status.isWaiting then .finalize .cancelled else .flag)
    else none
  | _ => none

def awaits (g : WorkflowGraph) (rows : List NodeExecution) (eventKey : String) : Bool :=
  (findWaiting rows).any fun id =>
    (g.nodes.find? fun n => n.id = id).any fun n => n.config.eventType = some eventKey

def WorkflowApproval.decide (approved : Bool) (a : WorkflowApproval) : WorkflowApproval :=
  { a with status := if approved then .approved else .rejected }

def WorkflowApproval.expire (a : WorkflowApproval) : WorkflowApproval :=
  if a.status = .pending then { a with status := .expired } else a

def act (rt : Runtime) (p : Pinned) (s : Execution) (k : Call) (answer : Answer) :
    Option (Execution × Call) :=
  match k with
  | .idle => begin s answer
  | .booting => answer.listed?.map fun found =>
    let orphan := found && decide (s.status ∈ [.queued, .running, .retrying])
    (s, if orphan then .interrupting else .idle)
  | .interrupting => some ({ s with nodes := s.nodes.map NodeExecution.interrupt }, .load)
  | .woken eventKey =>
    some (s, if awaits p.graph s.nodes eventKey then .resume "completed" else .idle)
  | .deciding approval approved =>
    some ({ s with approvals := s.approvals.modify approval (·.decide approved) },
      .resume (if approved then "approved" else "rejected"))
  | .expiring =>
    some ({ s with approvals := s.approvals.map WorkflowApproval.expire }, .resume "timeout")
  | .resume port =>
    some ({ s with asked := s.asked + 1 }, if s.status.isWaiting then .finding port else .idle)
  | .finding port =>
    some (s, ((findWaiting s.nodes).map fun id => Call.advance id port).getD .idle)
  | .advance nodeId port =>
    some ({ s with
      nodes := s.nodes.map (·.advance nodeId port)
      resumed := s.resumed ++ [(nodeId, port)] }, .unpark)
  | .unpark => some ({ s with status := .running, resumeAt := none, expiresAt := none }, .load)
  | .load => some (s, if s.status.isActive then .loadStates s.vars else .idle)
  | .loadStates saved => answer.grant?.map fun grant =>
    (s, .setRunning ⟨grant, loadStates s.nodes, initialVars p saved, 0⟩)
  | .setRunning l => some ({ s with status := .running }, .loop l .check)
  | .loop l stage => actStage rt p s l stage answer
  | .finalize status => some ({ s with status }, .idle)
  | .flag => some ({ s with status := .cancelling }, .idle)

end UltraTorrent.Workflows.WorkflowExecution
