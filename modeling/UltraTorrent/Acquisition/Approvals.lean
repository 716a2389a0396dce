import UltraTorrent.Library.EcmaScript
import UltraTorrent.Library.Interleaving
import UltraTorrent.Library.Table

/-! The approval queue and the executor of smart downloads, for the calls that concern one
evaluation. Every call of the database and of the engine is an action of its own, and any of
them may throw. -/
namespace UltraTorrent.Acquisition.Approvals

open Library Library.EcmaScript

inductive ApprovalStatus where
  | notRequired
  | pending
  | waiting
  | approved
  | rejected
  deriving DecidableEq

def ApprovalStatus.text : ApprovalStatus → String
  | .notRequired => "not_required"
  | .pending => "pending"
  | .waiting => "waiting"
  | .approved => "approved"
  | .rejected => "rejected"

inductive Decision where
  | download
  | upgradeExisting
  | replaceExisting
  | holdForApproval
  | wait
  | skip
  deriving DecidableEq

def Decision.isUpgrade : Decision → Bool
  | .upgradeExisting | .replaceExisting => true
  | .download | .holdForApproval | .wait | .skip => false

inductive ActionStatus where
  | pending
  | running
  | completed
  | failed
  deriving DecidableEq

def ActionStatus.text : ActionStatus → String
  | .pending => "pending"
  | .running => "running"
  | .completed => "completed"
  | .failed => "failed"

/-- What a download needs in order to be acquired. -/
structure Payload where
  downloadUrl : Option String := none
  supersedeHash : Option String := none
  deriving DecidableEq

structure Action where
  id : String
  actionType : String
  status : ActionStatus
  payload : Payload
  createdAt : Instant
  deriving DecidableEq

/-- What the engine has been asked to do. -/
inductive Request where
  | add (actionId url : String)
  | remove (hash : String)
  deriving DecidableEq

structure Store where
  approvalStatus : ApprovalStatus
  decision : Decision
  actions : Table Action Action.id
  requests : List Request

/-- Who waits for an execution. -/
inductive Caller where
  | direct
  | approval
  deriving DecidableEq

inductive ExecutionResult where
  | completed (torrentHash : String) (removedHash : Option String)
  | failed (error : String)
  | skipped (error : String)
  deriving DecidableEq

/-- Where a call stands, with what it has read. -/
inductive Call where
  | approve
  | approving
  | reject
  | rejecting
  | executeForEvaluation (caller : Caller)
  | executeAction (caller : Caller) (actionId : String)
  | readingEvaluation (caller : Caller) (action : Action)
  | refusing (caller : Caller) (action : Action)
  | starting (caller : Caller) (action : Action) (url : String) (decision : Decision)
  | choosing (caller : Caller) (action : Action) (url : String) (decision : Decision)
  | adding (caller : Caller) (action : Action) (url : String) (decision : Decision)
  | superseding (caller : Caller) (actionId hash superseded : String)
  | completing (caller : Caller) (actionId hash : String) (removed : Option String)
  | failing (caller : Caller) (actionId error : String)
  | approved
  | rejected
  | executed (result : ExecutionResult)
  | threw (message : String)
  deriving DecidableEq

/-- What an action is answered with: an error it throws, or the hash of the torrent added. -/
structure Answer where
  error : Option String := none
  hash : String := ""
  deriving DecidableEq

/-- An execution that has ended goes back to who waits for it. -/
def finish (result : ExecutionResult) : Caller → Call
  | .direct => .executed result
  | .approval => .approved

def notPending (status : ApprovalStatus) : String := "Evaluation is " ++ status.text ++ ", not pending"

/-- What `executeAction` makes of the action it has read. -/
def admission (caller : Caller) : Option Action → Call
  | none => finish (.skipped "action not found") caller
  | some action =>
    if action.actionType ≠ "download_torrent" then finish (.skipped "not a download action") caller
    else if action.status ≠ .pending then
      finish (.skipped ("already " ++ action.status.text)) caller
    else .readingEvaluation caller action

def newer (best : Option Action) (a : Action) : Option Action :=
  match best with
  | none => some a
  | some b => if b.createdAt < a.createdAt then some a else some b

/-- The newest download of the evaluation that waits to be executed. -/
def Store.findPending (s : Store) : Option Action :=
  (s.actions.rows.filter fun a => a.actionType = "download_torrent" && a.status = .pending).foldl newer none

def Store.setStatus (s : Store) (actionId : String) (status : ActionStatus) : Store :=
  { s with actions := s.actions.updateAt actionId fun a => { a with status } }

def Store.ask (s : Store) (request : Request) : Store := { s with requests := s.requests ++ [request] }

/-- The engine has added the release: an upgrade removes what it supersedes. -/
def added (caller : Caller) (action : Action) (decision : Decision) (hash : String) : Call :=
  match action.payload.supersedeHash with
  | none => .completing caller action.id hash none
  | some superseded =>
    if decision.isUpgrade && superseded ≠ "" && superseded ≠ hash then
      .superseding caller action.id hash superseded
    else .completing caller action.id hash none

/-- Where nothing catches it, an error is what the call ends with. -/
def answered (s : Store) (answer : Answer) (next : Store × Call) : Store × Call :=
  match answer.error with
  | some message => (s, .threw message)
  | none => next

/-- One action of a call; `none` when it has returned. -/
def act (s : Store) (call : Call) (answer : Answer) : Option (Store × Call) :=
  match call with
  | .approve =>
    some (answered s answer
      (s, if s.approvalStatus ≠ .pending then .threw (notPending s.approvalStatus) else .approving))
  | .approving =>
    some (answered s answer ({ s with approvalStatus := .approved }, .executeForEvaluation .approval))
  | .reject =>
    some (answered s answer
      (s, if s.approvalStatus ≠ .pending then .threw (notPending s.approvalStatus) else .rejecting))
  | .rejecting => some (answered s answer ({ s with approvalStatus := .rejected }, .rejected))
  | .executeForEvaluation caller =>
    some (answered s answer (s, match s.findPending with
      | none => finish (.skipped "no pending download action") caller
      | some action => .executeAction caller action.id))
  | .executeAction caller actionId =>
    some (answered s answer (s, admission caller (s.actions.find actionId)))
  | .readingEvaluation caller action =>
    some (answered s answer (s, match action.payload.downloadUrl with
      | none | some "" => .refusing caller action
      | some url => .starting caller action url s.decision))
  | .refusing caller action =>
    -- that the failure cannot be recorded is not minded, here and in `failing`
    some (if answer.error.isSome then s else s.setStatus action.id .failed,
      finish (.failed "no download URL") caller)
  | .starting caller action url decision =>
    some (answered s answer (s.setStatus action.id .running, .choosing caller action url decision))
  | .choosing caller action url decision =>
    some (s, match answer.error with
      | some message => .failing caller action.id message
      | none => .adding caller action url decision)
  | .adding caller action url decision =>
    some (s.ask (.add action.id url), match answer.error with
      | some message => .failing caller action.id message
      | none => added caller action decision answer.hash)
  | .superseding caller actionId hash superseded =>
    some (s.ask (.remove superseded), match answer.error with
      | some message => .failing caller actionId message
      | none => .completing caller actionId hash (some superseded))
  | .completing caller actionId hash removed =>
    some (match answer.error with
      | some message => (s, .failing caller actionId message)
      | none => (s.setStatus actionId .completed, finish (.completed hash removed) caller))
  | .failing caller actionId error =>
    some (if answer.error.isSome then s else s.setStatus actionId .failed,
      finish (.failed error) caller)
  | .approved | .rejected | .executed _ | .threw _ => none

/-- What a request to the services starts as. -/
def isEntry : Call → Bool
  | .approve | .reject | .executeAction .direct _ => true
  | _ => false

end UltraTorrent.Acquisition.Approvals
