import Mathlib.Data.Finset.Basic
import UltraTorrent.Acquisition.Approvals

/-! One call of the executor of smart downloads, from the action it reads to the result it returns.
A torrent is added, another one may be removed, and the result is written, within one `try`: whatever
throws in it, the call answers that it failed. -/
namespace UltraTorrent.Acquisition.DownloadAction

open Library Library.EcmaScript
open Approvals (Decision ActionStatus)

structure DownloadActionPayload where
  /-- A magnet link or the address of a torrent file. -/
  downloadUrl : Option String := none
  savePath : Option String := none
  /-- The torrent to remove on an upgrade. -/
  supersedeHash : Option String := none
  intakeProfileId : Option String := none
  deriving DecidableEq

structure ActionResult where
  torrentHash : String
  removedHash : Option String
  deriving DecidableEq

structure ActionRow where
  id : String
  evaluationId : String
  actionType : String
  status : ActionStatus
  payload : DownloadActionPayload
  result : Option ActionResult := none
  completedAt : Option Instant := none
  errorMessage : Option String := none
  deriving DecidableEq

structure EvaluationRow where
  id : String
  decision : Decision
  watchlistItemId : Option String := none
  actionTaken : Option String := none
  deriving DecidableEq

structure HistoryEntry where
  evaluationId : String
  watchlistItemId : Option String
  eventType : String
  message : String
  deriving DecidableEq

structure IntakeIntent where
  engineId : String
  hash : String
  profileId : String
  createdById : Option String
  consumedAt : Option Instant := none
  deriving DecidableEq

def IntakeIntent.key (intent : IntakeIntent) : String × String := (intent.engineId, intent.hash)

structure World where
  actions : Table ActionRow ActionRow.id
  evaluations : Table EvaluationRow EvaluationRow.id
  history : List HistoryEntry
  intents : Table IntakeIntent IntakeIntent.key
  /-- The hashes of the torrents that the engine holds. -/
  torrents : Finset String

structure Failure where
  message : String
  /-- The engine has refused this release. -/
  rejected : Bool := false
  deriving DecidableEq

/-- The calls an execution waits for, but for the one that adds. -/
inductive Await where
  | findAction
  | findEvaluation
  | start
  | getDefault
  | getDefaultEngineId
  | upsertIntent
  | removeTorrentAndData
  | complete
  | actionTaken
  | history
  | markFailed
  deriving DecidableEq

/-- How the calls end; one that fails has no effect. -/
structure Calls where
  fails : Await → Option Failure
  addMagnet : String → Option String → Except Failure String
  addTorrentURL : String → Option String → Except Failure String
  defaultEngineId : String
  now : Instant

inductive ExecutionResult where
  | completed (torrentHash : String) (removedHash : Option String)
  | failed (error : String) (refused : Bool)
  | skipped (error : String)
  deriving DecidableEq

section

variable (calls : Calls) (userId : Option String)

/-- A write whose failure is swallowed. -/
def attempt (call : Await) (write : World → World) (w : World) : World :=
  if (calls.fails call).isSome then w else write w

def markFailed (actionId errorMessage : String) : World → World :=
  attempt calls .markFailed fun w =>
    { w with actions := w.actions.updateAt actionId fun row =>
        { row with status := .failed, completedAt := some calls.now, errorMessage := some errorMessage } }

def recordIntakeIntent (profileId hash : String) (w : World) : World :=
  if (calls.fails .getDefaultEngineId).isSome then w
  else attempt calls .upsertIntent (fun w =>
    let intent : IntakeIntent :=
      { engineId := calls.defaultEngineId, hash, profileId, createdById := userId }
    { w with intents := (w.intents.addMissing intent).updateAt intent.key fun row =>
        { row with profileId, createdById := userId, consumedAt := none } }) w

def add (url : String) (savePath : Option String) : Except Failure String :=
  if "magnet:".toList.isPrefixOf url.toList then calls.addMagnet url savePath
  else calls.addTorrentURL url savePath

/-- The torrent that the one added takes the place of. -/
def superseded (evaluation : Option EvaluationRow) (payload : DownloadActionPayload) (hash : String) :
    Option String :=
  if evaluation.any fun e => e.decision.isUpgrade then
    payload.supersedeHash.filter fun old => old ≠ "" ∧ old ≠ hash
  else none

/-- The result is written, and then what else tells of it. -/
def complete (action : ActionRow) (evaluation : Option EvaluationRow) (hash : String)
    (removedHash : Option String) (w : World) : World × Except Failure ExecutionResult :=
  match calls.fails .complete with
  | some e => (w, .error e)
  | none =>
    let w := { w with actions := w.actions.updateAt action.id fun row =>
      { row with status := .completed, completedAt := some calls.now,
                 result := some { torrentHash := hash, removedHash } } }
    let w := attempt calls .actionTaken (fun w =>
      { w with evaluations := w.evaluations.updateAt action.evaluationId fun row =>
          { row with actionTaken := some (if removedHash.isSome then "upgraded" else "downloaded") } }) w
    let w := attempt calls .history (fun w =>
      { w with history := w.history ++
          [{ evaluationId := action.evaluationId
             watchlistItemId := evaluation.bind (·.watchlistItemId)
             eventType := if removedHash.isSome then "download.upgraded" else "download.started"
             message := match removedHash with
              | some removed => "Upgrade acquired " ++ hash ++ "; removed superseded " ++ removed
              | none => "Download started (" ++ hash ++ ")" }] }) w
    (w, .ok (.completed hash removedHash))

/-- What follows when the torrent is added. -/
def settle (action : ActionRow) (evaluation : Option EvaluationRow) (hash : String) (w : World) :
    World × Except Failure ExecutionResult :=
  let w := { w with torrents := insert hash w.torrents }
  let w := match action.payload.intakeProfileId.getD "" with
    | "" => w
    | profileId => recordIntakeIntent calls userId profileId hash w
  match superseded evaluation action.payload hash with
  | some old =>
    match calls.fails .removeTorrentAndData with
    | some e => (w, .error e)
    | none => complete calls action evaluation hash (some old) { w with torrents := w.torrents.erase old }
  | none => complete calls action evaluation hash none w

/-- The `try` of an execution. -/
def acquire (action : ActionRow) (evaluation : Option EvaluationRow) (url : String) (w : World) :
    World × Except Failure ExecutionResult :=
  match calls.fails .getDefault with
  | some e => (w, .error e)
  | none =>
    match add calls url action.payload.savePath with
    | .error e => (w, .error e)
    | .ok hash => settle calls userId action evaluation hash w

/-- The `catch` of an execution. -/
def caught (actionId : String) : World × Except Failure ExecutionResult → World × Except Failure ExecutionResult
  | (w, .ok result) => (w, .ok result)
  | (w, .error e) => (markFailed calls actionId e.message w, .ok (.failed e.message e.rejected))

def executeAction (actionId : String) (w : World) : World × Except Failure ExecutionResult :=
  match calls.fails .findAction with
  | some e => (w, .error e)
  | none =>
    match w.actions.find actionId with
    | none => (w, .ok (.skipped "action not found"))
    | some action =>
      if action.actionType ≠ "download_torrent" then (w, .ok (.skipped "not a download action"))
      else if action.status ≠ .pending then (w, .ok (.skipped ("already " ++ action.status.text)))
      else
        match calls.fails .findEvaluation with
        | some e => (w, .error e)
        | none =>
          let evaluation := w.evaluations.find action.evaluationId
          let url := action.payload.downloadUrl.getD ""
          if url = "" then
            (markFailed calls actionId "no download URL — advisory only" w, .ok (.failed "no download URL" false))
          else
            match calls.fails .start with
            | some e => (w, .error e)
            | none =>
              let w := { w with actions := w.actions.updateAt actionId fun row => { row with status := .running } }
              caught calls actionId (acquire calls userId action evaluation url w)

end

/-! ### What an answer promises -/

/-- The new torrent is there and on record, and no other one is gone but the one that is named. -/
structure Acquired (before : World) (actionId : String) (after : World) (hash : String)
    (removedHash : Option String) : Prop where
  added : hash ∈ after.torrents
  recorded : ∃ row, after.actions.find actionId = some row ∧ row.status = .completed ∧
    row.result = some ⟨hash, removedHash⟩ ∧ ∀ old, removedHash = some old → row.payload.supersedeHash = some old
  removed : ∀ old, removedHash = some old → old ∉ after.torrents
  kept : ∀ torrent ∈ before.torrents, torrent ∉ after.torrents → removedHash = some torrent

structure Honest (before : World) (actionId : String) (outcome : World × Except Failure ExecutionResult) :
    Prop where
  failed : ∀ error refused, outcome.2 = .ok (.failed error refused) → outcome.1.torrents = before.torrents
  completed : ∀ hash removedHash, outcome.2 = .ok (.completed hash removedHash) →
    Acquired before actionId outcome.1 hash removedHash

section

variable (calls : Calls) (actionId : String) (w : World)

/-- An execution that comes to add a torrent. -/
structure Adds (action : ActionRow) (hash : String) : Prop where
  reads : calls.fails .findAction = none ∧ calls.fails .findEvaluation = none
  found : w.actions.find actionId = some action
  download : action.actionType = "download_torrent"
  pending : action.status = .pending
  url : action.payload.downloadUrl.getD "" ≠ ""
  starts : calls.fails .start = none ∧ calls.fails .getDefault = none
  added : add calls (action.payload.downloadUrl.getD "") action.payload.savePath = .ok hash

/-- A failure after the torrent is added that leaves the engine changed. -/
def FailsLate (evaluation : Option EvaluationRow) (payload : DownloadActionPayload) (hash : String) : Prop :=
  match superseded evaluation payload hash with
  | some old =>
    (calls.fails .removeTorrentAndData).isSome ∧ hash ∉ w.torrents ∨
    calls.fails .removeTorrentAndData = none ∧ (calls.fails .complete).isSome ∧
      (hash ∉ w.torrents ∨ old ∈ w.torrents)
  | none => (calls.fails .complete).isSome ∧ hash ∉ w.torrents

end

variable {calls : Calls} {userId : Option String} {actionId : String} {w : World} {action : ActionRow}
  {evaluation : Option EvaluationRow} {hash : String}

/-! ### What the single writes leave alone -/

/-- A write that is attempted keeps what the write keeps. -/
theorem attempt_eq {α : Type*} (read : World → α) {call : Await} {write : World → World} {w : World}
    (h : read (write w) = read w) : read (attempt calls call write w) = read w := by
  unfold attempt
  split_ifs
  · rfl
  · exact h

@[simp] theorem torrents_markFailed (errorMessage : String) (w : World) :
    (markFailed calls actionId errorMessage w).torrents = w.torrents := by
  apply attempt_eq World.torrents
  rfl

@[simp] theorem torrents_recordIntakeIntent (profileId : String) (w : World) :
    (recordIntakeIntent calls userId profileId hash w).torrents = w.torrents := by
  unfold recordIntakeIntent
  split_ifs
  · rfl
  · apply attempt_eq World.torrents
    rfl

@[simp] theorem actions_recordIntakeIntent (profileId : String) (w : World) :
    (recordIntakeIntent calls userId profileId hash w).actions = w.actions := by
  unfold recordIntakeIntent
  split_ifs
  · rfl
  · apply attempt_eq World.actions
    rfl

theorem caught_error (e : Failure) : caught calls actionId (w, .error e) =
    (markFailed calls actionId e.message w, .ok (.failed e.message e.rejected)) := rfl

theorem complete_error {removedHash : Option String} {e : Failure} (h : calls.fails .complete = some e) :
    complete calls action evaluation hash removedHash w = (w, .error e) := by
  unfold complete
  rw [h]

theorem complete_ok (action : ActionRow) (evaluation : Option EvaluationRow) (hash : String)
    (removedHash : Option String) (w : World) (h : calls.fails .complete = none) :
    ∃ after, complete calls action evaluation hash removedHash w =
        (after, .ok (.completed hash removedHash)) ∧
      after.torrents = w.torrents ∧
      after.actions.find action.id = (w.actions.find action.id).map fun row =>
        { row with status := .completed, completedAt := some calls.now,
                   result := some { torrentHash := hash, removedHash } } := by
  unfold complete
  rw [h]
  refine ⟨_, rfl, ?_, ?_⟩
  · rw [attempt_eq World.torrents, attempt_eq World.torrents] <;> rfl
  · rw [attempt_eq World.actions, attempt_eq World.actions]
    · rw [Table.find_updateAt_self]
    · rfl
    · rfl

/-! ### Answers -/

theorem honest_failed {before after : World} {error : String} {refused : Bool} :
    Honest before actionId (after, .ok (.failed error refused)) ↔ after.torrents = before.torrents :=
  ⟨fun h => h.failed _ _ rfl, fun h => ⟨fun _ _ _ => h, nofun⟩⟩

theorem Honest.of_idle {before : World} {outcome : Except Failure ExecutionResult}
    (h : ∀ result, outcome = .ok result → ∃ error, result = .skipped error) :
    Honest before actionId (w, outcome) := by
  refine ⟨fun error refused hresult => ?_, fun hash removedHash hresult => ?_⟩
  · obtain ⟨_, hskipped⟩ := h _ hresult
    cases hskipped
  · obtain ⟨_, hskipped⟩ := h _ hresult
    cases hskipped

/-- An error in the `try` is an honest failure when the engine is as before. -/
theorem honest_caught_error {before : World} (e : Failure) :
    Honest before actionId (caught calls actionId (w, .error e)) ↔ w.torrents = before.torrents := by
  rw [caught_error, honest_failed, torrents_markFailed]

theorem honest_complete {before : World} {row : ActionRow} {removedHash : Option String}
    (hcomplete : calls.fails .complete = none) (hrow : w.actions.find action.id = some row)
    (hadded : hash ∈ w.torrents)
    (hremoved : ∀ old, removedHash = some old → old ∉ w.torrents ∧ row.payload.supersedeHash = some old)
    (hkept : ∀ torrent ∈ before.torrents, torrent ∉ w.torrents → removedHash = some torrent) :
    Honest before action.id (caught calls action.id (complete calls action evaluation hash removedHash w)) := by
  obtain ⟨after, hresult, htorrents, hafter⟩ :=
    complete_ok action evaluation hash removedHash w hcomplete
  rw [hresult]
  refine ⟨nofun, fun hash' removedHash' h => ?_⟩
  cases h
  rw [hrow, Option.map_some] at hafter
  refine ⟨?_, ⟨_, hafter, rfl, rfl, fun old hold => (hremoved old hold).2⟩, fun old hold => ?_, ?_⟩
  · change hash ∈ after.torrents
    rw [htorrents]
    exact hadded
  · change old ∉ after.torrents
    rw [htorrents]
    exact (hremoved old hold).1
  · change ∀ torrent ∈ before.torrents, torrent ∉ after.torrents → _
    rw [htorrents]
    exact hkept

theorem superseded_eq_some {payload : DownloadActionPayload} {old : String}
    (h : superseded evaluation payload hash = some old) : payload.supersedeHash = some old ∧ old ≠ hash := by
  unfold superseded at h
  split_ifs at h
  rw [Option.filter_eq_some_iff] at h
  simp only [decide_eq_true_eq] at h
  exact ⟨h.1, h.2.2⟩

theorem erase_insert_eq_self {torrents : Finset String} {old : String} (hne : old ≠ hash) :
    (insert hash torrents).erase old = torrents ↔ hash ∈ torrents ∧ old ∉ torrents := by
  refine ⟨fun h => ⟨?_, ?_⟩, fun ⟨hhash, hold⟩ => ?_⟩
  · rw [← h]
    exact Finset.mem_erase.2 ⟨hne.symm, Finset.mem_insert_self ..⟩
  · rw [← h]
    exact Finset.notMem_erase _ _
  · rw [Finset.insert_eq_of_mem hhash, Finset.erase_eq_of_notMem hold]

theorem honest_settle {before : World} {row : ActionRow} (hrow : w.actions.find action.id = some row)
    (hpayload : row.payload = action.payload) (htorrents : w.torrents = before.torrents) :
    Honest before action.id (caught calls action.id (settle calls userId action evaluation hash w)) ↔
      ¬ FailsLate calls before evaluation action.payload hash := by
  obtain ⟨staged, hstaged, hactions, hsettle⟩ : ∃ staged : World,
      staged.torrents = insert hash before.torrents ∧ staged.actions = w.actions ∧
      settle calls userId action evaluation hash w =
        match superseded evaluation action.payload hash with
        | some old =>
          match calls.fails .removeTorrentAndData with
          | some e => (staged, .error e)
          | none => complete calls action evaluation hash (some old)
              { staged with torrents := staged.torrents.erase old }
        | none => complete calls action evaluation hash none staged := by
    refine ⟨_, ?_, ?_, rfl⟩
    · rw [← htorrents]
      split
      · rfl
      · rw [torrents_recordIntakeIntent]
    · split
      · rfl
      · rw [actions_recordIntakeIntent]
  have hfound : staged.actions.find action.id = some row := hactions ▸ hrow
  rw [hsettle, FailsLate]
  cases hold : superseded evaluation action.payload hash with
  | none =>
    dsimp only
    cases hcomplete : calls.fails .complete with
    | some e =>
      rw [complete_error hcomplete, honest_caught_error, hstaged, Finset.insert_eq_self]
      simp
    | none =>
      refine iff_of_true (honest_complete hcomplete hfound ?_ nofun fun torrent hmem hgone => ?_) (by simp)
      · rw [hstaged]
        exact Finset.mem_insert_self ..
      · rw [hstaged] at hgone
        exact absurd (Finset.mem_insert_of_mem hmem) hgone
  | some old =>
    obtain ⟨hsupersede, hne⟩ := superseded_eq_some hold
    dsimp only
    cases hremove : calls.fails .removeTorrentAndData with
    | some e =>
      rw [honest_caught_error, hstaged, Finset.insert_eq_self]
      simp
    | none =>
      dsimp only
      cases hcomplete : calls.fails .complete with
      | some e =>
        rw [complete_error hcomplete, honest_caught_error]
        change staged.torrents.erase old = before.torrents ↔ _
        rw [hstaged, erase_insert_eq_self hne]
        simp [not_or]
      | none =>
        refine iff_of_true (honest_complete hcomplete hfound ?_ ?_ ?_) (by simp)
        · change hash ∈ staged.torrents.erase old
          rw [hstaged, Finset.mem_erase]
          exact ⟨hne.symm, Finset.mem_insert_self ..⟩
        · rintro _ ⟨⟩
          exact ⟨Finset.notMem_erase _ _, hpayload ▸ hsupersede⟩
        · intro torrent hmem hgone
          change torrent ∉ staged.torrents.erase old at hgone
          rw [hstaged, Finset.mem_erase] at hgone
          by_contra hnamed
          exact hgone ⟨fun h => hnamed (congrArg some h.symm), Finset.mem_insert_of_mem hmem⟩

/-! ### The whole call -/

theorem executeAction_of_adds (h : Adds calls actionId w action hash) :
    executeAction calls userId actionId w = caught calls action.id (settle calls userId action
      (w.evaluations.find action.evaluationId) hash
      { w with actions := w.actions.updateAt action.id fun row => { row with status := .running } }) := by
  obtain rfl : action.id = actionId := (Table.find_eq_some.1 h.found).2
  simp only [executeAction, h.reads.1, h.found, h.download, h.pending, h.reads.2, h.url, h.starts.1, acquire,
    h.starts.2, h.added, ne_eq, not_true_eq_false, if_false]

/-- A call that adds no torrent answers that it failed, or that there is nothing to do, or throws; the
engine is as it was. -/
theorem honest_of_not_adds (h : ∀ action hash, ¬ Adds calls actionId w action hash) :
    Honest w actionId (executeAction calls userId actionId w) := by
  unfold executeAction
  cases hread : calls.fails .findAction with
  | some e => exact .of_idle nofun
  | none =>
    cases hfound : w.actions.find actionId with
    | none => exact .of_idle fun _ hresult => ⟨_, (Except.ok.inj hresult).symm⟩
    | some action =>
      have hskip : ∀ error, Honest w actionId (w, .ok (.skipped error)) := fun error =>
        .of_idle fun _ hresult => ⟨error, (Except.ok.inj hresult).symm⟩
      dsimp only
      by_cases htype : action.actionType = "download_torrent"
      · rw [if_neg (not_not.2 htype)]
        by_cases hstatus : action.status = .pending
        · rw [if_neg (not_not.2 hstatus)]
          cases hevaluation : calls.fails .findEvaluation with
          | some e => exact .of_idle nofun
          | none =>
            dsimp only
            by_cases hurl : action.payload.downloadUrl.getD "" = ""
            · rw [if_pos hurl, honest_failed, torrents_markFailed]
            · rw [if_neg hurl]
              cases hstart : calls.fails .start with
              | some e => exact .of_idle nofun
              | none =>
                unfold acquire
                cases hengine : calls.fails .getDefault with
                | some e => exact (honest_caught_error e).2 rfl
                | none =>
                  cases hadd : add calls (action.payload.downloadUrl.getD "") action.payload.savePath with
                  | error e => exact (honest_caught_error e).2 rfl
                  | ok hash =>
                    exact absurd ⟨⟨hread, hevaluation⟩, hfound, htype, hstatus, hurl, ⟨hstart, hengine⟩, hadd⟩
                      (h action hash)
        · rw [if_pos hstatus]
          exact hskip _
      · rw [if_pos htype]
        exact hskip _

/-- The answer of a call is honest unless a failure comes after the torrent is added. -/
theorem executeAction_honest_iff (calls : Calls) (userId : Option String) (actionId : String) (w : World) :
    Honest w actionId (executeAction calls userId actionId w) ↔ ∀ action hash,
      Adds calls actionId w action hash →
        ¬ FailsLate calls w (w.evaluations.find action.evaluationId) action.payload hash := by
  by_cases hadds : ∃ action hash, Adds calls actionId w action hash
  · obtain ⟨action, hash, hadds⟩ := hadds
    obtain rfl : action.id = actionId := (Table.find_eq_some.1 hadds.found).2
    have hunique : ∀ action' hash', Adds calls action.id w action' hash' → action' = action ∧ hash' = hash := by
      intro action' hash' hadds'
      obtain rfl := Option.some.inj (hadds'.found.symm.trans hadds.found)
      exact ⟨rfl, Except.ok.inj (hadds'.added.symm.trans hadds.added)⟩
    rw [executeAction_of_adds hadds]
    have hrow : (w.actions.updateAt action.id fun row => { row with status := .running }).find action.id =
        some { action with status := .running } := by
      rw [Table.find_updateAt_self, hadds.found]
      rfl
    refine Iff.trans (honest_settle hrow rfl rfl) ⟨fun h action' hash' hadds' => ?_, fun h => h action hash hadds⟩
    obtain ⟨rfl, rfl⟩ := hunique action' hash' hadds'
    exact h
  · push Not at hadds
    exact iff_of_true (honest_of_not_adds hadds) fun action hash h => absurd h (hadds action hash)

/-- An upgrade that waits to be executed. -/
def upgrade : ActionRow where
  id := "a1"
  evaluationId := "e1"
  actionType := "download_torrent"
  status := .pending
  payload := { downloadUrl := some "magnet:?xt=urn:btih:c0ffee", supersedeHash := some "decaf" }

/-- The engine holds the copy that is to be replaced. -/
def library : World where
  actions := ⟨[upgrade], List.nodup_singleton _⟩
  evaluations := ⟨[{ id := "e1", decision := .upgradeExisting }], List.nodup_singleton _⟩
  history := []
  intents := ⟨[], List.nodup_nil⟩
  torrents := {"decaf"}

/-- Everything succeeds but the removal. -/
def stubborn : Calls where
  fails call := if call = .removeTorrentAndData then some { message := "rpc timeout" } else none
  addMagnet _ _ := .ok "c0ffee"
  addTorrentURL _ _ := .ok "c0ffee"
  defaultEngineId := "default"
  now := 1000

/-- The call answers that it failed, and the new torrent stays. -/
theorem stubborn_not_honest : ¬ Honest library "a1" (executeAction stubborn none "a1" library) := by
  intro h
  have htorrents := h.failed "rpc timeout" false rfl
  have hadded : "c0ffee" ∈ (executeAction stubborn none "a1" library).1.torrents := by decide
  rw [htorrents] at hadded
  exact absurd hadded (by decide)

end UltraTorrent.Acquisition.DownloadAction
