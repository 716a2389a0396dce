import Mathlib.Data.List.Basic
import UltraTorrent.Library.Table

/-! The lifecycle of one intake: a straight line from `queued` to `archived`, and three exits
that are states of their own. -/
namespace UltraTorrent.Intake.States

inductive IntakeState where
  | queued
  | downloading
  | completed
  | verified
  | identified
  | qualityScored
  | readyToImport
  | importing
  | imported
  | metadataReady
  | artworkReady
  | subtitleReady
  | seeding
  | archived
  | failed
  | quarantined
  | cancelled
  deriving DecidableEq

def IntakeState.text : IntakeState → String
  | .queued => "queued"
  | .downloading => "downloading"
  | .completed => "completed"
  | .verified => "verified"
  | .identified => "identified"
  | .qualityScored => "quality_scored"
  | .readyToImport => "ready_to_import"
  | .importing => "importing"
  | .imported => "imported"
  | .metadataReady => "metadata_ready"
  | .artworkReady => "artwork_ready"
  | .subtitleReady => "subtitle_ready"
  | .seeding => "seeding"
  | .archived => "archived"
  | .failed => "failed"
  | .quarantined => "quarantined"
  | .cancelled => "cancelled"

def intakeStates : List IntakeState :=
  [.queued, .downloading, .completed, .verified, .identified, .qualityScored, .readyToImport,
   .importing, .imported, .metadataReady, .artworkReady, .subtitleReady, .seeding, .archived,
   .failed, .quarantined, .cancelled]

/-- States the pipeline will never leave on its own. -/
def terminalIntakeStates : List IntakeState := [.archived, .failed, .quarantined, .cancelled]

def IntakeState.isTerminal (s : IntakeState) : Bool := terminalIntakeStates.contains s

/-- The head of each list is where a stage leads on success. -/
def happyPath : IntakeState → List IntakeState
  | .queued => [.completed, .downloading]
  | .downloading => [.completed]
  | .completed => [.verified, .quarantined]
  | .verified => [.identified, .quarantined]
  | .identified => [.qualityScored]
  | .qualityScored => [.readyToImport]
  | .readyToImport => [.importing]
  | .importing => [.imported]
  | .imported => [.metadataReady, .quarantined]
  | .metadataReady => [.artworkReady]
  | .artworkReady => [.subtitleReady]
  | .subtitleReady => [.seeding, .archived]
  | .seeding => [.archived]
  | .archived | .cancelled => []
  -- a retry may re-enter anywhere
  | .failed => intakeStates.filter fun s => !s.isTerminal
  -- the ways out of a quarantine are an operator's
  | .quarantined => [.verified, .identified, .failed]

/-- Every state that is still moving may fail or be cancelled. -/
def canTransition (source target : IntakeState) : Bool :=
  if source = target then false
  else if source.isTerminal ∧ source ≠ .failed ∧ source ≠ .quarantined then false
  else if target = .failed ∨ target = .cancelled then !source.isTerminal
  else (happyPath source).contains target

def nextState (source : IntakeState) : Option IntakeState := (happyPath source).head?

/-! ### The state machine -/

variable {s t : IntakeState}

theorem canTransition_failed (h : s.isTerminal = false) : canTransition s .failed = true := by
  cases s <;> first | rfl | cases h

/-- Only an intake that is still moving is cancelled or archived. -/
theorem not_terminal_of_canTransition (h : canTransition s t = true)
    (ht : t = .cancelled ∨ t = .archived) : s.isTerminal = false := by
  rcases ht with rfl | rfl <;> cases s <;> first | rfl | cases h

theorem canTransition_closed (h : s = .archived ∨ s = .cancelled) : canTransition s t = false := by
  rcases h with rfl | rfl <;> cases t <;> rfl

end UltraTorrent.Intake.States

/-! The intake jobs, their timeline, and a journal of the visits a job makes to its states and
of the stages whose work was begun there. -/
namespace UltraTorrent.Intake.Jobs

open Library States

structure JobRow where
  id : String
  profileId : String
  sourcePath : String
  torrentHash : Option String
  engineId : Option String
  idempotencyKey : String
  state : IntakeState
  resumeState : Option IntakeState
  lastError : Option String
  attempts : ℕ

structure EventRow where
  jobId : String
  fromState : Option IntakeState
  toState : IntakeState
  message : Option String
  /-- Written for a supersession, which is no move of the pipeline's. -/
  supersedes : Bool

inductive Happening where
  | entered (jobId : String) (state : IntakeState)
  | started (jobId : String) (stage : IntakeState)
  deriving DecidableEq

structure Db where
  jobs : Table JobRow (·.id)
  events : List EventRow
  log : List Happening

namespace Db

def state (db : Db) (jobId : String) : Option IntakeState := (db.jobs.find jobId).map (·.state)

def timeline (db : Db) (jobId : String) : List EventRow := db.events.filter (·.jobId = jobId)

/-- Where the timeline says the job is. -/
def lastTo (db : Db) (jobId : String) : Option IntakeState :=
  (db.timeline jobId).getLast?.map (·.toState)

/-- The visits on record are those the jobs are making when they are first looked at. -/
def Opening (db : Db) : Prop := db.log = db.jobs.rows.map fun job => .entered job.id job.state

end Db

/-- What one action of a call does to the tables, or begins. -/
inductive Write where
  | nothing
  | create (job : JobRow)
  | record (event : EventRow)
  | move (job : JobRow) (target : IntakeState) (message : Option String)
  | bump (jobId : String)
  | supersede (jobId key : String)
  | start (jobId : String) (stage : IntakeState)

/-- The row a transition writes over the one it read. A failure remembers where it happened,
so that a retry resumes there. -/
def moveRow (read : JobRow) (target : IntakeState) (message : Option String) (row : JobRow) : JobRow :=
  { row with
    state := target
    resumeState := if target = .failed then some read.state
      else if target = .queued then none else read.resumeState
    lastError := if target = .failed then message.or read.lastError else none }

def supersedeRow (key : String) (row : JobRow) : JobRow :=
  { row with state := .archived, idempotencyKey := key }

def bumpRow (row : JobRow) : JobRow := { row with attempts := row.attempts + 1 }

def Write.happenings : Write → List Happening
  | .create job => [.entered job.id job.state]
  | .move job target _ => [.entered job.id target]
  | .supersede jobId _ => [.entered jobId .archived]
  | .start jobId stage => [.started jobId stage]
  | .nothing | .record _ | .bump _ => []

def Write.rows : Write → List EventRow
  | .move job target message => [⟨job.id, some job.state, target, message, false⟩]
  | .record event => [event]
  | .nothing | .create _ | .bump _ | .supersede _ _ | .start _ _ => []

/-- `none` where the database refuses: no such row to update, or a key already taken. -/
def Db.apply (db : Db) (write : Write) : Option Db :=
  let done := { db with events := db.events ++ write.rows, log := db.log ++ write.happenings }
  match write with
  | .nothing | .record _ | .start _ _ => some done
  | .create job =>
    if db.jobs.rows.any (·.idempotencyKey = job.idempotencyKey) then none
    else (db.jobs.insert [job]).map fun jobs => { done with jobs := jobs }
  | .move job target message => (db.jobs.find job.id).map fun _ =>
      { done with jobs := db.jobs.updateAt job.id (moveRow job target message) }
  | .bump jobId => (db.jobs.find jobId).map fun _ =>
      { done with jobs := db.jobs.updateAt jobId bumpRow }
  | .supersede jobId key =>
    if db.jobs.rows.any (·.idempotencyKey = key) then none
    else (db.jobs.find jobId).map fun _ =>
      { done with jobs := db.jobs.updateAt jobId (supersedeRow key) }

/-- The states a job has been in. -/
def states (jobId : String) (log : List Happening) : List IntakeState :=
  log.filterMap fun
    | .entered id state => if id = jobId then some state else none
    | .started _ _ => none

/-! ### What a write changes -/

variable {db db' : Db} {write : Write}

theorem states_append (jobId : String) (l₁ l₂ : List Happening) :
    states jobId (l₁ ++ l₂) = states jobId l₁ ++ states jobId l₂ :=
  List.filterMap_append

theorem mem_states {jobId : String} {state : IntakeState} {log : List Happening} :
    state ∈ states jobId log ↔ Happening.entered jobId state ∈ log := by
  rw [states, List.mem_filterMap]
  constructor
  · rintro ⟨e, he, hs⟩
    cases e with
    | entered id s =>
      simp only [Option.ite_none_right_eq_some, Option.some.injEq] at hs
      obtain ⟨rfl, rfl⟩ := hs
      exact he
    | started _ _ => simp at hs
  · intro he
    exact ⟨_, he, if_pos rfl⟩

theorem apply_spec (h : db.apply write = some db') :
    db'.log = db.log ++ write.happenings ∧ db'.events = db.events ++ write.rows := by
  cases write with
  | nothing | record _ | start _ _ =>
    rw [← Option.some.inj h]
    exact ⟨rfl, rfl⟩
  | create _ | supersede _ _ =>
    simp only [Db.apply] at h
    split_ifs at h
    obtain ⟨_, _, rfl⟩ := Option.map_eq_some_iff.1 h
    exact ⟨rfl, rfl⟩
  | move _ _ _ | bump _ =>
    obtain ⟨_, _, rfl⟩ := Option.map_eq_some_iff.1 h
    exact ⟨rfl, rfl⟩

theorem log_apply (h : db.apply write = some db') : db'.log = db.log ++ write.happenings :=
  (apply_spec h).1

theorem events_apply (h : db.apply write = some db') : db'.events = db.events ++ write.rows :=
  (apply_spec h).2

/-- The state column holds what was last written to it. -/
theorem state_apply (h : db.apply write = some db') (jobId : String) :
    db'.state jobId = (states jobId write.happenings).getLast?.or (db.state jobId) := by
  cases write with
  | nothing | record _ | start _ _ =>
    rw [← Option.some.inj h]
    rfl
  | bump id =>
    obtain ⟨_, _, rfl⟩ := Option.map_eq_some_iff.1 h
    exact Table.map_find_updateAt (f := bumpRow) (g := JobRow.state) (fun _ => rfl) (fun _ => rfl) jobId
  | create job =>
    simp only [Db.apply] at h
    split_ifs at h
    obtain ⟨jobs, hjobs, rfl⟩ := Option.map_eq_some_iff.1 h
    by_cases hid : jobId = job.id
    · simp [Db.state, Write.happenings, states, hid, Table.find_of_insert_new hjobs]
    · simp [Db.state, Write.happenings, states, hid, Ne.symm hid,
        Table.find_of_insert_old hjobs (k := jobId)]
  | move job target message =>
    obtain ⟨row, hrow, rfl⟩ := Option.map_eq_some_iff.1 h
    refine (Table.map_find_updateAt_set (f := moveRow job target message) (g := JobRow.state)
      (v := target) (fun _ => rfl) (fun _ => rfl) hrow jobId).trans ?_
    by_cases hid : jobId = job.id <;> simp [Write.happenings, states, hid, Ne.symm, Db.state]
  | supersede id key =>
    simp only [Db.apply] at h
    split_ifs at h
    obtain ⟨row, hrow, rfl⟩ := Option.map_eq_some_iff.1 h
    refine (Table.map_find_updateAt_set (f := supersedeRow key) (g := JobRow.state)
      (v := .archived) (fun _ => rfl) (fun _ => rfl) hrow jobId).trans ?_
    by_cases hid : jobId = id <;> simp [Write.happenings, states, hid, Ne.symm, Db.state]

theorem state_of_create {job : JobRow} (h : db.apply (.create job) = some db') :
    db.state job.id = none := by
  simp only [Db.apply] at h
  split_ifs at h
  obtain ⟨jobs, hjobs, -⟩ := Option.map_eq_some_iff.1 h
  rw [Db.state, Table.find_eq_none_of_insert hjobs (List.mem_singleton_self job)]
  rfl

theorem timeline_apply (h : db.apply write = some db') (jobId : String) :
    db'.timeline jobId = db.timeline jobId ++ write.rows.filter (·.jobId = jobId) := by
  rw [Db.timeline, events_apply h, List.filter_append]
  rfl

theorem lastTo_apply (h : db.apply write = some db') (jobId : String) :
    db'.lastTo jobId = ((write.rows.filter (·.jobId = jobId)).getLast?.map (·.toState)).or
      (db.lastTo jobId) := by
  rw [Db.lastTo, timeline_apply h, List.getLast?_append]
  cases (write.rows.filter (·.jobId = jobId)).getLast? <;> rfl

end UltraTorrent.Intake.Jobs
