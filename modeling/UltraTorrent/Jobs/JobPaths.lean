import UltraTorrent.Jobs.PlatformJobService

/-! Whether the status column of a job follows the state machine. A change is checked against the
status that was read, and written whatever the status has become. -/
namespace UltraTorrent.Jobs.JobPaths

open Library Library.Interleaving JobStatus PlatformJobService

/-- A path of the transitions, latest value first, a value repeated or not. -/
def IsPath (history : List JobStatus) : Prop :=
  history.IsChain fun newer older => newer = older ∨ newer ∈ jobTransitions older

instance (history : List JobStatus) : Decidable (IsPath history) :=
  inferInstanceAs (Decidable (List.IsChain _ _))

/-- What a call is about to write makes the write another is about to make an illegal one. -/
def forbids (k l : Call) : Bool :=
  match k.pending, l.pending with
  | some change, some other => change.jobId = other.jobId && !canTransition change.target other.target
  | _, _ => false

variable {ι : Type*}

/-- Nothing is written between the check and the write of another call that forbids that write. -/
def Orderly (c : Config ι) (i : ι) : Prop := ∀ j, j ≠ i → forbids (c.call i) (c.call j) = false

instance [Fintype ι] [DecidableEq ι] (c : Config ι) (i : ι) : Decidable (Orderly c i) :=
  inferInstanceAs (Decidable (∀ j, j ≠ i → forbids (c.call i) (c.call j) = false))

/-- What a call is about to write is allowed. -/
def Permitted (s : Platform) (k : Call) : Prop := ∀ change ∈ k.pending, s.allows change = true

variable {s s' : Platform} {k k' l : Call} {answer : Answer} {change : Change}

/-! ### Histories -/

theorem canTransition_iff {source target : JobStatus} : canTransition source target = true ↔
    target = source ∨ target ∈ jobTransitions source := by
  rw [canTransition, Bool.or_eq_true, decide_eq_true_iff, decide_eq_true_iff, eq_comm]

theorem IsPath.apply {job : PlatformJob} (hpath : IsPath job.history)
    (h : canTransition job.status change.target = true) : IsPath (job.apply change).history :=
  List.isChain_cons_cons.2 ⟨canTransition_iff.1 h, hpath⟩

/-- A terminal status is the last. -/
theorem IsPath.eq_of_isTerminal {latest st : JobStatus} : ∀ {past : List JobStatus},
    IsPath (latest :: past) → st ∈ latest :: past → isTerminal st = true → latest = st
  | [], _, hmem, _ => (List.mem_singleton.1 hmem).symm
  | earlier :: past, hpath, hmem, hterminal => by
    obtain ⟨hstep, hpath⟩ := List.isChain_cons_cons.1 hpath
    rcases List.mem_cons.1 hmem with rfl | hmem
    · rfl
    · have hearlier := IsPath.eq_of_isTerminal hpath hmem hterminal
      subst hearlier
      exact eq_of_canTransition hterminal (canTransition_iff.2 hstep)

/-! ### One step -/

theorem paths_step (hjobs : ∀ job ∈ s.jobs, IsPath job.history) (hown : Permitted s k)
    (h : act s k answer = some (s', k')) : ∀ job ∈ s'.jobs, IsPath job.history := by
  rcases jobs_step h with ⟨change, rfl, rfl⟩ | ⟨input, rfl, hs'⟩ | hs'
  · intro job hjob
    obtain ⟨jobId, hjobId⟩ := List.mem_iff_getElem?.1 hjob
    rw [getElem?_write, Option.map_eq_some_iff] at hjobId
    obtain ⟨old, hold, rfl⟩ := hjobId
    have hpath := hjobs old (List.mem_of_getElem? hold)
    split_ifs with hid
    · obtain ⟨st, hst, hallowed⟩ := allows_iff.1 (hown change rfl)
      rw [hid, Platform.statusOf, hold] at hst
      cases hst
      exact hpath.apply hallowed
    · exact hpath
  · rw [hs']
    intro job hjob
    rcases List.mem_append.1 hjob with hjob | hjob
    · exact hjobs job hjob
    · rw [List.mem_singleton.1 hjob]
      exact .singleton _
  · rw [hs']
    exact hjobs

theorem Permitted.other (hforbids : forbids k l = false) (hother : Permitted s l)
    (h : act s k answer = some (s', k')) : Permitted s' l := by
  intro other hl
  obtain ⟨st, hst, hallowed⟩ := allows_iff.1 (hother other hl)
  rcases jobs_step h with ⟨change, rfl, rfl⟩ | ⟨input, rfl, hs'⟩ | hs'
  · refine allows_iff.2 ⟨_, by rw [statusOf_write, hst, Option.map_some], ?_⟩
    split_ifs with hid
    · have hl : l.pending = some other := hl
      rw [forbids, hl] at hforbids
      simpa [Call.pending, hid] using hforbids
    · exact hallowed
  · refine allows_iff.2 ⟨st, ?_, hallowed⟩
    rw [Platform.statusOf, hs']
    obtain ⟨job, hjob, rfl⟩ := Option.map_eq_some_iff.1 hst
    rw [List.getElem?_append_left (List.getElem?_eq_some_iff.1 hjob).1, hjob]
    rfl
  · rw [Platform.allows, Platform.statusOf, hs']
    exact hother other hl

theorem Permitted.own (h : act s k answer = some (s', k')) : Permitted s' k' := by
  intro change hpending
  obtain ⟨-, rfl, hallows⟩ := pending_step h hpending
  exact hallows

/-! ### Runs -/

variable [DecidableEq ι] {start c : Config ι}

theorem permitted_of_orderly (hjobs : ∀ job ∈ start.store.jobs, IsPath job.history)
    (hcalls : ∀ i, (start.call i).pending = none) (h : Run act Orderly start c) :
    Inv (fun s => ∀ job ∈ s.jobs, IsPath job.history) Permitted (fun _ _ => True) c := by
  have hstart : ∀ i, Permitted start.store (start.call i) := by
    intro i change hpending
    rw [hcalls i] at hpending
    cases hpending
  refine h.invariant ⟨hjobs, hstart, fun _ _ _ => trivial⟩ ?_
  intro c i answer s' k' hinv horderly hact
  refine hinv.update (fun _ _ _ => trivial) (paths_step hinv.store (hinv.call i) hact)
    (Permitted.own hact) fun j hj => ⟨?_, trivial⟩
  exact Permitted.other (horderly j hj) (hinv.call j) hact

/-- In an orderly run the status of every job follows the state machine, and a terminal status is
its last. -/
theorem isPath_of_orderly (hjobs : ∀ job ∈ start.store.jobs, IsPath job.history)
    (hcalls : ∀ i, (start.call i).pending = none) (h : Run act Orderly start c) :
    ∀ job ∈ c.store.jobs, IsPath job.history ∧
      ∀ st ∈ job.history, isTerminal st = true → job.status = st := by
  intro job hjob
  have hpath := (permitted_of_orderly hjobs hcalls h).store job hjob
  exact ⟨hpath, fun st hst hterminal => hpath.eq_of_isTerminal hst hterminal⟩

/-- A job at work, which one caller completes and another sees cancelling. -/
def atWork : PlatformJob where
  idempotencyKey := none
  status := .running
  attempt := 1
  maxAttempts := 1
  pausable := false
  resumable := false
  retryable := false
  hasInput := true
  past := [.queued]

def finishing : Config Bool where
  store := ⟨[atWork], {0}, ∅, ∅⟩
  call
    | true => .find (.transition 0 .completed)
    | false => .find (.transition 0 .cancelling)

/-- One after the other: the second is refused. -/
theorem isPath_completed : ∃ c, Run act Orderly finishing c ∧
    c.store.jobs.map (·.history) = [[.completed, .running, .queued]] ∧
    ∀ job ∈ c.store.jobs, IsPath job.history ∧
      ∀ st ∈ job.history, isTerminal st = true → job.status = st := by
  obtain ⟨c, hrun, hc⟩ := run_of_exec_any act Orderly finishing [(true, {}), (true, {}), (false, {})]
    (fun c => c.store.jobs.map (·.history) = [[.completed, .running, .queued]]) (by decide +kernel)
  exact ⟨c, hrun, of_decide_eq_true hc, isPath_of_orderly (by decide) (by decide) hrun⟩

/-- Both read that the job is running; the completed job is then written back to life. -/
theorem completed_then_cancelling : ¬ ∀ c, Run act (fun _ _ => True) finishing c →
    ∀ job ∈ c.store.jobs, IsPath job.history := by
  intro h
  obtain ⟨c, hrun, hc⟩ := run_of_exec_any act (fun _ _ => True) finishing
    [(true, {}), (false, {}), (true, {}), (false, {})]
    (fun c => c.store.jobs.any fun job => !decide (IsPath job.history)) (by decide +kernel)
  obtain ⟨job, hjob, hbroken⟩ := List.any_eq_true.1 hc
  simp [h c hrun job hjob] at hbroken

end UltraTorrent.Jobs.JobPaths
