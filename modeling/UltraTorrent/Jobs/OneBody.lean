import UltraTorrent.Jobs.JobPaths

/-! Whether a job has one body at a time, and a key one active job. A repeated key is handed the
job that is already being run, whose body is then run again. -/
namespace UltraTorrent.Jobs.OneBody

open Library Library.Interleaving JobStatus PlatformJobService JobPaths

/-- The job a call is about to run, is running, or has just run. -/
def inHand : Call → Option ℕ
  | .launch h | .body h | .delay h => some h.jobId
  | .find change | .update change => some change.jobId
  | .leave jobId => some jobId
  | _ => none

/-- The entry points that run a body. -/
def isEntry : Call → Bool
  | .run _ | .resume _ | .retry _ => true
  | _ => false

def serves : Call → Bool
  | .requestCancel _ | .requestCancelIdle _ | .requestPause _ => false
  | _ => true

/-- The call may pick up this job with its next step: its key finds it active, `resume` finds it
paused, `retry` finds it failed. -/
def picks (s : Platform) : Call → ℕ → Bool
  | .run input, jobId => s.jobs[jobId]?.any input.joins
  | .resume id, jobId => id = jobId && s.jobs[jobId]?.any fun job => job.status = paused && job.resumable
  | .retry id, jobId => id = jobId && s.jobs[jobId]?.any fun job => job.status = failed && job.hasInput
  | _, _ => false

/-- The job is active under the key. -/
def carries (key : String) (job : PlatformJob) : Bool := job.idempotencyKey = some key && isActive job.status

/-- The key under which the next step of a call makes a job active. -/
def wakes (s : Platform) : Call → Option String
  | .create input => input.idempotencyKey
  | .update change => s.jobs[change.jobId]?.bind fun job =>
    if isActive job.status || !isActive change.target then none else job.idempotencyKey
  | _ => none

def creates (key : String) : Call → Bool
  | .create input => input.idempotencyKey = some key
  | _ => false

/-- The next step makes a job active under a key that was not looked up, and is carried. -/
def doubles (s : Platform) (k : Call) : Bool :=
  (wakes s k).any fun key => (key = "" || !creates key k) && s.jobs.any (carries key)

/-- The next step picks up the job that another call has in hand, or makes a job active under the
key another is about to create a job under. -/
def collides (s : Platform) (k l : Call) : Bool :=
  (inHand l).any (picks s k) || (wakes s k).any (creates · l)

variable {ι : Type*}

/-- Jobs are picked up when no other call has them in hand, and keys taken when no other call
takes them. -/
def Separate (c : Config ι) (i : ι) : Prop :=
  doubles c.store (c.call i) = false ∧ ∀ j, j ≠ i → collides c.store (c.call i) (c.call j) = false

instance [Fintype ι] [DecidableEq ι] (c : Config ι) (i : ι) : Decidable (Separate c i) :=
  inferInstanceAs (Decidable (_ ∧ ∀ j, j ≠ i → _))

/-- A key has one active job. -/
def OneActive (s : Platform) : Prop := ∀ key, ∀ id id' : ℕ, s.jobs[id]?.any (carries key) →
  s.jobs[id']?.any (carries key) → id = id'

/-- Two calls have different jobs in hand. -/
def Apart (k l : Call) : Prop := ∀ id, inHand k = some id → inHand l ≠ some id

theorem Apart.symm {k l : Call} (h : Apart k l) : Apart l k := fun id hl hk => h id hk hl

variable {s s' : Platform} {k k' l : Call} {answer : Answer} {change : Change} {id : ℕ} {key : String}

/-! ### Jobs in hand -/

theorem inHand_caught {h : Handler} {retryable : Option Bool}
    (hid : inHand (caught h retryable) = some id) : id = h.jobId := by
  unfold caught at hid
  split_ifs at hid <;> cases hid <;> rfl

theorem inHand_made (hid : inHand change.made = some id) : id = change.jobId := by
  cases change with
  | transition _ _ | requestCancel _ | cancelIdle _ | requestPause _ => cases hid
  | _ =>
    cases hid
    rfl

theorem inHand_refused (hid : inHand change.refused = some id) : id = change.jobId := by
  cases change with
  | finishSuccess h warned => exact inHand_caught hid
  | transition _ _ | requestCancel _ | cancelIdle _ | requestPause _ | resume _ | retry _
  | retryQueued _ => cases hid
  | _ =>
    cases hid
    rfl

theorem inHand_afterBody {h : Handler} {outcome : Outcome}
    (hid : inHand (afterBody h outcome) = some id) : id = h.jobId := by
  cases outcome with
  | error retryable => exact inHand_caught hid
  | _ =>
    cases hid
    rfl

theorem any_of_filter {p : PlatformJob → Bool} {jobId : ℕ} {job : PlatformJob}
    (h : s.jobs[jobId]?.filter p = some job) : s.jobs[jobId]?.any p = true := by
  obtain ⟨hjob, hp⟩ := Option.filter_eq_some_iff.1 h
  rw [hjob]
  exact hp

theorem inHand_enqueue {input : EnqueueJobInput} {row : Option ℕ} (h : enqueue s input row = some k)
    (hid : inHand k = some id) : picks s (.run input) id = true := by
  cases row with
  | none =>
    unfold enqueue at h
    dsimp only at h
    split_ifs at h
    cases h
    cases hid
  | some jobId =>
    obtain ⟨job, hjob, rfl⟩ := Option.map_eq_some_iff.1 h
    cases hid
    exact any_of_filter hjob

/-- A job comes into a call's hand by being picked up, or created. -/
theorem inHand_step (hserves : serves k = true) (h : act s k answer = some (s', k'))
    (hid : inHand k' = some id) :
    inHand k = some id ∨ picks s k id = true ∨ ∃ input, k = .create input ∧ id = s.jobs.length := by
  cases k with
  | run input =>
    obtain ⟨l, hl, h⟩ := Option.map_eq_some_iff.1 h
    cases h
    exact .inr (.inl (inHand_enqueue hl hid))
  | create input =>
    cases h
    cases hid
    exact .inr (.inr ⟨input, rfl, rfl⟩)
  | launch handler =>
    cases h
    exact .inl hid
  | find change =>
    obtain ⟨-, ⟨-, rfl⟩ | ⟨-, rfl⟩⟩ := find_step h
    · exact .inl hid
    · exact .inl (congrArg some (inHand_refused hid).symm)
  | update change =>
    cases h
    exact .inl (congrArg some (inHand_made hid).symm)
  | body handler =>
    cases h
    exact .inl (congrArg some (inHand_afterBody hid).symm)
  | delay handler =>
    cases h
    split_ifs at hid <;> exact .inl hid
  | leave jobId =>
    cases h
    cases hid
  | resume jobId =>
    cases h
    cases hjob : s.jobs[jobId]? with
    | none =>
      rw [hjob] at hid
      cases hid
    | some job =>
      simp only [hjob, Option.elim_some, resumed] at hid
      split_ifs at hid with hpaused
      · cases hid
        exact .inr (.inl (by simp [picks, hjob, hpaused, PlatformJob.handler, Change.jobId]))
      · cases hid
  | retry jobId =>
    cases h
    cases hjob : s.jobs[jobId]? with
    | none =>
      rw [hjob] at hid
      cases hid
    | some job =>
      simp only [hjob, Option.elim_some, retried] at hid
      split_ifs at hid with hfailed
      · cases hid
        exact .inr (.inl (by simp [picks, hjob, hfailed, PlatformJob.handler, Change.jobId]))
      · cases hid
  | done => cases h
  | _ => cases hserves

/-! ### Beginnings -/

/-- The call has not come to a job yet. -/
def isHead : Call → Bool
  | .run _ | .create _ | .resume _ | .retry _ | .requestCancel _ | .requestCancelIdle _
  | .requestPause _ => true
  | _ => false

@[simp] theorem isHead_caught (h : Handler) (retryable : Option Bool) :
    isHead (caught h retryable) = false := by
  unfold caught
  split_ifs <;> rfl

@[simp] theorem isHead_made (change : Change) : isHead change.made = false := by
  cases change <;> rfl

@[simp] theorem isHead_refused (change : Change) : isHead change.refused = false := by
  cases change with
  | finishSuccess h warned => exact isHead_caught h none
  | _ => rfl

@[simp] theorem isHead_afterBody (h : Handler) (outcome : Outcome) :
    isHead (afterBody h outcome) = false := by
  cases outcome with
  | error retryable => exact isHead_caught h retryable
  | _ => rfl

/-- A lookup that finds nothing leads to the creation of a job, and only that does. -/
theorem head_step (hserves : serves k = true) (h : act s k answer = some (s', k'))
    (hhead : isHead k' = true) :
    ∃ input, k = .run input ∧ k' = .create input ∧ s' = s ∧ s.jobs.any input.joins = false := by
  cases k with
  | run input =>
    obtain ⟨l, hl, h⟩ := Option.map_eq_some_iff.1 h
    cases h
    cases hrow : answer.row with
    | none =>
      rw [hrow, enqueue] at hl
      split_ifs at hl with hany
      cases hl
      exact ⟨input, rfl, rfl, rfl, eq_false_of_ne_true hany⟩
    | some jobId =>
      rw [hrow, enqueue] at hl
      obtain ⟨job, -, rfl⟩ := Option.map_eq_some_iff.1 hl
      cases hhead
  | find change =>
    obtain ⟨-, ⟨-, rfl⟩ | ⟨-, rfl⟩⟩ := find_step h
    · cases hhead
    · simp at hhead
  | update change =>
    cases h
    simp at hhead
  | body handler =>
    cases h
    simp at hhead
  | delay handler =>
    cases h
    split_ifs at hhead <;> cases hhead
  | resume jobId =>
    cases h
    cases hjob : s.jobs[jobId]? with
    | none => simp [hjob, isHead] at hhead
    | some job =>
      simp only [hjob, Option.elim_some, resumed] at hhead
      split_ifs at hhead <;> cases hhead
  | retry jobId =>
    cases h
    cases hjob : s.jobs[jobId]? with
    | none => simp [hjob, isHead] at hhead
    | some job =>
      simp only [hjob, Option.elim_some, retried] at hhead
      split_ifs at hhead <;> cases hhead
  | create _ | launch _ | leave _ =>
    cases h
    cases hhead
  | done => cases h
  | _ => cases hserves

theorem serves_of_not_isHead (h : isHead k = false) : serves k = true := by
  cases k with
  | requestCancel _ | requestCancelIdle _ | requestPause _ => cases h
  | _ => rfl

theorem serves_step (hserves : serves k = true) (h : act s k answer = some (s', k')) :
    serves k' = true := by
  cases hhead : isHead k' with
  | false => exact serves_of_not_isHead hhead
  | true =>
    obtain ⟨input, -, rfl, -⟩ := head_step hserves h hhead
    rfl

/-! ### Carriers -/

/-- The call that is about to create a job under a key has seen that no active job carries it. -/
def Looked (s : Platform) (k : Call) : Prop := ∀ key, creates key k = true → key ≠ "" →
  s.jobs.any (carries key) = false

theorem creates_eq_true : creates key k = true ↔
    ∃ input, k = .create input ∧ input.idempotencyKey = some key := by
  cases k <;> simp [creates]

theorem Looked.own (hserves : serves k = true) (h : act s k answer = some (s', k')) : Looked s' k' := by
  intro key hcreates hkey
  obtain ⟨input, rfl, hinput⟩ := creates_eq_true.1 hcreates
  obtain ⟨input', rfl, hcall, rfl, hnone⟩ := head_step hserves h rfl
  cases hcall
  have hjoins : input.joins = carries key := by
    funext job
    simp [EnqueueJobInput.joins, carries, hinput, hkey]
  rwa [hjoins] at hnone

/-- The job that the next step of a call may make active. -/
def woken (s : Platform) : Call → ℕ
  | .update change => change.jobId
  | _ => s.jobs.length

/-- A job is active under a key if it was, or has been made so by this step. -/
theorem carries_step (h : act s k answer = some (s', k'))
    (hcarries : s'.jobs[id]?.any (carries key) = true) :
    s.jobs[id]?.any (carries key) = true ∨ wakes s k = some key ∧ id = woken s k := by
  rcases jobs_step h with ⟨change, rfl, rfl⟩ | ⟨input, rfl, hs'⟩ | hs'
  · rw [getElem?_write] at hcarries
    cases hjob : s.jobs[id]? with
    | none => simp [hjob] at hcarries
    | some job =>
      simp only [hjob, Option.map_some, Option.any_some] at hcarries ⊢
      split_ifs at hcarries with hid
      · simp only [carries, Bool.and_eq_true, decide_eq_true_eq] at hcarries
        obtain ⟨hkey, hactive⟩ := hcarries
        have hactive : isActive change.target = true := hactive
        cases hold : isActive job.status with
        | true => exact .inl (by simp [carries, hold, show job.idempotencyKey = some key from hkey])
        | false =>
          refine .inr ⟨?_, hid.symm⟩
          simp only [wakes, hid, hjob, Option.bind_some, hold, hactive]
          exact hkey
      · exact .inl hcarries
  · rw [hs'] at hcarries
    by_cases hid : id < s.jobs.length
    · rw [List.getElem?_append_left hid] at hcarries
      exact .inl hcarries
    · rw [List.getElem?_append_right (not_lt.1 hid)] at hcarries
      have hid : id = s.jobs.length := by
        rcases Nat.lt_or_ge (id - s.jobs.length) 1 with hlt | hge
        · omega
        · rw [List.getElem?_eq_none (by simpa using hge)] at hcarries
          cases hcarries
      subst hid
      simp only [Nat.sub_self, List.getElem?_cons_zero, Option.any_some, carries, Bool.and_eq_true,
        decide_eq_true_eq] at hcarries
      exact .inr ⟨hcarries.1, rfl⟩
  · rw [hs'] at hcarries
    exact .inl hcarries

theorem any_jobs_iff {p : PlatformJob → Bool} : s.jobs.any p = true ↔
    ∃ id : ℕ, s.jobs[id]?.any p = true := by
  simp only [List.any_eq_true, List.mem_iff_getElem?, Option.any_eq_true]
  constructor
  · rintro ⟨job, ⟨id, hid⟩, hp⟩
    exact ⟨id, job, hid, hp⟩
  · rintro ⟨id, job, hid, hp⟩
    exact ⟨job, ⟨id, hid⟩, hp⟩

theorem not_carried (hlooked : Looked s k) (hdoubles : doubles s k = false)
    (hwakes : wakes s k = some key) : s.jobs.any (carries key) = false := by
  rw [doubles, hwakes, Option.any_some, Bool.and_eq_false_iff] at hdoubles
  rcases hdoubles with hkey | hcarried
  · simp only [Bool.or_eq_false_iff, decide_eq_false_iff_not, Bool.not_eq_false'] at hkey
    exact hlooked key hkey.2 hkey.1
  · exact hcarried

theorem OneActive.step (hone : OneActive s) (hlooked : Looked s k) (hdoubles : doubles s k = false)
    (h : act s k answer = some (s', k')) : OneActive s' := by
  intro key id id' hid hid'
  have hfree : wakes s k = some key → ∀ id : ℕ, s.jobs[id]?.any (carries key) = true → False := by
    intro hwakes id hid
    have hnone := not_carried hlooked hdoubles hwakes
    rw [any_jobs_iff.2 ⟨id, hid⟩] at hnone
    cases hnone
  rcases carries_step h hid with hold | ⟨hwakes, rfl⟩ <;>
    rcases carries_step h hid' with hold' | ⟨hwakes', rfl⟩
  · exact hone key id id' hold hold'
  · exact (hfree hwakes' id hold).elim
  · exact (hfree hwakes id' hold').elim
  · rfl

theorem Looked.other (hother : Looked s l) (hcollides : collides s k l = false)
    (h : act s k answer = some (s', k')) : Looked s' l := by
  intro key hcreates hkey
  rw [← Bool.not_eq_true, any_jobs_iff]
  rintro ⟨id, hid⟩
  rcases carries_step h hid with hold | ⟨hwakes, -⟩
  · have hnone := hother key hcreates hkey
    rw [any_jobs_iff.2 ⟨id, hold⟩] at hnone
    cases hnone
  · rw [collides, hwakes, Option.any_some, hcreates, Bool.or_true] at hcollides
    cases hcollides

/-! ### Runs -/

/-- What holds of each call. -/
structure Sound (s : Platform) (k : Call) : Prop where
  serves : serves k = true
  inHand : ∀ id, inHand k = some id → id < s.jobs.length
  looked : Looked s k

theorem length_step (h : act s k answer = some (s', k')) : s.jobs.length ≤ s'.jobs.length := by
  rcases jobs_step h with ⟨change, rfl, rfl⟩ | ⟨input, rfl, hs'⟩ | hs'
  · simp [Platform.write]
  · simp [hs']
  · rw [hs']

theorem lt_of_any {p : PlatformJob → Bool} (h : s.jobs[id]?.any p = true) : id < s.jobs.length := by
  obtain ⟨job, hjob, -⟩ := (Option.any_eq_true _ _).1 h
  exact (List.getElem?_eq_some_iff.1 hjob).1

theorem lt_of_picks (h : picks s k id = true) : id < s.jobs.length := by
  cases k with
  | run input => exact lt_of_any h
  | resume jobId | retry jobId =>
    rw [picks, Bool.and_eq_true] at h
    exact lt_of_any h.2
  | _ => cases h

theorem Sound.own (hsound : Sound s k) (h : act s k answer = some (s', k')) : Sound s' k' := by
  refine ⟨serves_step hsound.serves h, fun id hid => ?_, Looked.own hsound.serves h⟩
  rcases inHand_step hsound.serves h hid with hold | hpicks | ⟨input, rfl, rfl⟩
  · exact (hsound.inHand id hold).trans_le (length_step h)
  · exact (lt_of_picks hpicks).trans_le (length_step h)
  · cases h
    simp

theorem Sound.other (hsound : Sound s l) (hcollides : collides s k l = false)
    (h : act s k answer = some (s', k')) : Sound s' l :=
  ⟨hsound.serves, fun id hid => (hsound.inHand id hid).trans_le (length_step h),
    hsound.looked.other hcollides h⟩

theorem Apart.step (hapart : Apart k l) (hsound : Sound s k) (hother : Sound s l)
    (hcollides : collides s k l = false) (h : act s k answer = some (s', k')) : Apart k' l := by
  intro id hid hl
  rcases inHand_step hsound.serves h hid with hold | hpicks | ⟨input, rfl, rfl⟩
  · exact hapart id hold hl
  · rw [collides, hl, Option.any_some, hpicks, Bool.true_or] at hcollides
    cases hcollides
  · exact absurd (hother.inHand _ hl) (lt_irrefl _)

theorem sound_of_isEntry (h : isEntry k = true) : Sound s k ∧ inHand k = none := by
  cases k with
  | run _ | resume _ | retry _ =>
    refine ⟨⟨rfl, fun id hid => ?_, fun key hcreates => ?_⟩, rfl⟩
    · cases hid
    · cases hcreates
  | _ => cases h

variable [DecidableEq ι] {start c : Config ι}

/-- In a run in which jobs are picked up and keys taken by one call at a time, the bodies of a job
do not overlap and a key has one active job. -/
theorem one_body_of_separate (hone : OneActive start.store) (hentry : ∀ i, isEntry (start.call i) = true)
    (h : Run act Separate start c) :
    (∀ i j hi hj, i ≠ j → c.call i = .body hi → c.call j = .body hj → hi.jobId ≠ hj.jobId) ∧
      OneActive c.store := by
  have hinv : Inv OneActive Sound Apart c := by
    refine h.invariant ⟨hone, fun i => (sound_of_isEntry (hentry i)).1, fun i j _ id hid => ?_⟩ ?_
    · rw [(sound_of_isEntry (s := start.store) (hentry i)).2] at hid
      cases hid
    · rintro c i answer s' k' hinv ⟨hdoubles, hcollides⟩ hact
      have hsound := hinv.call i
      refine hinv.update (fun _ _ => Apart.symm) (hinv.store.step hsound.looked hdoubles hact)
        (hsound.own hact) fun j hj => ⟨(hinv.call j).other (hcollides j hj) hact, ?_⟩
      exact (hinv.pair i j hj.symm).step hsound (hinv.call j) (hcollides j hj) hact
  refine ⟨fun i j hi hj hij hbody hbody' hid => ?_, hinv.store⟩
  have hapart := hinv.pair i j hij
  rw [hbody, hbody'] at hapart
  exact hapart hi.jobId rfl (congrArg some hid.symm)

/-- Two calls with one key, and nothing in the table. -/
def keyed : EnqueueJobInput where
  idempotencyKey := some "library-scan"
  maxAttempts := none
  capabilities := ⟨false, false, false⟩
  defaultMaxAttempts := none
  hasInput := true

def twice : Config Bool where
  store := ⟨[], ∅, ∅, ∅⟩
  call _ := .run keyed

/-- As many steps of a call that finds no row. -/
def steps (call : Bool) (n : ℕ) : List (Bool × Answer) := List.replicate n (call, {})

/-- The second comes when the first has finished. -/
theorem one_after_the_other : ∃ c, Run act Separate twice c ∧ c.store.jobs.length = 2 ∧
    (∀ i j hi hj, i ≠ j → c.call i = .body hi → c.call j = .body hj → hi.jobId ≠ hj.jobId) ∧
      OneActive c.store := by
  obtain ⟨c, hrun, hc⟩ := run_of_exec_any act Separate twice
    (steps true 9 ++ steps false 2)
    (fun c => c.store.jobs.length = 2) (by decide +kernel)
  refine ⟨c, hrun, of_decide_eq_true hc, one_body_of_separate ?_ (by decide) hrun⟩
  intro key id id' hid
  cases hid

/-- The second is handed the job that the first is running, and runs its body as well. -/
theorem two_bodies : ¬ ∀ c, Run act (fun _ _ => True) twice c →
    (∀ i j hi hj, i ≠ j → c.call i = .body hi → c.call j = .body hj → hi.jobId ≠ hj.jobId) ∧
      OneActive c.store := by
  intro h
  obtain ⟨c, hrun, hc⟩ := run_of_exec_any act (fun _ _ => True) twice
    (steps true 5 ++ (false, { row := some 0 }) :: steps false 3)
    (fun c => c.call true = .body (keyed.job.handler 0) && c.call false = .body (keyed.job.handler 0))
    (by decide +kernel)
  simp only [Bool.and_eq_true, decide_eq_true_eq] at hc
  exact (h c hrun).1 true false _ _ (by decide) hc.1 hc.2 rfl

end UltraTorrent.Jobs.OneBody
