import UltraTorrent.Intake.Pipeline

/-! The pipeline never leaves a terminal state on its own, as long as it is not sent into a
quarantine and no other call settles the job under it. -/
namespace UltraTorrent.Intake.TerminalStates

open Library.EcmaScript Library.Interleaving States Intake.Jobs Pipeline

/-- Once a job has settled it stays where it is, and no stage is begun for it. -/
def StaysSettled (log : List Happening) : Prop :=
  log.Pairwise fun e f => ∀ jobId s, s.isTerminal = true → e = .entered jobId s →
    (∀ t, f = .entered jobId t → t = s) ∧ ∀ stage, f ≠ .started jobId stage

/-- What completion events, sweeps, enqueues, drives, cancellations and the reconciler lead to,
and no release, retry or supersession does: a job is moved from a state it has not settled in. -/
def Unaided : Call → Prop
  | .retry _ | .bumping _ | .supersedeByHash _ _ | .superseding _ _ _ | .recording _ _ _ => False
  | .transition _ target _ .operator => target = .cancelled
  | .writing job _ _ _ => job.state.isTerminal = false
  | _ => True

/-- The job the next action of a call works for or moves on, and the state the call knows it
to be in. -/
def lastKnown : Call → Option (String × IntakeState)
  | .running drive _ => some (drive.ctx.jobId, drive.state)
  | .transition jobId _ _ purpose => (driveOf purpose).map fun drive => (jobId, drive.state)
  | .writing job _ _ _ => some (job.id, job.state)
  | _ => none

/-- The call is about to refuse to leave the state, or to write it once more. -/
def stays (call : Call) (s : IntakeState) : Bool :=
  match call with
  | .transition _ target _ _ => !canTransition s target
  | .writing _ target _ _ => s = target
  | _ => false

/-- No drive sets out from a quarantine, and no call moves on a job that another one has settled
since it looked. -/
def Unovertaken (db : Db) (call : Call) : Prop :=
  (∀ jobId ∈ setsOut call, db.state jobId ≠ some .quarantined) ∧
    ∀ known ∈ lastKnown call, ∀ s ∈ db.state known.1, s.isTerminal = true →
      s = known.2 ∨ stays call s = true

instance (db : Db) (call : Call) : Decidable (Unovertaken db call) :=
  inferInstanceAs (Decidable (_ ∧ _))

variable {rt : Runtime} {db db' : Db} {call : Call} {answer : Answer} {log : List Happening}
  {jobId : String}

/-! ### The journal -/

/-- The job a settled journal is about is still where it settled. -/
theorem StaysSettled.last {s : IntakeState} (h : StaysSettled log) (hterminal : s.isTerminal = true)
    (hmem : .entered jobId s ∈ log) : (states jobId log).getLast? = some s := by
  obtain ⟨l₁, l₂, rfl⟩ := List.append_of_mem hmem
  obtain ⟨-, hcons, -⟩ := List.pairwise_append.1 h
  have hsame : ∀ t ∈ states jobId l₂, t = s := fun t ht =>
    ((List.pairwise_cons.1 hcons).1 _ (mem_states.1 ht) jobId s hterminal rfl).1 t rfl
  have hstates : states jobId (.entered jobId s :: l₂) = s :: states jobId l₂ := by
    simp [states]
  rw [states_append, hstates, List.getLast?_append_of_ne_nil _ (List.cons_ne_nil _ _),
    List.getLast?_eq_some_getLast (List.cons_ne_nil _ _), Option.some.injEq]
  rcases List.mem_cons.1 (List.getLast_mem (List.cons_ne_nil s (states jobId l₂))) with hlast | hlast
  · exact hlast
  · exact hsame _ hlast

def subject : Happening → String
  | .entered jobId _ | .started jobId _ => jobId

theorem StaysSettled.concat {e : Happening} (h : StaysSettled log)
    (hopen : ∀ s ∈ (states (subject e) log).getLast?, s.isTerminal = false ∨ e = .entered (subject e) s) :
    StaysSettled (log ++ [e]) := by
  refine List.pairwise_append.2 ⟨h, List.pairwise_singleton _ _, ?_⟩
  rintro f hf _ hsingle id s hterminal rfl
  rw [List.mem_singleton.1 hsingle]
  have hsame : subject e = id → e = .entered id s := by
    rintro rfl
    rcases hopen s (h.last hterminal hf) with hlast | he
    · rw [hterminal] at hlast
      cases hlast
    · exact he
  refine ⟨fun t he => ?_, fun stage he => ?_⟩
  · cases he.symm.trans (hsame (congrArg subject he))
    rfl
  · cases he.symm.trans (hsame (congrArg subject he))

/-- The journal has settled jobs where they are, and agrees with the table. -/
structure Journal (db : Db) : Prop where
  settled : StaysSettled db.log
  current : ∀ jobId, (states jobId db.log).getLast? = db.state jobId

/-- A write of a job, as it stands in the table, that has not settled or does not move. -/
theorem Journal.step {write : Write} (h : Journal db) (happly : db.apply write = some db')
    (hopen : ∀ e ∈ write.happenings, ∀ s ∈ db.state (subject e),
      s.isTerminal = false ∨ e = .entered (subject e) s) :
    Journal db' := by
  refine ⟨?_, fun id => ?_⟩
  · rw [log_apply happly]
    have hsingle : write.happenings = [] ∨ ∃ e, write.happenings = [e] := by
      cases write <;> simp [Write.happenings]
    rcases hsingle with hnone | ⟨e, he⟩
    · rw [hnone, List.append_nil]
      exact h.settled
    · rw [he]
      refine h.settled.concat fun s hs => hopen e (by simp [he]) s ?_
      rw [← h.current]
      exact hs
  · rw [log_apply happly, states_append, List.getLast?_append, state_apply happly, h.current id]

/-! ### The calls -/

theorem unaided_proceed (drive : Drive) : Unaided (proceed drive) := by
  unfold proceed
  split
  · trivial
  · split_ifs <;> trivial

theorem unaided_archiveNext (live : List String) (jobs : List JobRow) :
    Unaided (archiveNext rt live jobs) := by
  induction jobs with
  | nil => trivial
  | cons job rest ih =>
    unfold archiveNext
    split_ifs
    · exact ih
    · trivial

theorem unaided_afterSuccess (purpose : Purpose) : Unaided (afterSuccess rt purpose) := by
  cases purpose with
  | advancing drive want => exact unaided_proceed _
  | archiving live rest => exact unaided_archiveNext live rest
  | quarantining _ _ _ | refusing _ _ | failing _ | operator => trivial

theorem unaided_afterFailure (error : String) (purpose : Purpose) :
    Unaided (afterFailure rt error purpose) := by
  cases purpose with
  | archiving live rest => exact unaided_archiveNext live rest
  | advancing _ _ | refusing _ _ | quarantining _ _ _ | failing _ | operator => trivial

theorem unaided_check {target : IntakeState} {message : Option String} {purpose : Purpose}
    (hfits : Fits jobId target purpose) (h : Unaided (.transition jobId target message purpose))
    (hunovertaken : Unovertaken db (.transition jobId target message purpose)) :
    Unaided (check rt db jobId target message purpose) := by
  unfold check
  split
  · exact unaided_afterFailure _ purpose
  · rename_i job hjob
    split_ifs with hcan
    · cases hdrive : driveOf purpose with
      | some drive =>
        have hknown := hunovertaken.2 (jobId, drive.state) (by simp [lastKnown, hdrive]) job.state
          (by simp [Db.state, hjob])
        by_contra hterminal
        have hsame : job.state = drive.state :=
          (hknown (by simpa [Unaided] using hterminal)).resolve_right (by simp [stays, hcan])
        exact hterminal (hsame.symm ▸ Fits.not_terminal hfits hdrive : job.state.isTerminal = false)
      | none =>
        refine not_terminal_of_canTransition hcan ?_
        cases purpose with
        | operator => exact .inl h
        | archiving _ _ => exact .inr hfits
        | _ => cases hdrive
    · exact unaided_afterFailure _ purpose

theorem Unaided.follow (hsound : Sound call) (h : Unaided call) (hunovertaken : Unovertaken db call) :
    Unaided (follow rt db call answer) := by
  cases call with
  | retry _ | bumping _ | supersedeByHash _ _ | superseding _ _ _ | recording _ _ _ => exact h.elim
  | returned | threw _ | creating _ _ | registering _ | running _ _ | reconcile => trivial
  | enqueue input =>
    unfold Pipeline.follow lookup
    dsimp only
    split <;> trivial
  | advance jobId =>
    unfold Pipeline.follow
    dsimp only
    split
    · trivial
    · exact unaided_proceed _
  | staging drive want =>
    unfold Pipeline.follow afterStage
    dsimp only
    split <;> trivial
  | transition jobId target message purpose => exact unaided_check hsound h hunovertaken
  | writing job target message purpose => exact unaided_afterSuccess purpose
  | surveying jobs =>
    unfold Pipeline.follow
    dsimp only
    split
    · trivial
    · exact unaided_archiveNext _ jobs

theorem open_of_happening (hsound : Sound call) (h : Unaided call)
    (hunovertaken : Unovertaken db call) (happly : db.apply (writeOf call answer) = some db') :
    ∀ e ∈ (writeOf call answer).happenings, ∀ s ∈ db.state (subject e),
      s.isTerminal = false ∨ e = .entered (subject e) s := by
  intro e he s hs
  cases call with
  | creating input key =>
    obtain rfl : e = .entered answer.jobId .completed := by
      simpa [writeOf, Write.happenings, jobOf] using he
    have hfresh : db.state answer.jobId = none := state_of_create happly
    rw [subject, hfresh] at hs
    cases hs
  | running drive want =>
    obtain rfl : e = .started drive.ctx.jobId want := by simpa [writeOf, Write.happenings] using he
    left
    by_contra hterminal
    have hsame := (hunovertaken.2 _ rfl s hs (by simpa using hterminal)).resolve_right (by simp [stays])
    exact hterminal (hsame ▸ hsound.not_terminal)
  | writing job target message purpose =>
    obtain rfl : e = .entered job.id target := by simpa [writeOf, Write.happenings] using he
    by_cases hterminal : s.isTerminal = true
    · rcases hunovertaken.2 _ rfl s hs hterminal with hsame | hstays
      · exact .inl (hsame ▸ h)
      · rw [of_decide_eq_true hstays]
        exact .inr rfl
    · exact .inl (by simpa using hterminal)
  | superseding _ _ _ => exact h.elim
  | _ => simp [writeOf, Write.happenings] at he

/-! ### Runs -/

theorem journal_opening (h : db.Opening) : Journal db := by
  have hstates : ∀ id, states id db.log = (db.state id).toList := by
    intro id
    rw [h, states, List.filterMap_map]
    exact db.jobs.filterMap_key id fun job => job.state
  refine ⟨?_, fun id => ?_⟩
  · rw [StaysSettled, h, List.pairwise_map]
    refine (List.pairwise_map.1 db.jobs.nodup).imp fun hne jobId s _ he =>
      ⟨fun t hf => ?_, by rintro _ ⟨⟩⟩
    injection he with hid _
    injection hf with hid' _
    exact absurd (hid.trans hid'.symm) hne
  · rw [hstates]
    cases db.state id <;> rfl

variable {ι : Type*} [DecidableEq ι]

/-- In a run of any number of calls in which no drive sets out from a quarantine and no call
moves on a job that was settled under it, a settled job stays as it is. -/
theorem unovertaken_staysSettled {start c : Config ι Db Call} (hopening : start.store.Opening)
    (hentry : ∀ i, isEntry (start.call i) = true) (hunaided : ∀ i, Unaided (start.call i))
    (h : Run (act rt) (alone Unovertaken) start c) : StaysSettled c.store.log := by
  suffices hinv : Inv Journal (fun _ call => Sound call ∧ Unaided call) (fun _ _ => True) c from
    hinv.store.settled
  refine h.inv (fun _ _ _ => trivial) ?_ ?_ ?_
  · exact ⟨journal_opening hopening, fun i => ⟨sound_of_isEntry (hentry i), hunaided i⟩,
      fun _ _ _ => trivial⟩
  · intro db call answer db' call' hjournal ⟨hsound, hun⟩ hunovertaken hact
    obtain ⟨-, happly, rfl⟩ := act_eq_some hact
    refine ⟨hjournal.step happly (open_of_happening hsound hun hunovertaken happly),
      hsound.follow fun jobId hcall => ?_, hun.follow hsound hunovertaken⟩
    rw [hcall] at hunovertaken
    exact hunovertaken.1 jobId rfl
  · intro db call answer db' call' other _ _ hother _ _ _
    exact ⟨hother, trivial⟩

/-- One job in a given state, and completion events for its torrent. -/
def duplicateEvents (state : IntakeState) : Config ℕ Db Call where
  store := {
    jobs := ⟨[{ id := "job", profileId := "profile", sourcePath := "/staging/a"
                torrentHash := some "hash", engineId := some "engine"
                idempotencyKey := "engine:hash:/staging/a", state := state, resumeState := none
                lastError := none, attempts := 0 }], List.nodup_singleton _⟩
    events := []
    log := [.entered "job" state] }
  call := fun _ => .enqueue ⟨"profile", "/staging/a", some "hash", some "engine", none⟩

/-- A duplicate event hands a quarantined job to the pipeline, which verifies it and moves it
on. -/
theorem quarantine_left : ∃ c, (duplicateEvents .quarantined).store.Opening ∧
    (∀ i, isEntry ((duplicateEvents .quarantined).call i) = true) ∧
    (∀ i, Unaided ((duplicateEvents .quarantined).call i)) ∧
    Run (act .ascii) (fun _ _ => True) (duplicateEvents .quarantined) c ∧
    ¬ StaysSettled c.store.log := by
  obtain ⟨c, hrun, hlog⟩ := run_of_exec_any (act .ascii) (fun _ _ => True)
    (duplicateEvents .quarantined) (List.replicate 6 (0, {}))
    (fun c => c.store.log =
      [.entered "job" .quarantined, .started "job" .verified, .entered "job" .verified])
    (by decide +kernel)
  refine ⟨c, rfl, fun _ => rfl, fun _ => trivial, hrun, fun h => ?_⟩
  rw [of_decide_eq_true hlog] at h
  exact ((List.pairwise_cons.1 h).1 _ List.mem_cons_self "job" .quarantined rfl rfl).2 _ rfl

/-- Two completion events of one job, and an operator who cancels it. -/
def eventsAndCancel : Config ℕ Db Call where
  store := (duplicateEvents .completed).store
  call i := if i = 2 then .transition "job" .cancelled none .operator else (duplicateEvents .completed).call i

theorem unaided_eventsAndCancel (i : ℕ) : Unaided (eventsAndCancel.call i) := by
  dsimp only [eventsAndCancel]
  split_ifs <;> trivial

theorem isEntry_eventsAndCancel (i : ℕ) : isEntry (eventsAndCancel.call i) = true := by
  dsimp only [eventsAndCancel]
  split_ifs <;> rfl

/-- Both drives verify the payload, and the first one quarantines it. What the second one and the
operator ask for is refused. -/
theorem quarantine_kept : ∃ c, Run (act .ascii) (alone Unovertaken) eventsAndCancel c ∧
    c.store.state "job" = some .quarantined ∧ StaysSettled c.store.log := by
  obtain ⟨c, hrun, hstate⟩ := run_of_exec_any (act .ascii) (alone Unovertaken) eventsAndCancel
    ((List.replicate 4 1 ++ List.replicate 6 0 ++ List.replicate 3 1 ++ [2]).map fun i =>
      (i, { stage := .quarantine "zero bytes" }))
    (fun c => c.store.state "job" = some .quarantined) (by decide +kernel)
  have hopening : eventsAndCancel.store.Opening := rfl
  exact ⟨c, hrun, of_decide_eq_true hstate,
    unovertaken_staysSettled hopening isEntry_eventsAndCancel unaided_eventsAndCancel hrun⟩

end UltraTorrent.Intake.TerminalStates
