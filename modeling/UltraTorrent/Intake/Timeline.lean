import Mathlib.Data.List.Chain
import UltraTorrent.Intake.Pipeline

/-! The timeline of a job is its history, as long as the calls on it do not overlap in a drive
or write over one another, and every supersession comes to record its event. -/
namespace UltraTorrent.Intake.Timeline

open Library.EcmaScript Library.Interleaving States Intake.Jobs Pipeline

/-- The events of a job lead from one to the next, each by a legal move unless it records a
supersession. -/
structure TrueTimeline (db : Db) (jobId : String) : Prop where
  chain : (db.timeline jobId).IsChain fun e f => f.fromState = some e.toState
  legal : ∀ e ∈ db.timeline jobId, e.supersedes = false → ∀ s, e.fromState = some s →
    canTransition s e.toState = true

/-- The stages begun since a job entered the state it is in. -/
def stagesOfVisit (jobId : String) (log : List Happening) : List IntakeState :=
  log.foldl (fun stages happening => match happening with
    | .entered id _ => if id = jobId then [] else stages
    | .started id stage => if id = jobId then stage :: stages else stages) []

/-- At no time has a stage been begun twice in one visit. -/
def OncePerVisit (log : List Happening) : Prop :=
  ∀ l, l <+: log → ∀ jobId, (stagesOfVisit jobId l).Nodup

def flightOf : Call → Option Drive
  | .running drive _ | .staging drive _ => some drive
  | .transition _ _ _ purpose | .writing _ _ _ purpose => driveOf purpose
  | _ => none

/-- The job a call has superseded without having recorded it yet. -/
def halfway : Call → Option String
  | .recording job _ _ => some job.id
  | _ => none

/-- The job the next action of a call begins a stage of or writes the state of, and the state
the call last knew it in. -/
def changes : Call → Option (String × IntakeState)
  | .running drive _ => some (drive.ctx.jobId, drive.state)
  | .writing job _ _ _ | .superseding job _ _ => some (job.id, job.state)
  | _ => none

variable {ι : Type*}

/-- No call changes a job that has moved since it looked, and no drive sets out from a
quarantine or while another drive of the job is under way. -/
def Orderly (c : Config ι Db Call) (i : ι) : Prop :=
  (∀ known ∈ changes (c.call i), c.store.state known.1 = some known.2) ∧
    ∀ jobId ∈ setsOut (c.call i), c.store.state jobId ≠ some .quarantined ∧
      ∀ j, j ≠ i → ∀ drive ∈ flightOf (c.call j), drive.ctx.jobId ≠ jobId

/-- Registering a job is not among the calls on it. -/
def registers : Call → Bool
  | .enqueue _ | .creating _ _ | .registering _ => true
  | _ => false

variable {rt : Runtime} {db db' : Db} {call : Call} {answer : Answer} {jobId : String}

/-! ### The visits -/

theorem stagesOfVisit_append (jobId : String) (log : List Happening) (e : Happening) :
    stagesOfVisit jobId (log ++ [e]) = match e with
      | .entered id _ => if id = jobId then [] else stagesOfVisit jobId log
      | .started id stage => if id = jobId then stage :: stagesOfVisit jobId log
          else stagesOfVisit jobId log := by
  rw [stagesOfVisit, List.foldl_append]
  rfl

theorem OncePerVisit.concat {log : List Happening} {e : Happening} (h : OncePerVisit log)
    (hnew : ∀ id, (stagesOfVisit id (log ++ [e])).Nodup) : OncePerVisit (log ++ [e]) := by
  intro l hl id
  rcases List.prefix_concat_iff.1 hl with rfl | hprefix
  · exact hnew id
  · exact h l hprefix id

theorem OncePerVisit.self {log : List Happening} (h : OncePerVisit log) (jobId : String) :
    (stagesOfVisit jobId log).Nodup := h log (List.prefix_refl log) jobId

/-! ### What a call goes on with -/

/-- A call that registers and supersedes nothing, and makes no drive but that of a given job. -/
structure Leads (ctx : Option StageContext) (call : Call) : Prop where
  registers : registers call = false
  flight : ∀ drive ∈ flightOf call, ctx = some drive.ctx
  halfway : halfway call = none

theorem leads_returned (ctx : Option StageContext) : Leads ctx .returned := ⟨rfl, nofun, rfl⟩

theorem leads_threw (ctx : Option StageContext) (message : String) : Leads ctx (.threw message) :=
  ⟨rfl, nofun, rfl⟩

theorem leads_proceed (drive : Drive) : Leads (some drive.ctx) (proceed drive) := by
  unfold proceed
  split
  · exact leads_returned _
  · split_ifs
    · exact ⟨rfl, fun d hd => by cases hd; rfl, rfl⟩
    · exact leads_returned _

theorem leads_archiveNext (ctx : Option StageContext) (live : List String) (jobs : List JobRow) :
    Leads ctx (archiveNext rt live jobs) := by
  induction jobs with
  | nil => exact leads_returned ctx
  | cons job rest ih =>
    unfold archiveNext
    split_ifs
    · exact ih
    · exact ⟨rfl, by rintro _ ⟨⟩, rfl⟩

theorem leads_supersedeNext (ctx : Option StageContext) (reason : String) (jobs : List JobRow) :
    Leads ctx (supersedeNext reason jobs) := by
  cases jobs with
  | nil => exact leads_returned ctx
  | cons job rest => exact ⟨rfl, nofun, rfl⟩

theorem leads_transition {ctx : Option StageContext} {target : IntakeState}
    {message : Option String} {purpose : Purpose} (h : (driveOf purpose).map (·.ctx) = ctx) :
    Leads ctx (.transition jobId target message purpose) := by
  refine ⟨rfl, fun d hd => ?_, rfl⟩
  rw [← h, show driveOf purpose = some d from hd]
  rfl

theorem leads_writing {ctx : Option StageContext} {job : JobRow} {target : IntakeState}
    {message : Option String} {purpose : Purpose} (h : (driveOf purpose).map (·.ctx) = ctx) :
    Leads ctx (.writing job target message purpose) := by
  refine ⟨rfl, fun d hd => ?_, rfl⟩
  rw [← h, show driveOf purpose = some d from hd]
  rfl

theorem leads_afterStage (drive : Drive) (want : IntakeState) (result : StageResult) :
    Leads (some drive.ctx) (afterStage drive want result) := by
  cases result <;> exact leads_transition rfl

theorem leads_afterSuccess (purpose : Purpose) :
    Leads ((driveOf purpose).map (·.ctx)) (afterSuccess rt purpose) := by
  cases purpose with
  | advancing drive want => exact leads_proceed { drive with state := want }
  | archiving live rest => exact leads_archiveNext _ live rest
  | quarantining _ _ _ | refusing _ _ | failing _ | operator => exact leads_returned _

theorem leads_afterFailure (error : String) (purpose : Purpose) :
    Leads ((driveOf purpose).map (·.ctx)) (afterFailure rt error purpose) := by
  cases purpose with
  | archiving live rest => exact leads_archiveNext _ live rest
  | advancing _ _ | refusing _ _ | quarantining _ _ _ => exact leads_transition rfl
  | failing _ | operator => exact leads_threw _ error

theorem leads_check (target : IntakeState) (message : Option String) (purpose : Purpose) :
    Leads ((driveOf purpose).map (·.ctx)) (check rt db jobId target message purpose) := by
  unfold check
  split
  · exact leads_afterFailure _ purpose
  · split_ifs
    · exact leads_writing rfl
    · exact leads_afterFailure _ purpose

def drives : Call → Option String
  | .advance jobId => some jobId
  | call => (flightOf call).map (·.ctx.jobId)

/-- A call keeps to its job, and only a supersession is ever halfway. -/
theorem follow_leads (rt : Runtime) (db : Db) (answer : Answer) (h : registers call = false) :
    registers (follow rt db call answer) = false ∧
      (∀ drive ∈ flightOf (follow rt db call answer), drives call = some drive.ctx.jobId) ∧
      ∀ id, halfway (follow rt db call answer) = some id → ∃ job rest reason,
        call = .superseding job rest reason ∧ id = job.id := by
  have hleads : ∀ {call'} {ctx : Option StageContext}, Leads ctx call' →
      (∀ c, ctx = some c → drives call = some c.jobId) → registers call' = false ∧
        (∀ drive ∈ flightOf call', drives call = some drive.ctx.jobId) ∧
        ∀ id, halfway call' = some id → ∃ job rest reason,
          call = .superseding job rest reason ∧ id = job.id := by
    intro call' ctx hl hctx
    refine ⟨hl.registers, fun d hd => hctx _ (hl.flight d hd), fun id hid => ?_⟩
    rw [hl.halfway] at hid
    cases hid
  cases call with
  | enqueue _ | creating _ _ | registering _ => cases h
  | returned => exact hleads (leads_returned none) nofun
  | threw message => exact hleads (leads_threw none message) nofun
  | advance jobId =>
    unfold follow
    dsimp only
    split
    · exact hleads (leads_threw none _) nofun
    · rename_i job hjob
      refine hleads (leads_proceed _) fun c hc => ?_
      rw [← Option.some.inj hc]
      exact congrArg some (Library.Table.find_eq_some.1 hjob).2.symm
  | running drive want => exact ⟨rfl, fun d hd => by cases hd; rfl, nofun⟩
  | staging drive want => exact hleads (leads_afterStage drive want answer.stage) fun c hc => by cases hc; rfl
  | transition jobId target message purpose =>
    refine hleads (leads_check target message purpose) fun c hc => ?_
    obtain ⟨d, hd, rfl⟩ := Option.map_eq_some_iff.1 hc
    exact congrArg (Option.map (·.ctx.jobId)) hd
  | writing job target message purpose =>
    refine hleads (leads_afterSuccess purpose) fun c hc => ?_
    obtain ⟨d, hd, rfl⟩ := Option.map_eq_some_iff.1 hc
    exact congrArg (Option.map (·.ctx.jobId)) hd
  | retry jobId =>
    unfold follow loadRetry
    dsimp only
    split
    · exact hleads (leads_threw none _) nofun
    · split_ifs <;> exact ⟨rfl, nofun, nofun⟩
  | bumping job => exact ⟨rfl, nofun, nofun⟩
  | supersedeByHash torrentHash reason => exact hleads (leads_supersedeNext none reason _) nofun
  | superseding job rest reason =>
    exact ⟨rfl, nofun, fun id hid => ⟨job, rest, reason, rfl, (Option.some.inj hid).symm⟩⟩
  | recording job rest reason => exact hleads (leads_supersedeNext none reason rest) nofun
  | reconcile => exact ⟨rfl, nofun, nofun⟩
  | surveying jobs =>
    unfold follow
    dsimp only
    split
    · exact hleads (leads_returned none) nofun
    · exact hleads (leads_archiveNext none _ jobs) nofun

theorem drives_eq_some (h : drives call = some jobId) :
    setsOut call = some jobId ∨ ∃ drive ∈ flightOf call, drive.ctx.jobId = jobId := by
  cases call <;> first | exact .inl h | exact .inr (Option.map_eq_some_iff.1 h)

/-! ### What a write leaves alone -/

/-- The job a write is about. -/
def about : Write → Option String
  | .create job | .move job _ _ => some job.id
  | .record event => some event.jobId
  | .supersede jobId _ | .start jobId _ => some jobId
  | .nothing | .bump _ => none

theorem untouched {write : Write} (happly : db.apply write = some db') (h : about write ≠ some jobId) :
    db'.state jobId = db.state jobId ∧ db'.timeline jobId = db.timeline jobId ∧
      stagesOfVisit jobId db'.log = stagesOfVisit jobId db.log := by
  have hne : ∀ {id : String}, some id ≠ some jobId → id ≠ jobId := fun hne he => hne (congrArg some he)
  rw [state_apply happly, timeline_apply happly, log_apply happly]
  cases write with
  | nothing | bump _ => simp [Write.happenings, Write.rows, states]
  | create job | move job _ _ | supersede _ _ | record _ | start _ _ =>
    simp [Write.happenings, Write.rows, states, stagesOfVisit_append, hne h]

theorem lastTo_of_timeline (h : db'.timeline jobId = db.timeline jobId) :
    db'.lastTo jobId = db.lastTo jobId := by
  rw [Db.lastTo, h]
  rfl

theorem TrueTimeline.untouched (h : TrueTimeline db jobId)
    (heq : db'.timeline jobId = db.timeline jobId) : TrueTimeline db' jobId := by
  refine ⟨?_, ?_⟩ <;> rw [heq]
  · exact h.chain
  · exact h.legal

/-- An event from where the timeline says the job is. -/
theorem TrueTimeline.concat {e : EventRow} (h : TrueTimeline db jobId)
    (heq : db'.timeline jobId = db.timeline jobId ++ [e]) (hfrom : e.fromState = db.lastTo jobId)
    (hlegal : e.supersedes = false → ∀ s, e.fromState = some s → canTransition s e.toState = true) :
    TrueTimeline db' jobId := by
  refine ⟨?_, ?_⟩ <;> rw [heq]
  · refine List.isChain_append.2 ⟨h.chain, .singleton e, ?_⟩
    rintro f hf _ hhead
    cases hhead
    rw [hfrom, Db.lastTo, Option.mem_def.1 hf]
    rfl
  · intro f hf
    rcases List.mem_append.1 hf with hold | hnew
    · exact h.legal f hold
    · rw [List.mem_singleton.1 hnew]
      exact hlegal

/-! ### The invariant -/

/-- A drive whose stage has begun and whose job has not moved for it yet. -/
def pastStart : Call → Option Drive
  | .staging drive _ => some drive
  | .transition _ _ _ purpose | .writing _ _ _ purpose => driveOf purpose
  | _ => none

theorem flightOf_of_pastStart {drive : Drive} (h : pastStart call = some drive) :
    flightOf call = some drive := by
  cases call <;> first | exact h | cases h

structure Knows (db : Db) (call : Call) : Prop where
  sound : Sound call
  works : registers call = false
  superseded : ∀ job rest reason, call = .recording job rest reason →
    db.state job.id = some .archived ∧ db.lastTo job.id = some job.state

/-- No two calls drive one job or supersede one job. -/
structure Apart (k l : Call) : Prop where
  flight : ∀ d ∈ flightOf k, ∀ d' ∈ flightOf l, d.ctx.jobId ≠ d'.ctx.jobId
  halfway : ∀ id, halfway k = some id → halfway l ≠ some id

structure Consistent (c : Config ι Db Call) : Prop where
  inv : Inv (fun db => (∀ id, TrueTimeline db id) ∧ OncePerVisit db.log) Knows Apart c
  last : ∀ id, c.store.lastTo id = c.store.state id ∨ ∃ i, halfway (c.call i) = some id
  visit : ∀ id, stagesOfVisit id c.store.log ≠ [] →
    ∃ i, ∃ d ∈ pastStart (c.call i), d.ctx.jobId = id ∧ c.store.state id = some d.state

theorem Apart.symm {k l : Call} (h : Apart k l) : Apart l k :=
  ⟨fun d hd d' hd' he => h.flight d' hd' d hd he.symm, fun id hl hk => h.halfway id hk hl⟩

variable {c : Config ι Db Call} {i : ι}

/-- A supersession between its two writes has archived the job. -/
theorem Consistent.archived_of_halfway (h : Consistent c) (hi : halfway (c.call i) = some jobId) :
    c.store.state jobId = some .archived := by
  cases hcall : c.call i with
  | recording job rest reason =>
    rw [hcall] at hi
    rw [← Option.some.inj hi]
    exact ((h.inv.call i).superseded job rest reason hcall).1
  | _ =>
    rw [hcall] at hi
    cases hi

theorem Consistent.lastTo (h : Consistent c) {s : IntakeState} (hs : c.store.state jobId = some s)
    (hne : s ≠ .archived) : c.store.lastTo jobId = some s := by
  rcases h.last jobId with hlast | ⟨j, hj⟩
  · exact hlast.trans hs
  · have harchived := h.archived_of_halfway hj
    rw [hs] at harchived
    exact absurd (Option.some.inj harchived) hne

theorem ne_archived_of_canTransition {s t : IntakeState} (h : canTransition s t = true) :
    s ≠ .archived := by
  rintro rfl
  rw [canTransition_closed (.inl rfl)] at h
  cases h

theorem Knows.ne_archived (h : Knows db call) {s : IntakeState}
    (hchange : changes call = some (jobId, s)) : s ≠ .archived := by
  have hsound := h.sound
  cases call with
  | running drive want =>
    cases hchange
    intro hstate
    have hopen := hsound.not_terminal
    rw [hstate] at hopen
    cases hopen
  | writing job target message purpose =>
    cases hchange
    exact ne_archived_of_canTransition hsound.2
  | superseding job rest reason =>
    cases hchange
    exact hsound.1
  | _ => cases hchange

theorem Knows.not_terminal (h : Knows db call) {drive : Drive} (hdrive : pastStart call = some drive) :
    drive.state.isTerminal = false := by
  have hsound := h.sound
  cases call with
  | staging d want =>
    cases hdrive
    exact hsound.not_terminal
  | transition id target message purpose => exact Fits.not_terminal hsound hdrive
  | writing job target message purpose => exact Fits.not_terminal hsound.1 hdrive
  | _ => cases hdrive

theorem Consistent.stages_of_running (h : Consistent c) {drive : Drive} {want : IntakeState}
    (hcall : c.call i = .running drive want) : stagesOfVisit drive.ctx.jobId c.store.log = [] := by
  by_contra hne
  obtain ⟨j, d, hd, hid, -⟩ := h.visit _ hne
  have hj : j ≠ i := by
    rintro rfl
    rw [hcall] at hd
    cases hd
  refine (h.inv.pair j i hj).flight d (flightOf_of_pastStart hd) drive ?_ hid
  rw [hcall]
  rfl

theorem pastStart_check {target : IntakeState} {message : Option String} {purpose : Purpose}
    {drive : Drive} (hfits : Fits jobId target purpose) (hdrive : driveOf purpose = some drive)
    (hstate : db.state jobId = some drive.state) :
    pastStart (check rt db jobId target message purpose) = some drive := by
  obtain ⟨job, hjob, hs⟩ := Option.map_eq_some_iff.1 hstate
  unfold check
  rw [hjob]
  dsimp only
  by_cases hcan : canTransition job.state target = true
  · rw [if_pos hcan]
    exact hdrive
  · rw [if_neg hcan]
    have hopen := Fits.not_terminal hfits hdrive
    rw [← hs] at hopen
    cases purpose with
    | advancing d want =>
      obtain rfl := Option.some.inj hdrive
      rfl
    | quarantining d want reason =>
      obtain rfl := Option.some.inj hdrive
      rfl
    | refusing d want | failing d =>
      rw [hfits.2.1] at hcan
      exact absurd (canTransition_failed hopen) hcan
    | operator | archiving _ _ => cases hdrive

theorem pastStart_afterStage (drive : Drive) (want : IntakeState) (result : StageResult) :
    pastStart (afterStage drive want result) = some drive := by
  cases result <;> rfl

/-! ### The start -/

/-- A store whose timelines are true and up to date, looked at as its jobs enter their visits. -/
structure Faithful (db : Db) : Prop where
  opening : db.Opening
  timeline : ∀ jobId, TrueTimeline db jobId
  last : ∀ jobId, db.lastTo jobId = db.state jobId

theorem stagesOfVisit_of_entered {log : List Happening} (jobId : String)
    (h : ∀ e ∈ log, ∃ id s, e = .entered id s) : stagesOfVisit jobId log = [] := by
  induction log using List.reverseRecOn with
  | nil => rfl
  | append_singleton log e ih =>
    obtain ⟨id, s, rfl⟩ := h e (List.mem_append_right _ (List.mem_singleton_self e))
    rw [stagesOfVisit_append, ih fun e he => h e (List.mem_append_left _ he)]
    dsimp only
    split_ifs <;> rfl

theorem entered_of_opening (h : db.Opening) : ∀ e ∈ db.log, ∃ id s, e = .entered id s := by
  intro e he
  rw [h] at he
  obtain ⟨job, -, rfl⟩ := List.mem_map.1 he
  exact ⟨_, _, rfl⟩

theorem once_opening (h : db.Opening) : OncePerVisit db.log := by
  intro l hl id
  rw [stagesOfVisit_of_entered id fun e he => entered_of_opening h e (hl.subset he)]
  exact List.nodup_nil

/-- A call just made drives and supersedes nothing yet. -/
theorem idle_of_isEntry (h : isEntry call = true) : flightOf call = none ∧ halfway call = none := by
  cases call with
  | transition _ _ _ purpose => cases purpose <;> first | exact ⟨rfl, rfl⟩ | cases h
  | _ => first | exact ⟨rfl, rfl⟩ | cases h

theorem consistent_start {start : Config ι Db Call} (h : Faithful start.store)
    (hentry : ∀ i, isEntry (start.call i) = true) (hworks : ∀ i, registers (start.call i) = false) :
    Consistent start := by
  have hidle := fun i => idle_of_isEntry (hentry i)
  refine ⟨⟨⟨h.timeline, once_opening h.opening⟩, fun i => ?_, fun i j _ => ?_⟩,
    fun id => .inl (h.last id), fun id hbegun => ?_⟩
  · refine ⟨sound_of_isEntry (hentry i), hworks i, fun job rest reason hcall => ?_⟩
    have hnone := (hidle i).2
    rw [hcall] at hnone
    cases hnone
  · exact ⟨by simp [(hidle i).1], by simp [(hidle i).2]⟩
  · exact absurd (stagesOfVisit_of_entered id (entered_of_opening h.opening)) hbegun

/-! ### One action -/

theorem Consistent.timeline_step (h : Consistent c) (horderly : Orderly c i)
    (happly : c.store.apply (writeOf (c.call i) answer) = some db') (jobId : String) :
    TrueTimeline db' jobId := by
  have hold := h.inv.store.1 jobId
  by_cases habout : about (writeOf (c.call i) answer) = some jobId
  · have hknows := h.inv.call i
    have hdb := timeline_apply happly jobId
    cases hcall : c.call i with
    | enqueue _ | creating _ _ | registering _ =>
      rw [hcall] at hknows
      exact absurd hknows.works (by simp [registers])
    | writing job target message purpose =>
      rw [hcall] at habout hdb hknows
      rw [Orderly, hcall] at horderly
      obtain rfl := Option.some.inj habout
      have hlast := h.lastTo (horderly.1 _ rfl) (hknows.ne_archived rfl)
      refine hold.concat (e := ⟨job.id, some job.state, target, message, false⟩) ?_ hlast.symm ?_
      · rw [hdb]
        simp [writeOf, Write.rows]
      · rintro - s hs
        rw [← Option.some.inj hs]
        exact hknows.sound.2
    | recording job rest reason =>
      rw [hcall] at habout hdb
      obtain rfl := Option.some.inj habout
      have hlast := (hknows.superseded job rest reason hcall).2
      refine hold.concat (e := ⟨job.id, some job.state, .archived, some reason, true⟩) ?_ hlast.symm
        nofun
      rw [hdb]
      simp [writeOf, Write.rows]
    | _ =>
      rw [hcall] at hdb
      exact hold.untouched (by simpa [writeOf, Write.rows] using hdb)
  · exact hold.untouched (untouched happly habout).2.1

theorem Consistent.once_step (h : Consistent c)
    (happly : c.store.apply (writeOf (c.call i) answer) = some db') : OncePerVisit db'.log := by
  have hold := h.inv.store.2
  have hknows := h.inv.call i
  rw [log_apply happly]
  cases hcall : c.call i with
  | enqueue _ | creating _ _ | registering _ =>
    rw [hcall] at hknows
    exact absurd hknows.works (by simp [registers])
  | running drive want =>
    have hstages := h.stages_of_running hcall
    refine hold.concat fun id => ?_
    rw [stagesOfVisit_append]
    dsimp only
    split_ifs with hid
    · rw [← hid, hstages]
      exact List.nodup_singleton want
    · exact hold.self id
  | writing | superseding =>
    refine hold.concat fun id => ?_
    rw [stagesOfVisit_append]
    dsimp only
    split_ifs
    · exact List.nodup_nil
    · exact hold.self id
  | _ =>
    simp only [writeOf, Write.happenings, List.append_nil]
    exact hold

theorem Consistent.knows_step (h : Consistent c) (horderly : Orderly c i)
    (happly : c.store.apply (writeOf (c.call i) answer) = some db') :
    Knows db' (follow rt c.store (c.call i) answer) := by
  have hknows := h.inv.call i
  have hleads := follow_leads rt c.store answer hknows.works
  refine ⟨hknows.sound.follow fun jobId hcall => ?_, hleads.1, fun job rest reason hfollow => ?_⟩
  · rw [Orderly, hcall] at horderly
    exact (horderly.2 jobId rfl).1
  · obtain ⟨job', rest', reason', hcall, hid⟩ := hleads.2.2 job.id (by rw [hfollow]; rfl)
    rw [hcall] at happly hfollow hknows
    obtain ⟨rfl, -, -⟩ : job' = job ∧ rest' = rest ∧ reason' = reason := by simpa [follow] using hfollow
    rw [Orderly, hcall] at horderly
    have hlast := h.lastTo (horderly.1 _ rfl) (hknows.ne_archived rfl)
    rw [state_apply happly, lastTo_apply happly, hlast]
    simp [writeOf, Write.happenings, Write.rows, states]

theorem Consistent.knows_frame (h : Consistent c) (horderly : Orderly c i)
    (happly : c.store.apply (writeOf (c.call i) answer) = some db') {j : ι} (hj : j ≠ i) :
    Knows db' (c.call j) := by
  have hknows := h.inv.call j
  refine ⟨hknows.sound, hknows.works, fun job rest reason hother => ?_⟩
  have hold := hknows.superseded job rest reason hother
  by_cases habout : about (writeOf (c.call i) answer) = some job.id
  · have hacting := h.inv.call i
    have hchange : ∀ s, changes (c.call i) = some (job.id, s) → False := by
      intro s hs
      have hstate := horderly.1 _ hs
      rw [hold.1] at hstate
      exact hacting.ne_archived hs (Option.some.inj hstate).symm
    cases hcall : c.call i with
    | enqueue _ | creating _ _ | registering _ =>
      rw [hcall] at hacting
      exact absurd hacting.works (by simp [registers])
    | running drive want | writing job' target message purpose | superseding job' rest' reason' =>
      rw [hcall] at habout hchange
      obtain hid := Option.some.inj habout
      exact (hchange _ (by rw [changes, hid])).elim
    | recording job' rest' reason' =>
      rw [hcall] at habout
      refine absurd ?_ ((h.inv.pair j i hj).halfway job.id (by rw [hother]; rfl))
      rw [hcall]
      exact habout
    | _ =>
      rw [hcall] at habout
      cases habout
  · obtain ⟨hstate, htimeline, -⟩ := untouched happly habout
    rw [hstate, lastTo_of_timeline htimeline]
    exact hold

theorem Consistent.apart_step (h : Consistent c) (horderly : Orderly c i) {j : ι} (hj : j ≠ i) :
    Apart (follow rt c.store (c.call i) answer) (c.call j) := by
  have hknows := h.inv.call i
  have hleads := follow_leads rt c.store answer hknows.works
  refine ⟨fun d hd d' hd' => ?_, fun id hid hother => ?_⟩
  · rcases drives_eq_some (hleads.2.1 d hd) with hout | ⟨d₀, hd₀, hid⟩
    · exact ((horderly.2 _ hout).2 j hj d' hd').symm
    · rw [← hid]
      exact (h.inv.pair i j hj.symm).flight d₀ hd₀ d' hd'
  · obtain ⟨job, rest, reason, hcall, rfl⟩ := hleads.2.2 id hid
    have harchived := h.archived_of_halfway hother
    rw [Orderly, hcall] at horderly
    rw [hcall] at hknows
    rw [horderly.1 (job.id, job.state) rfl] at harchived
    exact hknows.ne_archived rfl (Option.some.inj harchived)

variable [DecidableEq ι]

/-- The timeline is up to date, or the supersession that makes it so is on its way. -/
theorem Consistent.last_step (h : Consistent c) (horderly : Orderly c i)
    (happly : c.store.apply (writeOf (c.call i) answer) = some db') (jobId : String) :
    db'.lastTo jobId = db'.state jobId ∨
      ∃ j, halfway (Function.update c.call i (follow rt c.store (c.call i) answer) j) = some jobId := by
  have hknows := h.inv.call i
  have hstate := state_apply happly jobId
  have hlast := lastTo_apply happly jobId
  by_cases habout : about (writeOf (c.call i) answer) = some jobId
  · cases hcall : c.call i with
    | enqueue _ | creating _ _ | registering _ =>
      rw [hcall] at hknows
      exact absurd hknows.works (by simp [registers])
    | writing job target message purpose =>
      rw [hcall] at habout hstate hlast
      obtain rfl := Option.some.inj habout
      refine .inl ?_
      rw [hstate, hlast]
      simp [writeOf, Write.rows, Write.happenings, states]
    | superseding job rest reason =>
      rw [hcall] at habout
      refine .inr ⟨i, ?_⟩
      rw [Function.update_self]
      exact habout
    | recording job rest reason =>
      rw [hcall] at habout hstate hlast
      obtain rfl := Option.some.inj habout
      refine .inl ?_
      rw [hstate, hlast, (hknows.superseded job rest reason hcall).1]
      simp [writeOf, Write.rows, Write.happenings, states]
    | running drive want =>
      rw [hcall] at habout hstate hlast
      obtain rfl := Option.some.inj habout
      rw [Orderly, hcall] at horderly
      rw [hcall] at hknows
      refine .inl ?_
      rw [hstate, hlast, h.lastTo (horderly.1 _ rfl) (hknows.ne_archived rfl), horderly.1 _ rfl]
      simp [writeOf, Write.rows, Write.happenings, states]
    | _ =>
      rw [hcall] at habout
      cases habout
  · obtain ⟨hsame, htimeline, -⟩ := untouched happly habout
    rw [lastTo_of_timeline htimeline, hsame]
    refine (h.last jobId).imp_right ?_
    rintro ⟨j, hj⟩
    refine ⟨j, ?_⟩
    have hne : j ≠ i := by
      rintro rfl
      cases hcall : c.call j with
      | recording job rest reason =>
        rw [hcall] at hj habout
        exact habout hj
      | _ =>
        rw [hcall] at hj
        cases hj
    rw [Function.update_of_ne hne]
    exact hj

theorem Consistent.visit_step (h : Consistent c) (horderly : Orderly c i)
    (happly : c.store.apply (writeOf (c.call i) answer) = some db') (jobId : String)
    (hbegun : stagesOfVisit jobId db'.log ≠ []) :
    ∃ j, ∃ d ∈ pastStart (Function.update c.call i (follow rt c.store (c.call i) answer) j),
      d.ctx.jobId = jobId ∧ db'.state jobId = some d.state := by
  have hknows := h.inv.call i
  by_cases habout : about (writeOf (c.call i) answer) = some jobId
  · -- only a stage that begins leaves its job with one begun
    have hlog := log_apply happly
    have hstate := state_apply happly jobId
    cases hcall : c.call i with
    | enqueue _ | creating _ _ | registering _ =>
      rw [hcall] at hknows
      exact absurd hknows.works (by simp [registers])
    | running drive want =>
      rw [hcall] at habout hstate
      obtain rfl := Option.some.inj habout
      rw [Orderly, hcall] at horderly
      refine ⟨i, drive, ?_, rfl, ?_⟩
      · rw [Function.update_self]
        rfl
      · rw [hstate, horderly.1 _ rfl]
        rfl
    | writing | superseding =>
      rw [hcall] at habout hlog
      obtain rfl := Option.some.inj habout
      rw [hlog] at hbegun
      simp [writeOf, Write.happenings, stagesOfVisit_append] at hbegun
    | recording job rest reason =>
      rw [hcall] at habout hlog
      obtain rfl := Option.some.inj habout
      simp only [writeOf, Write.happenings, List.append_nil] at hlog
      rw [hlog] at hbegun
      obtain ⟨j, d, hd, -, hd'⟩ := h.visit job.id hbegun
      have hopen := (h.inv.call j).not_terminal hd
      rw [(hknows.superseded job rest reason hcall).1] at hd'
      rw [← Option.some.inj hd'] at hopen
      cases hopen
    | _ =>
      rw [hcall] at habout
      cases habout
  · obtain ⟨hsame, -, hstages⟩ := untouched happly habout
    rw [hstages] at hbegun
    rw [hsame]
    obtain ⟨j, d, hd, hid, hstate⟩ := h.visit jobId hbegun
    refine ⟨j, d, ?_, hid, hstate⟩
    by_cases hj : j = i
    · rw [hj] at hd ⊢
      rw [Function.update_self]
      cases hcall : c.call i with
      | staging drive want =>
        rw [hcall] at hd
        obtain rfl := Option.some.inj hd
        exact pastStart_afterStage _ want answer.stage
      | transition id target message purpose =>
        rw [hcall] at hd hknows
        have hfits : Fits id target purpose := hknows.sound
        refine pastStart_check hfits hd ?_
        rw [← hfits.jobId_eq hd, hid]
        exact hstate
      | writing job target message purpose =>
        rw [hcall] at hd hknows habout
        refine absurd ?_ habout
        rw [← hid, hknows.sound.1.jobId_eq hd]
        rfl
      | _ =>
        rw [hcall] at hd
        cases hd
    · rw [Function.update_of_ne hj]
      exact hd

theorem Consistent.step (h : Consistent c) (horderly : Orderly c i)
    (hact : act rt c.store (c.call i) answer = some (db', call)) :
    Consistent ⟨db', Function.update c.call i call⟩ := by
  obtain ⟨-, happly, rfl⟩ := act_eq_some hact
  refine ⟨?_, h.last_step horderly happly, h.visit_step horderly happly⟩
  exact h.inv.update (fun _ _ => Apart.symm)
    ⟨h.timeline_step horderly happly, h.once_step happly⟩ (h.knows_step horderly happly)
    fun j hj => ⟨h.knows_frame horderly happly hj, h.apart_step horderly hj⟩

/-! ### Runs -/

/-- In a run of any number of drives, retries, cancellations, releases, supersessions and
reconciliations in which no call writes over a move it has not seen, and no drive sets out from
a quarantine or during another drive of the job, the events of every job form a chain of legal
moves, each stage begins at most once in a visit, and the chain ends where the job is unless a
supersession has still to record its event. -/
theorem orderly_timeline {start c : Config ι Db Call} (hstart : Faithful start.store)
    (hentry : ∀ i, isEntry (start.call i) = true) (hworks : ∀ i, registers (start.call i) = false)
    (h : Run (act rt) Orderly start c) :
    (∀ jobId, TrueTimeline c.store jobId) ∧ OncePerVisit c.store.log ∧
      ∀ jobId, (∀ i, halfway (c.call i) ≠ some jobId) → c.store.lastTo jobId = c.store.state jobId := by
  have hc : Consistent c := h.invariant (consistent_start hstart hentry hworks)
    fun c i answer db' call hc horderly hact => hc.step horderly hact
  exact ⟨hc.inv.store.1, hc.inv.store.2, fun jobId hnone =>
    (hc.last jobId).resolve_right fun ⟨i, hi⟩ => hnone i hi⟩

/-! ### Two drives at once -/

/-- One verified job whose download completed and was verified, and two calls that both drive it. -/
def verifiedJob : Config (Fin 2) Db Call where
  store := {
    jobs := ⟨[{ id := "job", profileId := "profile", sourcePath := "/staging/a"
                torrentHash := some "hash", engineId := some "engine"
                idempotencyKey := "engine:hash:/staging/a", state := .verified, resumeState := none
                lastError := none, attempts := 0 }], List.nodup_singleton _⟩
    events := [⟨"job", none, .completed, none, false⟩, ⟨"job", some .completed, .verified, none, false⟩]
    log := [.entered "job" .verified] }
  call := fun _ => .advance "job"

instance {n : ℕ} (c : Config (Fin n) Db Call) (i : Fin n) : Decidable (Orderly c i) :=
  inferInstanceAs (Decidable (_ ∧ ∀ jobId ∈ setsOut (c.call i),
    c.store.state jobId ≠ some .quarantined ∧
      ∀ j, j ≠ i → ∀ drive ∈ flightOf (c.call j), drive.ctx.jobId ≠ jobId))

theorem faithful_verifiedJob : Faithful verifiedJob.store := by
  have hother : ∀ id, id ≠ "job" → verifiedJob.store.timeline id = [] ∧
      verifiedJob.store.state id = none := by
    intro id hid
    have hne : ("job" = id) = False := eq_false (Ne.symm hid)
    simp [verifiedJob, Db.timeline, Db.state, Library.Table.find, hne]
  refine ⟨rfl, fun id => ?_, fun id => ?_⟩
  · by_cases hid : id = "job"
    · rw [hid]
      have hlist : verifiedJob.store.timeline "job" =
          [⟨"job", none, .completed, none, false⟩, ⟨"job", some .completed, .verified, none, false⟩] := rfl
      refine ⟨?_, ?_⟩ <;> rw [hlist]
      · exact List.isChain_pair.2 rfl
      · simp only [List.forall_mem_cons]
        exact ⟨by simp, fun _ s hs => by cases hs; rfl, by simp⟩
    · refine ⟨?_, ?_⟩ <;> rw [(hother id hid).1]
      · exact .nil
      · rintro _ ⟨⟩
  · by_cases hid : id = "job"
    · rw [hid]
      decide +kernel
    · rw [Db.lastTo, (hother id hid).1, (hother id hid).2]
      rfl

/-- Both drives begin the same stage in one visit, and both move the job from the state they
read. -/
theorem driven_twice : ∃ c, Faithful verifiedJob.store ∧
    (∀ i, isEntry (verifiedJob.call i) = true) ∧ (∀ i, registers (verifiedJob.call i) = false) ∧
    Run (act .ascii) (fun _ _ => True) verifiedJob c ∧
    ¬ TrueTimeline c.store "job" ∧ ¬ OncePerVisit c.store.log := by
  obtain ⟨c, hrun, hc⟩ := run_of_exec_any (act .ascii) (fun _ _ => True) verifiedJob
    ([0, 1, 0, 1, 0, 1, 0, 1, 0, 1].map fun i => (i, {}))
    (fun c => c.store.log.take 3 = [.entered "job" .verified, .started "job" .identified,
        .started "job" .identified] ∧
      (c.store.timeline "job").map (fun e => (e.fromState, e.toState)) =
        [(none, .completed), (some .completed, .verified), (some .verified, .identified),
         (some .verified, .identified)]) (by decide +kernel)
  obtain ⟨hlog, htimeline⟩ := of_decide_eq_true hc
  refine ⟨c, faithful_verifiedJob, fun _ => rfl, fun _ => rfl, hrun, fun h => ?_, fun h => ?_⟩
  · have hchain : ((c.store.timeline "job").map fun e => (e.fromState, e.toState)).IsChain
        fun e f => f.1 = some e.2 := (List.isChain_map _).2 h.chain
    rw [htimeline] at hchain
    exact absurd hchain (by decide)
  · have hvisit := h _ (hlog ▸ List.take_prefix 3 c.store.log) "job"
    exact absurd hvisit (by decide)

/-- One drive, through its first stage. -/
theorem driven_once : ∃ c, Run (act .ascii) Orderly verifiedJob c ∧
    c.store.state "job" = some .identified ∧ c.store.lastTo "job" = some .identified ∧
    OncePerVisit c.store.log := by
  obtain ⟨c, hrun, hc⟩ := run_of_exec_any (act .ascii) Orderly verifiedJob
    ([0, 0, 0, 0, 0].map fun i => (i, {}))
    (fun c => c.store.state "job" = some .identified ∧ c.store.lastTo "job" = some .identified) (by decide +kernel)
  obtain ⟨hstate, hlast⟩ := of_decide_eq_true hc
  exact ⟨c, hrun, hstate, hlast,
    (orderly_timeline faithful_verifiedJob (fun _ => rfl) (fun _ => rfl) hrun).2.1⟩

end UltraTorrent.Intake.Timeline
