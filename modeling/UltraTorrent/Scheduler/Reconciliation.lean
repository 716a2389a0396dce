import UltraTorrent.Library.Keyed
import UltraTorrent.Scheduler.Preview

/-! A plan turned into engine commands: removals first, then pauses, then resumes, each
verified against what the engine reports afterwards. The notes written here are what the
next preview knows of the scheduler's own pauses. -/
namespace UltraTorrent.Scheduler.Reconciliation

open Library Library.EcmaScript
open Occupancy Planner Preview

/-! ### The engine's side -/

/-- What a pause or a resume comes back with: the error the call raised, the state the
engine reports afterwards, `none` when the torrent is gone or cannot be read, whether the
note about it can be written, and when. -/
structure Reply where
  error : Option String := none
  report : Option TorrentState
  recorded : Bool := true
  now : Instant
  deriving DecidableEq

structure CleanupOutcome where
  removed : Bool
  error : Option String := none
  deriving DecidableEq

structure GlobalRateLimits where
  downloadBytesPerSec : Option ℤ
  uploadBytesPerSec : Option ℤ
  deriving DecidableEq

/-- The table of snapshots holds one row for a hash, so a sweep sends at most one command
of a kind to a torrent. An engine without a rate limit setter has `none` there; the setter
returns the error it raised. -/
structure Provider where
  pauseTorrent : String → Reply
  resumeTorrent : String → Reply
  cleanUp : String → CleanupOutcome
  rowsDeleted : Bool := true
  setGlobalRateLimits : Option (GlobalRateLimits → Option String) := none

/-- An engine that does as it is told. -/
def Provider.obedient (now : Instant) : Provider where
  pauseTorrent _ := { report := some .paused, now := now }
  resumeTorrent _ := { report := some .downloading, now := now }
  cleanUp _ := { removed := true }

/-! ### The outcome -/

structure Failure where
  hash : String
  action : String
  error : String
  deriving DecidableEq

structure ReconciliationOutcome where
  engineId : String
  attempted : ℕ := 0
  applied : ℕ := 0
  failed : ℕ := 0
  unverified : ℕ := 0
  limitations : List SchedulerLimitation := []
  failures : List Failure := []
  deriving DecidableEq

/-- What the reconciler carries from one command to the next. -/
structure Progress where
  states : List SchedulerState
  out : ReconciliationOutcome
  deriving DecidableEq

namespace Progress

def attempt (p : Progress) : Progress :=
  { p with out := { p.out with attempted := p.out.attempted + 1 } }

def apply (p : Progress) : Progress :=
  { p with out := { p.out with applied := p.out.applied + 1 } }

def unverify (p : Progress) : Progress :=
  { p with out := { p.out with unverified := p.out.unverified + 1 } }

def fail (p : Progress) (failure : Failure) : Progress :=
  { p with out := { p.out with
      failed := p.out.failed + 1
      failures := p.out.failures ++ [failure] } }

def limit (p : Progress) (code : LimitationCode) : Progress :=
  { p with out := { p.out with
      limitations := p.out.limitations ++ [{ engineId := p.out.engineId, code := code }] } }

@[simp] theorem attempt_states (p : Progress) : p.attempt.states = p.states := rfl
@[simp] theorem apply_states (p : Progress) : p.apply.states = p.states := rfl
@[simp] theorem unverify_states (p : Progress) : p.unverify.states = p.states := rfl
@[simp] theorem fail_states (p : Progress) (f : Failure) : (p.fail f).states = p.states := rfl
@[simp] theorem limit_states (p : Progress) (c : LimitationCode) : (p.limit c).states = p.states := rfl

end Progress

/-! ### Notes -/

def stateKey (r : SchedulerState) : String × String := (r.engineId, r.hash)

/-- The note that the scheduler is the reason a torrent is paused, or no longer is. -/
def note (engineId hash : String) (paused : Bool) (reasonCode : ReasonCode) (now : Instant) :
    SchedulerState where
  engineId := engineId
  hash := hash
  schedulerPausedAt := if paused then some now else none
  reasonCode := if paused then some reasonCode else none
  lastActionAt := some now

/-- Losing the note fails nothing. -/
def remember (engineId : String) (paused : Bool) (d : TorrentDecision) (reply : Reply)
    (states : List SchedulerState) : List SchedulerState :=
  if reply.recorded then
    Keyed.upsert stateKey (note engineId d.hash paused d.reasonCode reply.now) states
  else states

def Progress.remember (p : Progress) (engineId : String) (paused : Bool) (d : TorrentDecision)
    (reply : Reply) : Progress :=
  { p with states := Reconciliation.remember engineId paused d reply p.states }

/-! ### Commands -/

def confirmsPaused (state : TorrentState) : Bool := state = .paused || state = .stopped

def confirmsRunning (state : TorrentState) : Bool :=
  state = .downloading || state = .seeding || state = .checking || state = .allocating

variable (provider : Provider) (engineId : String) (verify : Bool)

/-- The pause or the resume a decision asks for, if it asks for one. -/
def Provider.command (provider : Provider) (d : TorrentDecision) : Option Reply :=
  match d.action with
  | .pause => some (provider.pauseTorrent d.hash)
  | .resume => some (provider.resumeTorrent d.hash)
  | .none | .removeAndCleanup => none

def verifyPause (p : Progress) (d : TorrentDecision) (reply : Reply) (after : TorrentState) :
    Progress :=
  if confirmsPaused after then p.apply.remember engineId true d reply else p.unverify

/-- A resume that leaves the torrent queued met the engine's own limits. -/
def verifyResume (p : Progress) (d : TorrentDecision) (reply : Reply) (after : TorrentState) :
    Progress :=
  if after = .queued then
    if p.out.limitations.any (·.code = .nativeQueueConflict) then p.unverify
    else p.unverify.limit .nativeQueueConflict
  else if confirmsRunning after then p.apply.remember engineId false d reply
  else p.unverify

/-- A torrent that is gone occupies no slot, which is what a pause wants. -/
def one (p : Progress) (d : TorrentDecision) : Progress :=
  match provider.command d with
  | none => p.attempt
  | some reply =>
    match reply.error with
    | some error => p.attempt.fail ⟨d.hash, d.action.text, error⟩
    | none =>
      if !verify then p.attempt.apply
      else match reply.report with
        | none => p.attempt.apply.remember engineId false d reply
        | some after =>
          if d.action = .pause then verifyPause engineId p.attempt d reply after
          else verifyResume engineId p.attempt d reply after

/-- Every note about the torrent goes with it, whichever engine it was made for. -/
def oneRemoval (p : Progress) (d : TorrentDecision) : Progress :=
  let result := provider.cleanUp d.hash
  if result.removed then
    { p.attempt.apply with
      states := if provider.rowsDeleted then p.states.filter (·.hash ≠ d.hash) else p.states }
  else p.attempt.fail ⟨d.hash, d.action.text, result.error.getD "cleanup failed"⟩

def kbpsToBytes (kbps : Option ℤ) : Option ℤ :=
  kbps.map fun kbps => max 0 (round ((kbps * 1000 : ℚ) / 8))

/-- Pushes the rate ceiling of the first decision, when some policy stated one. A reserve
cannot be honoured and is reported. -/
def applyBandwidth (p : Progress) (plan : EngineActivityPlan) : Progress :=
  match plan.decisions.head?.map TorrentDecision.bandwidth with
  | none => p
  | some policy =>
    if (policy.maxDownloadRateSource.or policy.maxUploadRateSource).all (· = "") then p
    else match provider.setGlobalRateLimits with
      | none => p.limit .noGlobalRateLimit
      | some setGlobalRateLimits =>
        let p := if policy.reserveDownloadPercent.isSome || policy.reserveSeedPercent.isSome then
          p.limit .bandwidthReserveUnsupported else p
        match setGlobalRateLimits
            ⟨kbpsToBytes policy.maxDownloadRateKbps, kbpsToBytes policy.maxUploadRateKbps⟩ with
        | none => p
        | some error => p.fail ⟨"-", "set_rate_limits", error⟩

def ofAction (plan : EngineActivityPlan) (action : Action) : List TorrentDecision :=
  plan.decisions.filter (·.action = action)

/-- Slots are relinquished before they are claimed. -/
def apply (plan : EngineActivityPlan) (states : List SchedulerState) : Progress :=
  let start := applyBandwidth provider ⟨states, { engineId := plan.engineId }⟩ plan
  let removed := (ofAction plan .removeAndCleanup).foldl (oneRemoval provider) start
  let paused := (ofAction plan .pause).foldl (one provider plan.engineId verify) removed
  (ofAction plan .resume).foldl (one provider plan.engineId verify) paused

/-! ### One command after another -/

def commands (plan : EngineActivityPlan) : List TorrentDecision :=
  ofAction plan .removeAndCleanup ++ ofAction plan .pause ++ ofAction plan .resume

def carryOut (p : Progress) (d : TorrentDecision) : Progress :=
  if d.action = .removeAndCleanup then oneRemoval provider p d else one provider engineId verify p d

variable {provider engineId verify}

theorem mem_commands {plan : EngineActivityPlan} {d : TorrentDecision} :
    d ∈ commands plan ↔ d ∈ plan.decisions ∧ d.action ≠ .none := by
  simp only [commands, ofAction, List.mem_append, List.mem_filter, decide_eq_true_eq]
  cases d.action <;> simp

theorem apply_eq_foldl (plan : EngineActivityPlan) (states : List SchedulerState) :
    apply provider verify plan states = (commands plan).foldl (carryOut provider plan.engineId verify)
      (applyBandwidth provider ⟨states, { engineId := plan.engineId }⟩ plan) := by
  have hremoval : ∀ p, (ofAction plan .removeAndCleanup).foldl (carryOut provider plan.engineId verify) p =
      (ofAction plan .removeAndCleanup).foldl (oneRemoval provider) p := fun p =>
    List.foldl_ext _ _ p fun q d hd => if_pos (by simpa using List.of_mem_filter hd)
  have hone : ∀ action, action ≠ .removeAndCleanup → ∀ p,
      (ofAction plan action).foldl (carryOut provider plan.engineId verify) p =
        (ofAction plan action).foldl (one provider plan.engineId verify) p := fun action hne p =>
    List.foldl_ext _ _ p fun q d hd => by
      have haction : d.action = action := by simpa using List.of_mem_filter hd
      exact if_neg (haction ▸ hne)
  have hpause := hone .pause (by simp)
  have hresume := hone .resume (by simp)
  rw [commands, List.foldl_append, List.foldl_append, hremoval, hpause, hresume]
  rfl

/-! ### What becomes of the notes -/

/-- The engine is seen to hold the torrent after the pause. -/
def pauseConfirmed (reply : Reply) : Bool := reply.error.isNone && reply.report.any confirmsPaused

/-- The engine is seen to run the torrent after the resume. -/
def resumeConfirmed (reply : Reply) : Bool := reply.error.isNone && reply.report.any confirmsRunning

/-- The note a command leads to, once verified. -/
def noted (action : Action) (reply : Reply) : Option Bool :=
  if reply.error.isSome then none
  else match reply.report with
    | none => some false
    | some after =>
      if action = .pause then (if confirmsPaused after then some true else none)
      else if confirmsRunning after then some false else none

def noteDown (engineId : String) (states : List SchedulerState) (d : TorrentDecision) (reply : Reply) :
    List SchedulerState :=
  match noted d.action reply with
  | none => states
  | some paused => remember engineId paused d reply states

theorem verifyPause_states (p : Progress) (d : TorrentDecision) (reply : Reply)
    (after : TorrentState) : (verifyPause engineId p d reply after).states =
      if confirmsPaused after then remember engineId true d reply p.states else p.states := by
  unfold verifyPause
  split_ifs <;> rfl

theorem verifyResume_states (p : Progress) (d : TorrentDecision) (reply : Reply)
    (after : TorrentState) : (verifyResume engineId p d reply after).states =
      if confirmsRunning after then remember engineId false d reply p.states else p.states := by
  unfold verifyResume
  by_cases hqueued : after = .queued
  · have hwaits : confirmsRunning after = false := by rw [hqueued]; rfl
    rw [if_pos hqueued, hwaits, if_neg Bool.false_ne_true]
    split_ifs <;> rfl
  · rw [if_neg hqueued]
    split_ifs <;> rfl

theorem one_states (p : Progress) (d : TorrentDecision) :
    (one provider engineId true p d).states = match provider.command d with
      | none => p.states
      | some reply => noteDown engineId p.states d reply := by
  unfold one noteDown noted
  cases provider.command d with
  | none => rfl
  | some reply =>
    obtain ⟨error, report, recorded, now⟩ := reply
    cases error with
    | some error => rfl
    | none =>
      cases report with
      | none => rfl
      | some after =>
        by_cases hpause : d.action = .pause
        · simp only [hpause, if_true, verifyPause_states, Option.isSome_none, Bool.not_true,
            Bool.false_eq_true, if_false, Progress.attempt_states]
          split_ifs <;> rfl
        · simp only [hpause, if_false, verifyResume_states, Option.isSome_none, Bool.not_true,
            Bool.false_eq_true, Progress.attempt_states]
          split_ifs <;> rfl

theorem noted_true {action : Action} {reply : Reply} (h : noted action reply = some true) :
    action = .pause ∧ pauseConfirmed reply = true := by
  obtain ⟨error, report, recorded, now⟩ := reply
  unfold noted at h
  cases error with
  | some error => exact absurd h nofun
  | none =>
    cases report with
    | none => exact absurd h nofun
    | some after =>
      by_cases hpause : action = .pause
      · refine ⟨hpause, ?_⟩
        by_cases hafter : confirmsPaused after
        · exact hafter
        · simp [hpause, hafter] at h
      · simp only [Option.isSome_none, Bool.false_eq_true, if_false, hpause] at h
        split_ifs at h
        exact absurd h (by simp)

theorem not_isMark_note (engineId hash : String) (reasonCode : ReasonCode) (now : Instant) :
    ¬ IsMark (note engineId hash false reasonCode now) := by
  simp [IsMark, note]

structure Marks (provider : Provider) (engineId : String) (d : TorrentDecision)
    (r : SchedulerState) : Prop where
  action : d.action = .pause
  confirmed : pauseConfirmed (provider.pauseTorrent d.hash) = true
  engineId : r.engineId = engineId
  hash : r.hash = d.hash

theorem noteDown_marked {d : TorrentDecision} {reply : Reply} {states : List SchedulerState}
    {r : SchedulerState} (hr : r ∈ noteDown engineId states d reply) (hmark : IsMark r) :
    r ∈ states ∨ noted d.action reply = some true ∧ r.engineId = engineId ∧ r.hash = d.hash := by
  unfold noteDown remember at hr
  cases hnoted : noted d.action reply with
  | none => exact .inl (by simpa [hnoted] using hr)
  | some paused =>
    simp only [hnoted] at hr
    split_ifs at hr
    · obtain rfl | ⟨hr, -⟩ := Keyed.eq_or_mem_of_mem_upsert stateKey hr
      · cases paused with
        | true => exact .inr ⟨rfl, rfl, rfl⟩
        | false => exact absurd hmark (not_isMark_note _ _ _ _)
      · exact .inl hr
    · exact .inl hr

theorem mem_of_oneRemoval {p : Progress} {d : TorrentDecision} {r : SchedulerState}
    (hr : r ∈ (oneRemoval provider p d).states) : r ∈ p.states := by
  unfold oneRemoval at hr
  dsimp only at hr
  split_ifs at hr
  · exact List.mem_of_mem_filter hr
  · exact hr
  · exact hr

theorem carryOut_marked {p : Progress} {d : TorrentDecision} {r : SchedulerState}
    (hr : r ∈ (carryOut provider engineId true p d).states) (hmark : IsMark r) :
    r ∈ p.states ∨ Marks provider engineId d r := by
  unfold carryOut at hr
  split_ifs at hr with hremoval
  · exact .inl (mem_of_oneRemoval hr)
  · rw [one_states] at hr
    cases hcommand : provider.command d with
    | none => exact .inl (by simpa [hcommand] using hr)
    | some reply =>
      simp only [hcommand] at hr
      obtain hr | ⟨hnoted, hengine, hhash⟩ := noteDown_marked hr hmark
      · exact .inl hr
      · obtain ⟨hpause, hconfirmed⟩ := noted_true hnoted
        have hreply : provider.pauseTorrent d.hash = reply := by
          simpa [Provider.command, hpause] using hcommand
        exact .inr ⟨hpause, hreply ▸ hconfirmed, hengine, hhash⟩

theorem foldl_marked (ds : List TorrentDecision) {p : Progress} {r : SchedulerState}
    (hr : r ∈ (ds.foldl (carryOut provider engineId true) p).states) (hmark : IsMark r) :
    r ∈ p.states ∨ ∃ d ∈ ds, Marks provider engineId d r := by
  induction ds generalizing p with
  | nil => exact .inl hr
  | cons d ds ih =>
    rw [List.foldl_cons] at hr
    obtain hr | ⟨d', hd', hmarks⟩ := ih hr
    · obtain hr | hmarks := carryOut_marked hr hmark
      · exact .inl hr
      · exact .inr ⟨d, List.mem_cons_self, hmarks⟩
    · exact .inr ⟨d', List.mem_cons_of_mem _ hd', hmarks⟩

theorem applyBandwidth_states (p : Progress) (plan : EngineActivityPlan) :
    (applyBandwidth provider p plan).states = p.states := by
  unfold applyBandwidth
  split
  · rfl
  · split_ifs <;> first | rfl | (split <;> first | rfl | (split <;> rfl))

/-- A mark in the table a sweep leaves was there before, or comes from a pause of the plan
that the engine was seen to carry out. -/
theorem apply_marked {plan : EngineActivityPlan} {states : List SchedulerState} {r : SchedulerState}
    (hr : r ∈ (apply provider true plan states).states) (hmark : IsMark r) :
    r ∈ states ∨ ∃ d ∈ plan.decisions, Marks provider plan.engineId d r := by
  rw [apply_eq_foldl] at hr
  obtain hr | ⟨d, hd, hmarks⟩ := foldl_marked _ hr hmark
  · rw [applyBandwidth_states] at hr
    exact .inl hr
  · exact .inr ⟨d, (mem_commands.1 hd).1, hmarks⟩

end UltraTorrent.Scheduler.Reconciliation
