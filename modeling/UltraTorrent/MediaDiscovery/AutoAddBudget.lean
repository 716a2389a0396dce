import UltraTorrent.Library.RollingWindow

/-! The automatic additions of a discovery template, and the limits that pace them. What counts
towards a limit are the evaluations a run writes for the titles it decides about; an edit of the
template deletes them, and so does the removal of a title. Times are milliseconds. -/
namespace UltraTorrent.MediaDiscovery.AutoAddBudget

open Library.RollingWindow

def dayMs : ℤ := 24 * 60 * 60 * 1000

def weekMs : ℤ := 7 * dayMs

def maxPerRun : ℕ := 500

/-! ### Deciding -/

inductive Decision where
  | autoMonitor
  | notify
  | ignore
  | needsReview
  | reviewPastRelease
  | alreadyMonitored
  | existsMonitoringIncomplete
  | existsNotMonitored
  deriving DecidableEq

structure Verdict where
  applies : Bool
  decision : Decision
  deriving DecidableEq

/-- A discovered title, as the run reads it. -/
structure Row where
  id : String
  discoveryStatus : String
  matchedTemplateId : Option String
  deriving DecidableEq

/-- What the gates before the allowance can come to; none of them monitors. -/
inductive Held where
  | notApplicable
  | notify
  | ignore
  | needsReview
  | reviewPastRelease
  deriving DecidableEq

def Held.verdict : Held → Verdict
  | .notApplicable => ⟨false, .ignore⟩
  | .notify => ⟨true, .notify⟩
  | .ignore => ⟨true, .ignore⟩
  | .needsReview => ⟨true, .needsReview⟩
  | .reviewPastRelease => ⟨true, .reviewPastRelease⟩

structure Template where
  id : String
  autoAddLimitPerDay : ℕ
  autoAddLimitPerWeek : ℕ
  /-- The gates of `evaluateDiscovery` for a title, at a time, and for one that is `retaining`; none
  when it passes them all. -/
  gates : Row → ℤ → Bool → Option Held

variable (template : Template)

/-- The allowance is the last gate. -/
def evaluateDiscovery (row : Row) (now : ℤ) (autoAddBudgetExhausted retaining : Bool) : Verdict :=
  match template.gates row now retaining with
  | some held => held.verdict
  | none => ⟨true, if autoAddBudgetExhausted then .needsReview else .autoMonitor⟩

/-- What the work of a title is already here as, when it is not what this title created. -/
inductive ExistingState where
  | alreadyMonitored
  | monitoringIncomplete
  | existsNotMonitored
  deriving DecidableEq

def ExistingState.decision : ExistingState → Decision
  | .alreadyMonitored => .alreadyMonitored
  | .monitoringIncomplete => .existsMonitoringIncomplete
  | .existsNotMonitored => .existsNotMonitored

def alreadyOurs (row : Row) : Bool :=
  row.discoveryStatus = "monitored" ∧ row.matchedTemplateId = some template.id

/-! ### States -/

structure Evaluation where
  mediaId : String
  decision : Decision
  watchlistItemId : Option String
  createdAt : ℤ
  /-- The template already monitored the title. -/
  retaining : Bool
  deriving DecidableEq

structure Entry where
  createdAt : ℤ
  retaining : Bool
  deriving DecidableEq

/-- Where the loop stands; `added` is when an entry was created for the title. -/
inductive Stage where
  | next
  | linking (row : Row)
  | attaching (row : Row) (watchlistItemId : String) (added : Option ℤ)
  | recording (row : Row) (decision : Decision) (watchlistItemId : Option String)
      (added : Option ℤ)
  deriving DecidableEq

/-- The template's part of a run. -/
structure Run where
  now : ℤ
  /-- When the allowance was read. -/
  readAt : ℤ
  ready : Bool
  remaining : ℤ
  todo : List Row
  stage : Stage
  deriving DecidableEq

inductive Phase where
  | idle
  /-- `runAll` has been called and has not come to the template. -/
  | called (now : ℤ)
  | running (run : Run)
  deriving DecidableEq

structure State where
  clock : ℤ
  phase : Phase
  evaluations : List Evaluation
  entries : List Entry
  deriving DecidableEq

/-! ### The allowance -/

def counts (e : Evaluation) : Bool := e.decision = .autoMonitor && e.watchlistItemId.isSome

def countSince (evaluations : List Evaluation) (since : ℤ) : ℕ :=
  evaluations.countP fun e => counts e && decide (since ≤ e.createdAt)

/-- What is left of both limits. -/
def remaining (evaluations : List Evaluation) (now : ℤ) : ℤ :=
  let usedToday := countSince evaluations (now - dayMs)
  let usedThisWeek := countSince evaluations (now - weekMs)
  min (max 0 ((template.autoAddLimitPerDay : ℤ) - usedToday))
    (max 0 ((template.autoAddLimitPerWeek : ℤ) - usedThisWeek))

/-! ### Steps -/

inductive LinkResult where
  | created (id : String)
  | existing (id : String)
  /-- Whatever had been created by then stays. -/
  | threw (created : Bool)
  deriving DecidableEq

/-- How the identity of a title is resolved, and what else a decision depends on. -/
structure Circumstances where
  /-- A read fails, which ends the run. -/
  throws : Bool := false
  stillDelivering : Bool := false
  /-- The removal of a title that is retracted or has graduated takes place. -/
  removed : Bool := true
  existing : Option ExistingState := none
  deriving DecidableEq

inductive Action where
  | runAll
  /-- The run comes to the template, and reads these titles. -/
  | start (rows : List Row) (ready fails : Bool)
  | decide (circumstances : Circumstances)
  | link (result : LinkResult)
  /-- The generated rule is attached to the entry, if there is one. -/
  | attach (result : Option LinkResult)
  | record (fails : Bool)
  /-- The policy of the template is edited. -/
  | edit
  /-- A title leaves the catalogue. -/
  | remove (mediaId : String)
  deriving DecidableEq

/-- Attaching the rule has not found the entry it is for. -/
def createsAgain : Option LinkResult → Bool
  | some (.created _) | some (.threw true) => true
  | _ => false

/-- A title takes its evaluations along. -/
def dropOf (mediaId : String) (evaluations : List Evaluation) : List Evaluation :=
  evaluations.filter (·.mediaId ≠ mediaId)

/-- The identity gate and the readiness of the template. -/
def effective (run : Run) (decision : Decision) (existing : Option ExistingState) : Decision :=
  let decision := if decision = .autoMonitor ∧ run.ready = false then .needsReview else decision
  if decision = .autoMonitor ∨ decision = .reviewPastRelease ∨ decision = .needsReview
  then (existing.map (·.decision)).getD decision else decision

/-- Deciding about one title: the evaluations, and where the loop goes on, if it does. -/
def judge (evaluations : List Evaluation) (run : Run) (row : Row) (c : Circumstances) :
    List Evaluation × Option Stage :=
  let ours := alreadyOurs template row
  let verdict := evaluateDiscovery template row run.now (!ours && run.remaining ≤ 0) ours
  let removed := if c.removed then dropOf row.id evaluations else evaluations
  let gone := !verdict.applies || verdict.decision = .ignore
  if c.throws then (evaluations, none)
  else if ours ∧ verdict.decision ≠ .autoMonitor ∧ c.stillDelivering then
    (removed, if c.removed then some .next else none)
  else if ours ∧ verdict.decision ≠ .autoMonitor ∧ gone then (removed, some .next)
  else if !verdict.applies then (evaluations, some (.recording row verdict.decision none none))
  else
    let decision := effective run verdict.decision c.existing
    (evaluations, some (if decision = .autoMonitor then .linking row
      else .recording row decision none none))

def Run.at (run : Run) (stage : Stage) : Phase := .running { run with stage := stage }

def loopStep (s : State) (run : Run) (action : Action) : Option State :=
  match action, run.stage with
  | .decide c, .next =>
    match run.todo with
    | [] => some { s with phase := .idle }
    | row :: todo =>
      let decided := judge template s.evaluations run row c
      some { s with
        evaluations := decided.1
        phase := (decided.2.map { run with todo := todo }.at).getD .idle }
  | .link result, .linking row =>
    let entry : Entry := ⟨s.clock, alreadyOurs template row⟩
    match result with
    | .created id => some { s with
        entries := entry :: s.entries
        -- Taken off when the title is done; nothing reads it before.
        phase := { run with remaining := run.remaining - 1 }.at (.attaching row id (some s.clock)) }
    | .existing id => some { s with phase := run.at (.attaching row id none) }
    | .threw created => some { s with
        entries := if created then entry :: s.entries else s.entries
        phase := run.at (.recording row .autoMonitor none none) }
  | .attach result, .attaching row id added =>
    let entry : Entry := ⟨s.clock, alreadyOurs template row⟩
    some { s with
      entries := if createsAgain result then entry :: s.entries else s.entries
      phase := run.at (.recording row .autoMonitor (some id) added) }
  | .record fails, .recording row decision watchlistItemId _ =>
    let evaluation : Evaluation :=
      { mediaId := row.id, decision := decision, watchlistItemId := watchlistItemId
        createdAt := s.clock, retaining := alreadyOurs template row }
    some { s with
      evaluations := if fails then s.evaluations else evaluation :: s.evaluations
      phase := run.at .next }
  | _, _ => none

/-- The titles a run examines: those the template has not decided about. -/
def examined (evaluations : List Evaluation) (rows : List Row) : List Row :=
  (rows.filter fun row => evaluations.all (·.mediaId ≠ row.id)).take maxPerRun

/-- One step of a run, or of whoever edits the template and removes titles. -/
def stepNow (s : State) (action : Action) : Option State :=
  match action, s.phase with
  | .edit, _ => some { s with evaluations := [] }
  | .remove mediaId, _ => some { s with evaluations := dropOf mediaId s.evaluations }
  | .runAll, .idle => some { s with phase := .called s.clock }
  -- While a run is going on another one is refused.
  | .runAll, _ => some s
  | .start rows ready fails, .called now =>
    let rows := examined s.evaluations rows
    let run : Run :=
      { now := now, readAt := s.clock, ready := ready, todo := rows, stage := .next
        remaining := remaining template s.evaluations now }
    some { s with phase := if fails ∨ rows = [] then .idle else .running run }
  | action, .running run => loopStep template s run action
  | _, _ => none

/-- A step at a time, which is never before the last one. -/
def step (s : State) (time : ℤ) (action : Action) : Option State :=
  if time < s.clock then none else stepNow template { s with clock := time } action

/-- The states that lead on from one. -/
inductive Reaches (allowed : State → ℤ → Action → Prop) (start : State) : State → Prop
  | refl : Reaches allowed start start
  | tail {s s' : State} (time : ℤ) (action : Action) : Reaches allowed start s →
      allowed s time action → step template s time action = some s' → Reaches allowed start s'

def fresh : State := ⟨0, .idle, [], []⟩

/-! ### What the limits promise -/

def State.times (s : State) : List ℤ := s.entries.map (·.createdAt)

/-- No window holds more entries than its limit, and what counts towards the limits was not
monitored before. -/
structure Keeps (s : State) : Prop where
  day : Paced dayMs template.autoAddLimitPerDay s.times
  week : Paced weekMs template.autoAddLimitPerWeek s.times
  entries : ∀ e ∈ s.entries, e.retaining = false
  evaluations : ∀ e ∈ s.evaluations, counts e = true → e.retaining = false

/-- No evaluation is deleted that counts and is younger than a week. -/
def keepsCounted (time : ℤ) (before after : List Evaluation) : Bool :=
  before.all fun e => after.contains e || !(counts e && decide (time - weekMs ≤ e.createdAt))

/-- A title that is new to the template, or that it would not monitor again. -/
def newOrHeld (now : ℤ) (ready : Bool) (row : Row) : Bool :=
  !alreadyOurs template row || !ready || (template.gates row now true).isSome

/-- What lets the limits keep their promise. -/
def careful (s : State) (time : ℤ) (action : Action) : Bool :=
  match action, s.phase with
  | .edit, _ => keepsCounted time s.evaluations []
  | .remove mediaId, _ => keepsCounted time s.evaluations (dropOf mediaId s.evaluations)
  | .start rows ready _, .called now =>
    (examined s.evaluations rows).all (newOrHeld template now ready)
  | .decide c, .running run =>
    run.todo.head?.all fun row =>
      keepsCounted time s.evaluations (judge template s.evaluations run row c).1
  | .link (.threw created), _ => !created
  | .attach result, _ => !createsAgain result
  | .record fails, .running run =>
    match run.stage with
    | .recording _ _ _ added => !fails || added.isNone
    | _ => true
  | _, _ => true

/-! ### The invariant -/

/-- An entry whose evaluation is still to be written. -/
def pending (phase : Phase) (x : ℤ) : ℕ :=
  match phase with
  | .running run =>
    match run.stage with
    | .attaching _ _ (some added) | .recording _ _ _ (some added) => if x ≤ added then 1 else 0
    | _ => 0
  | _ => 0

/-- What comes as far as being monitored is new, and an entry is linked to what is recorded. -/
def stageOk (clock : ℤ) (run : Run) : Prop :=
  match run.stage with
  | .next => True
  | .linking row => alreadyOurs template row = false ∧ 0 < run.remaining
  | .attaching row _ added => alreadyOurs template row = false ∧ ∀ t ∈ added, t ≤ clock
  | .recording row decision watchlistItemId added =>
    (decision = .autoMonitor → alreadyOurs template row = false) ∧
      ∀ t ∈ added, t ≤ clock ∧ decision = .autoMonitor ∧ watchlistItemId.isSome

/-- What is left of a limit fits into every window that reaches back no further than the count. -/
def Room (width : ℤ) (limit : ℕ) (run : Run) (times : List ℤ) : Prop :=
  ∀ x, run.readAt - width ≤ x → since x times + run.remaining.toNat ≤ limit

def phaseOk (s : State) : Prop :=
  match s.phase with
  | .idle => True
  | .called now => now ≤ s.clock
  | .running run => run.readAt ≤ s.clock ∧ Room dayMs template.autoAddLimitPerDay run s.times ∧
      Room weekMs template.autoAddLimitPerWeek run s.times ∧
      run.todo.all (newOrHeld template run.now run.ready) = true ∧ stageOk template s.clock run

structure Inv (s : State) : Prop extends Keeps template s where
  past : ∀ t ∈ s.times, t ≤ s.clock
  covered : ∀ x, s.clock - weekMs ≤ x →
    since x s.times ≤ countSince s.evaluations x + pending s.phase x
  phase : phaseOk template s

variable {template} {s s' : State} {run : Run} {action : Action} {time x : ℤ}

theorem Inv.fresh : Inv template fresh where
  day _ := Nat.zero_le _
  week _ := Nat.zero_le _
  entries _ h := by cases h
  evaluations _ h := by cases h
  past _ h := by cases h
  covered _ _ := Nat.zero_le _
  phase := trivial

theorem stageOk_mono {clock : ℤ} (h : stageOk template clock run) (hle : clock ≤ time) :
    stageOk template time run := by
  unfold stageOk at h ⊢
  split at h
  · exact h
  · exact h
  · exact ⟨h.1, fun t ht => (h.2 t ht).trans hle⟩
  · exact ⟨h.1, fun t ht => ⟨(h.2 t ht).1.trans hle, (h.2 t ht).2⟩⟩

/-- Time passes. -/
theorem Inv.tick (h : Inv template s) (hle : s.clock ≤ time) :
    Inv template { s with clock := time } where
  toKeeps := ⟨h.day, h.week, h.entries, h.evaluations⟩
  past t ht := (h.past t ht).trans hle
  covered x hx := h.covered x (by dsimp only at hx; omega)
  phase := by
    have hphase := h.phase
    unfold phaseOk at hphase ⊢
    dsimp only
    split
    · trivial
    · rename_i now hnow
      rw [hnow] at hphase
      exact hphase.trans hle
    · rename_i run hrun
      rw [hrun] at hphase
      obtain ⟨hread, hday, hweek, htodo, hstage⟩ := hphase
      exact ⟨hread.trans hle, hday, hweek, htodo, stageOk_mono hstage hle⟩

theorem countSince_anti {evaluations : List Evaluation} {y : ℤ} (h : x ≤ y) :
    countSince evaluations y ≤ countSince evaluations x := by
  refine List.countP_mono_left fun e _ he => ?_
  rw [Bool.and_eq_true, decide_eq_true_iff] at he ⊢
  exact ⟨he.1, h.trans he.2⟩

theorem countSince_le_filter {evaluations : List Evaluation} {p : Evaluation → Bool}
    (h : keepsCounted time evaluations (evaluations.filter p) = true) (hx : time - weekMs ≤ x) :
    countSince evaluations x ≤ countSince (evaluations.filter p) x := by
  unfold countSince
  rw [List.countP_filter]
  refine List.countP_mono_left fun e he hcounts => ?_
  have hkept := List.all_eq_true.1 h e he
  rw [Bool.and_eq_true, decide_eq_true_iff] at hcounts
  have hyoung : (counts e && decide (time - weekMs ≤ e.createdAt)) = true := by
    rw [Bool.and_eq_true, decide_eq_true_iff]
    exact ⟨hcounts.1, hx.trans hcounts.2⟩
  rw [hyoung, Bool.not_true, Bool.or_false, List.contains_iff_mem, List.mem_filter] at hkept
  simp [hcounts, hkept.2]

theorem Inv.delete (h : Inv template s) {p : Evaluation → Bool}
    (hkept : keepsCounted s.clock s.evaluations (s.evaluations.filter p) = true) :
    Inv template { s with evaluations := s.evaluations.filter p } where
  toKeeps := ⟨h.day, h.week, h.entries, fun e he => h.evaluations e (List.mem_of_mem_filter he)⟩
  past := h.past
  covered x hx := (h.covered x hx).trans (Nat.add_le_add_right (countSince_le_filter hkept hx) _)
  phase := h.phase

theorem Inv.setPhase (h : Inv template s) {phase : Phase}
    (hpending : ∀ x, pending s.phase x ≤ pending phase x)
    (hphase : phaseOk template { s with phase := phase }) : Inv template { s with phase := phase } where
  toKeeps := ⟨h.day, h.week, h.entries, h.evaluations⟩
  past := h.past
  covered x hx := (h.covered x hx).trans (Nat.add_le_add_left (hpending x) _)
  phase := hphase

theorem Inv.running (h : Inv template s) (hrun : s.phase = .running run) :
    run.readAt ≤ s.clock ∧ Room dayMs template.autoAddLimitPerDay run s.times ∧
      Room weekMs template.autoAddLimitPerWeek run s.times ∧
      run.todo.all (newOrHeld template run.now run.ready) = true ∧ stageOk template s.clock run := by
  have hphase := h.phase
  unfold phaseOk at hphase
  rwa [hrun] at hphase

theorem room_remaining (h : Inv template s) {now : ℤ} (hphase : s.phase = .called now)
    {width : ℤ} {limit : ℕ} (hpaced : Paced width limit s.times) (hwidth : width ≤ weekMs)
    (hle : run.remaining ≤ max 0 ((limit : ℤ) - countSince s.evaluations (now - width)))
    (hread : run.readAt = s.clock) : Room width limit run s.times := by
  intro x hx
  have hnow : now ≤ s.clock := by
    have hp := h.phase
    unfold phaseOk at hp
    rwa [hphase] at hp
  have hall : since x s.times ≤ limit := hpaced.since_le h.past (by omega)
  have hcovered := h.covered x (by omega)
  rw [hphase] at hcovered
  have hanti : countSince s.evaluations x ≤ countSince s.evaluations (now - width) :=
    countSince_anti (by omega)
  simp only [pending, Nat.add_zero] at hcovered
  omega

theorem remaining_le (evaluations : List Evaluation) (now : ℤ) :
    remaining template evaluations now ≤
        max 0 ((template.autoAddLimitPerDay : ℤ) - countSince evaluations (now - dayMs)) ∧
      remaining template evaluations now ≤
        max 0 ((template.autoAddLimitPerWeek : ℤ) - countSince evaluations (now - weekMs)) :=
  ⟨min_le_left _ _, min_le_right _ _⟩

/-! ### The loop -/

theorem judge_evaluations (template : Template) (evaluations : List Evaluation) (run : Run)
    (row : Row) (c : Circumstances) : ∃ p, (judge template evaluations run row c).1 = evaluations.filter p := by
  have hsame : ∃ p, evaluations = evaluations.filter p := ⟨fun _ => true, by simp⟩
  have hremoved : ∃ p, (if c.removed then dropOf row.id evaluations else evaluations) =
      evaluations.filter p := by
    split_ifs
    · exact ⟨_, rfl⟩
    · exact hsame
  unfold judge
  generalize (if c.removed then dropOf row.id evaluations else evaluations) = removed at hremoved ⊢
  dsimp only
  split_ifs <;> first | exact hsame | exact hremoved

theorem evaluateDiscovery_eq_autoMonitor {row : Row} {now : ℤ} {exhausted retaining : Bool}
    (h : (evaluateDiscovery template row now exhausted retaining).decision = .autoMonitor) :
    template.gates row now retaining = none ∧ exhausted = false := by
  unfold evaluateDiscovery at h
  split at h
  · rename_i held _
    cases held <;> cases h
  · rename_i hgates
    cases exhausted with
    | true => cases h
    | false => exact ⟨hgates, rfl⟩

theorem effective_eq_autoMonitor {decision : Decision} {existing : Option ExistingState}
    (h : effective run decision existing = .autoMonitor) :
    decision = .autoMonitor ∧ run.ready = true := by
  have hexisting (state : ExistingState) : state.decision ≠ .autoMonitor := by
    cases state <;> simp [ExistingState.decision]
  unfold effective at h
  dsimp only at h
  split_ifs at h with hunready
  all_goals cases existing <;> simp_all

theorem judge_stage {evaluations : List Evaluation} {row : Row} {c : Circumstances}
    {stage : Stage} (hrow : newOrHeld template run.now run.ready row = true)
    (h : (judge template evaluations run row c).2 = some stage) :
    stage = .next ∨ (∃ decision, decision ≠ .autoMonitor ∧ stage = .recording row decision none none) ∨
      stage = .linking row ∧ alreadyOurs template row = false ∧ 0 < run.remaining := by
  unfold judge at h
  dsimp only at h
  split_ifs at h with _ _ _ _ _ happlies hauto
  · cases h
    exact .inl rfl
  · cases h
    exact .inl rfl
  · cases h
    exact .inl rfl
  · cases h
    refine .inr (.inl ⟨_, fun hdecision => ?_, rfl⟩)
    have hgates := (evaluateDiscovery_eq_autoMonitor hdecision).1
    simp [evaluateDiscovery, hgates] at happlies
  · cases h
    obtain ⟨hdecision, hready⟩ := effective_eq_autoMonitor hauto
    obtain ⟨hgates, hleft⟩ := evaluateDiscovery_eq_autoMonitor hdecision
    have hnew : alreadyOurs template row = false := by
      by_contra hours
      rw [Bool.not_eq_false] at hours
      rw [hours] at hgates
      simp [newOrHeld, hours, hready, hgates] at hrow
    refine .inr (.inr ⟨rfl, hnew, ?_⟩)
    simpa [hnew] using hleft
  · cases h
    exact .inr (.inl ⟨_, hauto, rfl⟩)

/-- Going on with the loop. -/
theorem Inv.goOn (h : Inv template s) (hrun : s.phase = .running run) {run' : Run}
    (hread : run'.readAt = run.readAt) (hremaining : run'.remaining = run.remaining)
    (hpending : ∀ x, pending s.phase x ≤ pending (.running run') x)
    (htodo : run'.todo.all (newOrHeld template run'.now run'.ready) = true)
    (hstage : stageOk template s.clock run') : Inv template { s with phase := .running run' } := by
  obtain ⟨hpast, hday, hweek, -⟩ := h.running hrun
  refine h.setPhase hpending ⟨hread ▸ hpast, ?_, ?_, htodo, hstage⟩
  · intro x hx
    rw [hremaining]
    exact hday x (hread ▸ hx)
  · intro x hx
    rw [hremaining]
    exact hweek x (hread ▸ hx)

theorem Inv.stop (h : Inv template s) (hpending : ∀ x, pending s.phase x = 0) :
    Inv template { s with phase := .idle } :=
  h.setPhase (fun x => (hpending x).le) trivial

theorem Inv.create (h : Inv template s) (hrun : s.phase = .running run) {row : Row}
    (hstage : run.stage = .linking row) (id : String) :
    Inv template { s with
      entries := ⟨s.clock, alreadyOurs template row⟩ :: s.entries
      phase := { run with remaining := run.remaining - 1 }.at (.attaching row id (some s.clock)) } := by
  obtain ⟨hpast, hday, hweek, htodo, hok⟩ := h.running hrun
  unfold stageOk at hok
  rw [hstage] at hok
  obtain ⟨hnew, hleft⟩ := hok
  have hroom {width : ℤ} {limit : ℕ} (hr : Room width limit run s.times) :
      since (s.clock - width) s.times < limit := by
    have := hr (s.clock - width) (by omega)
    omega
  have hspent {width : ℤ} {limit : ℕ} (hr : Room width limit run s.times) :
      Room width limit { run with remaining := run.remaining - 1 } (s.clock :: s.times) := by
    intro x hx
    have := hr x hx
    rw [since_cons]
    dsimp only
    split_ifs <;> omega
  refine { day := h.day.cons (hroom hday), week := h.week.cons (hroom hweek), entries := ?_,
           evaluations := h.evaluations, past := ?_, covered := ?_,
           phase := ⟨hpast, hspent hday, hspent hweek, htodo, hnew, ?_⟩ }
  · rintro e he
    rcases List.mem_cons.1 he with rfl | he
    · exact hnew
    · exact h.entries e he
  · rintro t ht
    rcases List.mem_cons.1 ht with rfl | ht
    · exact le_rfl
    · exact h.past t ht
  · intro x hx
    have hcovered := h.covered x hx
    rw [hrun] at hcovered
    simp only [pending, hstage] at hcovered
    simp only [State.times, List.map_cons, since_cons, pending, Run.at]
    simp only [State.times] at hcovered
    omega
  · rintro t ⟨⟩
    exact le_rfl

/-- A title is decided about. -/
theorem Inv.judged (h : Inv template s) (hrun : s.phase = .running run) (hstage : run.stage = .next)
    {row : Row} {todo : List Row} {c : Circumstances} (htodo : run.todo = row :: todo)
    (hcareful : keepsCounted s.clock s.evaluations
      (judge template s.evaluations run row c).1 = true) :
    Inv template { s with
      evaluations := (judge template s.evaluations run row c).1
      phase := ((judge template s.evaluations run row c).2.map { run with todo := todo }.at).getD .idle } := by
  have hnone (x : ℤ) : pending s.phase x = 0 := by simp [hrun, pending, hstage]
  obtain ⟨p, hp⟩ := judge_evaluations template s.evaluations run row c
  rw [hp] at hcareful ⊢
  have hdeleted := h.delete hcareful
  obtain ⟨-, -, -, hall, -⟩ := h.running hrun
  rw [htodo, List.all_cons, Bool.and_eq_true] at hall
  cases hnext : (judge template s.evaluations run row c).2 with
  | none => exact hdeleted.stop hnone
  | some stage =>
    refine hdeleted.goOn hrun rfl rfl (fun x => (hnone x).trans_le (Nat.zero_le _)) hall.2 ?_
    rcases judge_stage hall.1 hnext with rfl | ⟨decision, hne, rfl⟩ | ⟨rfl, hnew⟩
    · trivial
    · exact ⟨fun hauto => absurd hauto hne, fun t ht => by cases ht⟩
    · exact hnew

theorem Inv.recorded (h : Inv template s) (hrun : s.phase = .running run) {row : Row}
    {decision : Decision} {watchlistItemId : Option String} {added : Option ℤ}
    (hstage : run.stage = .recording row decision watchlistItemId added) {e : Evaluation}
    (he : e = ⟨row.id, decision, watchlistItemId, s.clock, alreadyOurs template row⟩) :
    Inv template { s with evaluations := e :: s.evaluations, phase := run.at .next } := by
  obtain ⟨hpast, hday, hweek, htodo, hok⟩ := h.running hrun
  unfold stageOk at hok
  rw [hstage] at hok
  obtain ⟨hnew, hlinked⟩ := hok
  refine { day := h.day, week := h.week, entries := h.entries, past := h.past, covered := ?_,
           evaluations := ?_, phase := ⟨hpast, hday, hweek, htodo, trivial⟩ }
  · rintro e' he' hcounts
    rcases List.mem_cons.1 he' with rfl | he'
    · rw [he] at hcounts ⊢
      simp only [counts, Bool.and_eq_true, decide_eq_true_eq] at hcounts
      exact hnew hcounts.1
    · exact h.evaluations e' he' hcounts
  · intro x hx
    have hcovered := h.covered x hx
    have hcons : countSince (e :: s.evaluations) x = countSince s.evaluations x +
        if (counts e && decide (x ≤ e.createdAt)) = true then 1 else 0 := List.countP_cons ..
    rw [hrun] at hcovered
    change since x s.times ≤ countSince (e :: s.evaluations) x + 0
    rw [hcons, Nat.add_zero]
    cases added with
    | none =>
      simp only [pending, hstage, Nat.add_zero] at hcovered
      exact hcovered.trans (Nat.le_add_right _ _)
    | some t =>
      obtain ⟨hle, hdecision, hsome⟩ := hlinked t rfl
      have hcounts : counts e = true := by simp [he, counts, hdecision, hsome]
      have hat : e.createdAt = s.clock := by rw [he]
      simp only [pending, hstage] at hcovered
      simp only [hcounts, hat, Bool.true_and, decide_eq_true_eq]
      split_ifs at hcovered ⊢ <;> omega

theorem Inv.loopStep (h : Inv template s) (hrun : s.phase = .running run)
    (hcareful : careful template s s.clock action = true)
    (hstep : loopStep template s run action = some s') : Inv template s' := by
  obtain ⟨-, -, -, hall, hok⟩ := h.running hrun
  have hnone (x : ℤ) (hstage : pending (.running run) x = 0) (phase : Phase) :
      pending s.phase x ≤ pending phase x := by
    rw [hrun, hstage]
    exact Nat.zero_le _
  unfold AutoAddBudget.loopStep at hstep
  unfold careful at hcareful
  split at hstep
  · rename_i c hstage
    simp only [hrun] at hcareful
    cases htodo : run.todo with
    | nil =>
      rw [htodo] at hstep
      cases hstep
      exact h.stop fun x => by simp [hrun, pending, hstage]
    | cons row todo =>
      rw [htodo] at hstep hcareful
      rw [List.head?_cons, Option.all_some] at hcareful
      cases hstep
      exact h.judged hrun hstage htodo hcareful
  · rename_i result row hstage
    unfold stageOk at hok
    rw [hstage] at hok
    cases result with
    | created id =>
      cases hstep
      exact h.create hrun hstage id
    | existing id =>
      cases hstep
      exact h.goOn hrun rfl rfl (fun x => hnone x (by simp [pending, hstage]) _) hall
        ⟨hok.1, fun t ht => by cases ht⟩
    | threw created =>
      cases created with
      | true => cases hcareful
      | false =>
        cases hstep
        exact h.goOn hrun rfl rfl (fun x => hnone x (by simp [pending, hstage]) _) hall
          ⟨fun _ => hok.1, fun t ht => by cases ht⟩
  · rename_i result row id added hstage
    have hagain : createsAgain result = false := by simpa using hcareful
    rw [hagain] at hstep
    cases hstep
    unfold stageOk at hok
    rw [hstage] at hok
    refine h.goOn hrun rfl rfl (fun x => ?_) hall ⟨fun _ => hok.1, fun t ht => ⟨hok.2 t ht, rfl, rfl⟩⟩
    rw [hrun]
    cases added <;> simp [pending, hstage]
  · rename_i fails row decision watchlistItemId added hstage
    simp only [hrun, hstage] at hcareful
    cases fails with
    | true =>
      cases hstep
      have hadded : added = none := by simpa using hcareful
      refine h.goOn hrun rfl rfl (fun x => hnone x ?_ _) hall trivial
      simp [pending, hstage, hadded]
    | false =>
      cases hstep
      exact h.recorded hrun hstage rfl
  · cases hstep

/-- A careful step keeps the invariant. -/
theorem Inv.stepNow (h : Inv template s) (hcareful : careful template s s.clock action = true)
    (hstep : stepNow template s action = some s') : Inv template s' := by
  unfold AutoAddBudget.stepNow at hstep
  split at hstep
  · cases hstep
    have hnil : s.evaluations.filter (fun _ => false) = [] := List.filter_eq_nil_iff.2 (by simp)
    have hdeleted := h.delete (p := fun _ => false) (by rw [hnil]; exact hcareful)
    rwa [hnil] at hdeleted
  · cases hstep
    exact h.delete hcareful
  · cases hstep
    rename_i hidle
    exact h.setPhase (fun x => by rw [hidle]; exact Nat.zero_le _) le_rfl
  · cases hstep
    exact h
  · rename_i rows ready fails now hcalled
    cases hstep
    have hnone (x : ℤ) : pending s.phase x = 0 := by rw [hcalled]; rfl
    split_ifs
    · exact h.stop hnone
    · have htodo : (examined s.evaluations rows).all (newOrHeld template now ready) = true := by
        unfold careful at hcareful
        rwa [hcalled] at hcareful
      refine h.setPhase (fun x => (hnone x).trans_le (Nat.zero_le _)) ⟨le_rfl, ?_, ?_, htodo, trivial⟩
      · exact room_remaining h hcalled h.day (by decide) (remaining_le _ _).1 rfl
      · exact room_remaining h hcalled h.week le_rfl (remaining_le _ _).2 rfl
  · exact h.loopStep (by assumption) hcareful hstep
  · cases hstep

theorem Inv.step (h : Inv template s) (hcareful : careful template s time action = true)
    (hstep : step template s time action = some s') : Inv template s' := by
  unfold AutoAddBudget.step at hstep
  split_ifs at hstep with hlate
  exact (h.tick (not_lt.1 hlate)).stepNow hcareful hstep

/-- In a careful history the limits keep their promise. -/
theorem careful_keeps (template : Template)
    (h : Reaches template (fun s time action => careful template s time action = true) fresh s) :
    Keeps template s := by
  suffices Inv template s from this.toKeeps
  induction h with
  | refl => exact Inv.fresh
  | tail time action _ hcareful hstep ih => exact ih.step hcareful hstep

/-! ### Histories -/

theorem Reaches.mono {allowed allowed' : State → ℤ → Action → Prop} {start s : State}
    (h : Reaches template allowed start s)
    (himp : ∀ s time action, allowed s time action → allowed' s time action) :
    Reaches template allowed' start s := by
  induction h with
  | refl => exact .refl
  | tail time action _ hallowed hstep ih => exact ih.tail time action (himp _ _ _ hallowed) hstep

/-- Follows a list of timed steps as long as each may be taken. -/
def history (template : Template) (p : State → ℤ → Action → Bool) :
    State → List (ℤ × Action) → Option State
  | s, [] => some s
  | s, (time, action) :: rest =>
    if p s time action then (step template s time action).bind fun s' => history template p s' rest
    else none

theorem reaches_history {p : State → ℤ → Action → Bool} {events : List (ℤ × Action)}
    (h : history template p s events = some s') :
    Reaches template (fun s time action => p s time action = true) s s' := by
  suffices ∀ s₀, Reaches template (fun s time action => p s time action = true) s s₀ →
      history template p s₀ events = some s' →
      Reaches template (fun s time action => p s time action = true) s s' from this s .refl h
  clear h
  induction events with
  | nil =>
    rintro s₀ hreach hend
    cases hend
    exact hreach
  | cons event rest ih =>
    intro s₀ hreach hend
    unfold history at hend
    split_ifs at hend with hallowed
    obtain ⟨s₁, hstep, hrest⟩ := Option.bind_eq_some_iff.1 hend
    exact ih s₁ (hreach.tail _ _ hallowed hstep) hrest

/-- One title a day and a week. -/
def single : Template := ⟨"t1", 1, 1, fun _ _ _ => none⟩

def newTitle (id : String) : Row := ⟨id, "new", none⟩

def monitoredTitle (id : String) : Row := ⟨id, "monitored", some "t1"⟩

/-- A title is monitored, its entry linked so, and its evaluation may not be written. -/
def monitor (result : LinkResult) (fails : Bool) : List Action :=
  [.decide {}, .link result, .attach none, .record fails]

def runOver (time : ℤ) (ready : Bool) (rows : List Row) (titles : List Action) : List (ℤ × Action) :=
  let actions : List Action := .runAll :: .start rows ready false :: (titles ++ [.decide {}])
  actions.map fun action => (time, action)

def firstRun (fails : Bool) : List (ℤ × Action) :=
  runOver 0 true [newTitle "m1"] (monitor (.created "w1") fails)

/-- A week later an edit reopens what was decided, and a run that is not ready reviews it. -/
theorem careful_keeps_weekly : ∃ s, s.entries.length = 2 ∧ Keeps single s := by
  have hend : (history single (careful single) fresh (firstRun false ++ [(weekMs + 1, .edit)] ++
      runOver (weekMs + 1) false [monitoredTitle "m1"] [.decide {}, .record false] ++
      runOver (weekMs + 2) true [newTitle "m2"] (monitor (.created "w2") false))).map
        (·.entries.length) = some 2 := by decide +kernel
  obtain ⟨s, hs, hlength⟩ := Option.map_eq_some_iff.1 hend
  exact ⟨s, hlength, careful_keeps single (reaches_history hs)⟩

theorem reaches_any (template : Template) (f : State → Bool) (events : List (ℤ × Action))
    (h : (history template (fun _ _ _ => true) fresh events).any f = true) :
    ∃ s, Reaches template (fun _ _ _ => True) fresh s ∧ f s = true := by
  cases hend : history template (fun _ _ _ => true) fresh events with
  | none =>
    rw [hend] at h
    cases h
  | some s =>
    rw [hend] at h
    exact ⟨s, (reaches_history hend).mono fun _ _ _ _ => trivial, h⟩

/-- Two entries on one day. -/
def crowded (s : State) : Bool := s.times = [1, 0]

theorem not_keeps_of_crowded {s : State} (h : crowded s = true) : ¬ Keeps single s := by
  intro hkeeps
  have hday := hkeeps.day 0
  rw [of_decide_eq_true h] at hday
  exact absurd hday (by decide)

/-- Something counts that was monitored before. -/
def countsTwice (s : State) : Bool := s.evaluations.any fun e => counts e && e.retaining

theorem not_keeps_of_countsTwice {s : State} (h : countsTwice s = true) : ¬ Keeps single s := by
  intro hkeeps
  obtain ⟨e, he, hboth⟩ := List.any_eq_true.1 h
  obtain ⟨hcounts, hretaining⟩ := Bool.and_eq_true_iff.1 hboth
  rw [hkeeps.evaluations e he hcounts] at hretaining
  cases hretaining

/-- An edit in between, or an evaluation that was not written, makes room for a second title on the
same day; and after an edit a title that is monitored counts again. -/
theorem limit_exceeded :
    (∃ s, Reaches single (fun _ _ _ => True) fresh s ∧ crowded s = true ∧ ¬ Keeps single s) ∧
    ∃ s, Reaches single (fun _ _ _ => True) fresh s ∧ countsTwice s = true ∧ ¬ Keeps single s := by
  constructor
  · obtain ⟨s, hreach, hcrowded⟩ := reaches_any single crowded
      (firstRun false ++ [(0, .edit)] ++ runOver 1 true [newTitle "m2", monitoredTitle "m1"]
        (monitor (.created "w2") false ++ monitor (.existing "w1") false)) (by decide +kernel)
    exact ⟨s, hreach, hcrowded, not_keeps_of_crowded hcrowded⟩
  · obtain ⟨s, hreach, htwice⟩ := reaches_any single countsTwice
      (firstRun false ++ [(weekMs, .edit)] ++
        runOver (weekMs + 1) true [monitoredTitle "m1"] (monitor (.existing "w1") false))
      (by decide +kernel)
    exact ⟨s, hreach, htwice, not_keeps_of_countsTwice htwice⟩

end UltraTorrent.MediaDiscovery.AutoAddBudget
