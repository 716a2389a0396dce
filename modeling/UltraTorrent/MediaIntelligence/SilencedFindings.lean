import UltraTorrent.Library.Table
import UltraTorrent.MediaIntelligence.Escalation

/-! The findings of an entity under the sweeps that reconcile them, after a person has silenced one
of them. -/
namespace UltraTorrent.MediaIntelligence.SilencedFindings

open Library Library.EcmaScript Escalation

structure Finding extends Observation where
  code : String

structure Row extends Observation where
  id : String
  code : String
  firstObservedAt : Instant
  lastObservedAt : Instant
  resolvedAt : Option Instant
  disposition : Disposition
  snoozedUntil : Option Instant
  dispositionAt : Option Instant
  dispositionBy : Option String
  dispositionReason : Option String
  escalationReason : Option EscalationReason
  attentionPriority : ℕ

/-- The findings of one entity; a code stands in one row. -/
abbrev Rows := Table Row (·.code)

/-- Worst first, and within a severity what was acknowledged last. -/
def attentionPriority (severity : Severity) (disposition : Disposition) : ℕ :=
  let base := match severity with
    | .critical => 0
    | .error => 1
    | .warning => 2
    | .opportunity => 3
    | .info => 4
  base * 10 + if disposition = .acknowledged then 1 else 0

/-! ### Decisions -/

inductive Action where
  | acknowledge
  | snooze
  | dismiss
  | reset
  deriving DecidableEq

def Action.disposition : Action → Disposition
  | .acknowledge => .acknowledged
  | .snooze => .snoozed
  | .dismiss => .dismissed
  | .reset => .unreviewed

structure Decision where
  action : Action
  findingIds : List String
  actorUserId : String
  reason : Option String
  /-- `some none` is a text that is no date. -/
  snoozedUntil : Option (Option Instant)

structure DispositionResult where
  applied : ℕ
  unknown : List String
  skippedResolved : List String

def Decision.unique (d : Decision) : List String := (d.findingIds.filter (· ≠ "")).eraseDups

def Decision.expiry (d : Decision) (now : Instant) : Except String (Option Instant) :=
  if d.action ≠ .snooze then .ok none
  else match d.snoozedUntil with
    | none => .error "A snooze needs an expiry."
    | some none => .error "Invalid snooze expiry."
    | some (some expiry) =>
      if expiry ≤ now then .error "The snooze expiry must be in the future." else .ok (some expiry)

def Row.decide (row : Row) (d : Decision) (expiry : Option Instant) (now : Instant) : Row :=
  let unlessReset {α : Type} (a : Option α) : Option α := if d.action = .reset then none else a
  { row with
    disposition := d.action.disposition
    snoozedUntil := expiry
    dispositionAt := unlessReset (some now)
    dispositionBy := unlessReset (some d.actorUserId)
    dispositionReason := unlessReset d.reason
    escalationReason := none
    attentionPriority := SilencedFindings.attentionPriority row.severity d.action.disposition }

def isActionable (d : Decision) (row : Row) : Bool :=
  d.unique.contains row.id && row.resolvedAt.isNone

def apply (rows : Rows) (d : Decision) (now : Instant) : Except String (Rows × DispositionResult) :=
  if d.unique = [] then .error "No findings selected."
  else (d.expiry now).map fun expiry =>
    (rows.update (fun row => if isActionable d row then row.decide d expiry now else row)
        (by intro row; split_ifs <;> rfl),
      { applied := rows.rows.countP (isActionable d)
        unknown := d.unique.filter fun id => !(rows.rows.any (·.id = id))
        skippedResolved := (rows.rows.filter fun row =>
          d.unique.contains row.id && row.resolvedAt.isSome).map (·.id) })

/-! ### Sweeps -/

/-- One evaluation of the entity. -/
structure Sweep where
  findings : Table Finding (·.code)
  now : Instant
  /-- The keys rows get that are made for a code. -/
  newId : String → String

variable (rt : Runtime)

def Row.touch (row : Row) (finding : Finding) (now : Instant) : Row :=
  let retention := evaluateDispositionRetention rt row.toObservation row.resolvedAt
    finding.toObservation row.disposition
  let touched := { row with
    severity := finding.severity
    evidence := finding.evidence
    lastObservedAt := now
    resolvedAt := none
    attentionPriority := SilencedFindings.attentionPriority finding.severity row.disposition }
  match retention with
  | .keepDisposition => touched
  | .resetToUnreviewed reason =>
    if row.disposition = .unreviewed then touched
    else { touched with
      attentionPriority := SilencedFindings.attentionPriority finding.severity .unreviewed
      disposition := .unreviewed
      snoozedUntil := none
      dispositionAt := none
      dispositionBy := none
      dispositionReason := none
      escalationReason := some reason }

def Row.resolve (row : Row) (now : Instant) : Row :=
  if row.resolvedAt.isNone then { row with resolvedAt := some now, lastObservedAt := now } else row

def opened (sweep : Sweep) (finding : Finding) : Row where
  toObservation := finding.toObservation
  id := sweep.newId finding.code
  code := finding.code
  firstObservedAt := sweep.now
  lastObservedAt := sweep.now
  resolvedAt := none
  disposition := .unreviewed
  snoozedUntil := none
  dispositionAt := none
  dispositionBy := none
  dispositionReason := none
  escalationReason := none
  attentionPriority := attentionPriority finding.severity .unreviewed

/-- What becomes of a row that was there before the sweep. -/
def Row.next (row : Row) (sweep : Sweep) : Row :=
  match sweep.findings.find row.code with
  | some finding => row.touch rt finding sweep.now
  | none => row.resolve sweep.now

variable {rt}

@[simp] theorem touch_code (row : Row) (finding : Finding) (now : Instant) :
    (row.touch rt finding now).code = row.code := by
  unfold Row.touch
  dsimp only
  split
  · rfl
  · split_ifs <;> rfl

theorem next_code (row : Row) (sweep : Sweep) : (row.next rt sweep).code = row.code := by
  unfold Row.next
  split
  · exact touch_code ..
  · unfold Row.resolve
    split_ifs <;> rfl

variable (rt)

/-- What reproduced is touched, what did not is resolved, what is new is opened. -/
def reconcileFindings (rows : Rows) (sweep : Sweep) : Rows :=
  sweep.findings.rows.foldl (fun rows finding => rows.addMissing (opened sweep finding))
    (rows.update (fun row => row.next rt sweep) fun row => next_code row sweep)

/-! ### Runs -/

/-- What a finding's row before a sweep, the finding, and the row afterwards have to do with each
other, throughout a run of sweeps. -/
def Throughout (code : String) (P : Row → Finding → Row → Prop) : Rows → List Sweep → Prop
  | _, [] => True
  | rows, sweep :: sweeps =>
    let rows' := reconcileFindings rt rows sweep
    (∀ row finding row', rows.find code = some row → sweep.findings.find code = some finding →
      rows'.find code = some row' → P row finding row') ∧ Throughout code P rows' sweeps

/-- Once a finding is worse than what was decided about, it is no longer silenced; and meeting what
was decided about does not end the silence. -/
def SpeaksUp (decided : Observation) (row : Row) (finding : Finding) (row' : Row) : Prop :=
  (Worse decided finding.toObservation → row'.disposition = .unreviewed) ∧
  (finding.toObservation = decided → row.disposition ≠ .unreviewed → row'.disposition ≠ .unreviewed)

/-- The row stored last tells what the decision would tell. -/
def Comparable (decided : Observation) (row : Row) (finding : Finding) (_ : Row) : Prop :=
  row.disposition ≠ .unreviewed →
    GrowthShows rt decided row.toObservation finding.toObservation ∧
      RelapseHides rt decided row.toObservation finding.toObservation

variable {rt} {rows : Rows} {row : Row} {finding : Finding} {sweep : Sweep} {code : String}
  {decided : Observation}

theorem find_reconcileFindings (rt : Runtime) (hrow : rows.find code = some row)
    (hfinding : sweep.findings.find code = some finding) :
    (reconcileFindings rt rows sweep).find code = some (row.touch rt finding sweep.now) := by
  have hcode : row.code = code := (Table.find_eq_some.1 hrow).2
  unfold reconcileFindings
  generalize hstart : rows.update _ _ = start
  have hfind : start.find code = some (row.touch rt finding sweep.now) := by
    rw [← hstart, Table.find_update, hrow, Option.map_some, Row.next, hcode, hfinding]
  clear hstart
  induction sweep.findings.rows generalizing start with
  | nil => exact hfind
  | cons other findings ih =>
    refine ih _ ?_
    rw [Table.find_addMissing, hfind, Option.some_or]

/-- A sweep that observes an open finding. -/
theorem touch_spec (rt : Runtime) (finding : Finding) (hopen : row.resolvedAt = none)
    (now : Instant) :
    (row.touch rt finding now).toObservation = finding.toObservation ∧
    (row.touch rt finding now).resolvedAt = none ∧
    ((row.touch rt finding now).disposition ≠ .unreviewed ↔ row.disposition ≠ .unreviewed ∧
      evaluateDispositionRetention rt row.toObservation none finding.toObservation row.disposition =
        .keepDisposition) := by
  unfold Row.touch
  dsimp only
  rw [hopen]
  split
  · rename_i hkeep
    exact ⟨rfl, rfl, by simp [hkeep]⟩
  · rename_i reason hreset
    split_ifs with hun
    · exact ⟨rfl, rfl, by simp [hun]⟩
    · exact ⟨rfl, rfl, by simp [hreset]⟩

/-- A finding as long as it is silenced: open, and never worse than what was decided about. -/
def Tame (decided : Observation) (row : Row) : Prop :=
  row.disposition ≠ .unreviewed → row.resolvedAt = none ∧ ¬ Worse decided row.toObservation

theorem touch_unreviewed (h : row.disposition = .unreviewed) (now : Instant) :
    (row.touch rt finding now).disposition = .unreviewed := by
  unfold Row.touch
  dsimp only
  split
  · exact h
  · rw [if_pos h]
    exact h

/-- One sweep treats the decision as it should exactly when the stored row is comparable. -/
theorem speaksUp_iff (htame : Tame decided row) (now : Instant) :
    SpeaksUp decided row finding (row.touch rt finding now) ↔
      Comparable rt decided row finding (row.touch rt finding now) := by
  unfold SpeaksUp Comparable
  by_cases hdisp : row.disposition = .unreviewed
  · simp [hdisp, touch_unreviewed hdisp]
  · obtain ⟨hopen, hnot⟩ := htame hdisp
    obtain ⟨-, -, hkept⟩ := touch_spec rt finding hopen now
    rw [← reset_of_worse_iff hdisp hnot, ← keep_of_eq_iff hdisp hnot]
    simp only [ne_eq, hdisp, not_false_eq_true, true_and, true_implies] at hkept ⊢
    rw [← hkept, not_not]

theorem Tame.touch (htame : Tame decided row) {now : Instant}
    (h : SpeaksUp decided row finding (row.touch rt finding now)) :
    Tame decided (row.touch rt finding now) := by
  intro hdisp
  have hbefore : row.disposition ≠ .unreviewed := fun heq => hdisp (touch_unreviewed heq now)
  obtain ⟨hobserved, hopen, -⟩ := touch_spec rt finding (htame hbefore).1 now
  refine ⟨hopen, fun hworse => hdisp (h.1 ?_)⟩
  rwa [hobserved] at hworse

theorem throughout_cons {P : Row → Finding → Row → Prop} {sweeps : List Sweep}
    (hrow : rows.find code = some row) (hfinding : sweep.findings.find code = some finding) :
    Throughout rt code P rows (sweep :: sweeps) ↔ P row finding (row.touch rt finding sweep.now) ∧
      Throughout rt code P (reconcileFindings rt rows sweep) sweeps := by
  have hnext := find_reconcileFindings rt hrow hfinding
  refine and_congr_left fun _ => ⟨fun h => h _ _ _ hrow hfinding hnext, ?_⟩
  intro h row₁ finding₁ row' hrow₁ hfinding₁ hrow'
  cases hrow.symm.trans hrow₁
  cases hfinding.symm.trans hfinding₁
  cases hnext.symm.trans hrow'
  exact h

theorem throughout_iff {sweeps : List Sweep} (hrow : rows.find code = some row)
    (htame : Tame decided row) (hsweeps : ∀ sweep ∈ sweeps, (sweep.findings.find code).isSome) :
    Throughout rt code (SpeaksUp decided) rows sweeps ↔
      Throughout rt code (Comparable rt decided) rows sweeps := by
  induction sweeps generalizing rows row with
  | nil => exact Iff.rfl
  | cons sweep sweeps ih =>
    obtain ⟨hsweep, hrest⟩ := List.forall_mem_cons.1 hsweeps
    obtain ⟨finding, hfinding⟩ := Option.isSome_iff_exists.1 hsweep
    rw [throughout_cons hrow hfinding, throughout_cons hrow hfinding, ← speaksUp_iff htame]
    exact and_congr_right fun h =>
      ih (find_reconcileFindings rt hrow hfinding) (htame.touch h) hrest

/-! ### After a decision -/

theorem find_apply {d : Decision} {now : Instant} {rows' : Rows} {result : DispositionResult}
    (h : apply rows d now = .ok (rows', result)) (hrow : rows.find code = some row)
    (hactionable : isActionable d row = true) :
    ∃ expiry, rows'.find code = some (row.decide d expiry now) := by
  unfold apply at h
  split_ifs at h
  cases hexpiry : d.expiry now with
  | error e =>
    rw [hexpiry] at h
    cases h
  | ok expiry =>
    rw [hexpiry] at h
    cases h
    exact ⟨expiry, by rw [Table.find_update, hrow, Option.map_some, if_pos hactionable]⟩

/-- So many episodes are missing. -/
def episodesMissing (severity : Severity) (missing : ℕ) : Observation :=
  ⟨severity, [("missing", .number (.fin missing))]⟩

def gap : Row where
  toObservation := episodesMissing .warning 3
  id := "f1"
  code := "EPISODES_MISSING"
  firstObservedAt := 0
  lastObservedAt := 0
  resolvedAt := none
  disposition := .unreviewed
  snoozedUntil := none
  dispositionAt := none
  dispositionBy := none
  dispositionReason := none
  escalationReason := none
  attentionPriority := 20

def gaps : Rows := ⟨[gap], List.nodup_singleton gap.code⟩

def dismissal : Decision := ⟨.dismiss, ["f1"], "u1", none, none⟩

def observing (o : Observation) : Sweep where
  findings := ⟨[⟨o, gap.code⟩], List.nodup_singleton gap.code⟩
  now := 1
  newId code := code

/-- The findings after the gap was dismissed. -/
def dismissed : Rows := gaps.update fun row => row.decide dismissal none 0

theorem apply_dismissal : ∃ result, apply gaps dismissal 0 = .ok (dismissed, result) := ⟨_, rfl⟩

theorem find_dismissed : dismissed.find gap.code = some (gap.decide dismissal none 0) := rfl

theorem find_observing (o : Observation) :
    (observing o).findings.find gap.code = some ⟨o, gap.code⟩ := rfl

end UltraTorrent.MediaIntelligence.SilencedFindings
