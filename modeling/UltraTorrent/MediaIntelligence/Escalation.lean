import UltraTorrent.Library.EcmaScript

/-! Whether a person's disposition of a finding survives a change in the finding, and how the rule
compares with what the person decided about. -/
namespace UltraTorrent.MediaIntelligence.Escalation

open Library.EcmaScript

inductive Severity where
  | info
  | opportunity
  | warning
  | error
  | critical
  deriving DecidableEq

/-- Worst last. -/
def Severity.rank : Severity → ℕ
  | .info => 0
  | .opportunity => 1
  | .warning => 2
  | .error => 3
  | .critical => 4

theorem Severity.rank_injective : Function.Injective Severity.rank := by
  intro a b h
  cases a <;> cases b <;> first | rfl | cases h

inductive Disposition where
  | unreviewed
  | acknowledged
  | snoozed
  | dismissed
  deriving DecidableEq

abbrev Evidence := List (String × Value)

/-- What a sweep sees of a finding. -/
structure Observation where
  severity : Severity
  evidence : Evidence

inductive EscalationReason where
  | severityIncreased
  | affectedCountIncreased
  | reopenedAfterResolution
  | evidenceChanged
  deriving DecidableEq

inductive EscalationOutcome where
  | keepDisposition
  | resetToUnreviewed (reason : EscalationReason)
  deriving DecidableEq

def affectedCountKeys : List String :=
  ["missing", "missingCount", "affectedCount", "failed", "quarantined", "erroredCount",
   "unprobedFiles", "duplicateCount"]

def affectedCount (evidence : Evidence) : Option ℚ :=
  affectedCountKeys.foldl (fun max key =>
    match evidence.lookup key with
    | some (.number (.fin v)) => some (max.elim v fun m => m ⊔ v)
    | _ => max) none

def volatileKeys : List String :=
  ["observedAt", "lastObservedAt", "calculatedAt", "assembledAt", "measuredFileCount", "totalRungs"]

variable (rt : Runtime)

def evidenceFingerprint (evidence : Evidence) : String :=
  let entries := (evidence.filter fun (k, _) => !volatileKeys.contains k).mergeSort
    fun a b => rt.localeCompare a.1 b.1 ≤ 0
  "|".intercalate <| entries.map fun (k, v) =>
    k ++ "=" ++ rt.jsonStringify (if v.isNullish then .null else v)

/-- A doubling, and at least two more. -/
def grew (prev curr : ℚ) : Prop := prev * 2 ≤ curr ∧ 2 ≤ curr - prev

instance (prev curr : ℚ) : Decidable (grew prev curr) :=
  inferInstanceAs (Decidable (prev * 2 ≤ curr ∧ 2 ≤ curr - prev))

/-- The last resort. -/
def compareFingerprints (previous current : Evidence) : EscalationOutcome :=
  if evidenceFingerprint rt previous ≠ evidenceFingerprint rt current
  then .resetToUnreviewed .evidenceChanged
  else .keepDisposition

/-- `previous` is the stored row. -/
def evaluateDispositionRetention (previous : Observation) (resolvedAt : Option Instant)
    (current : Observation) (disposition : Disposition) : EscalationOutcome :=
  if disposition = .unreviewed then .keepDisposition
  else if resolvedAt.isSome then .resetToUnreviewed .reopenedAfterResolution
  else if previous.severity.rank < current.severity.rank then .resetToUnreviewed .severityIncreased
  else if current.severity.rank < previous.severity.rank then .keepDisposition
  else match affectedCount previous.evidence, affectedCount current.evidence with
    | some prevCount, some currCount =>
      if currCount = prevCount then compareFingerprints rt previous.evidence current.evidence
      else if currCount < prevCount then .keepDisposition
      else if grew prevCount currCount then .resetToUnreviewed .affectedCountIncreased
      else .keepDisposition
    | _, _ => compareFingerprints rt previous.evidence current.evidence

/-! ### Against the decision -/

/-- Worse than what was decided about: a higher severity, or the same one and a count that grew. -/
def Worse (decided o : Observation) : Prop :=
  decided.severity.rank < o.severity.rank ∨ o.severity = decided.severity ∧
    ∃ c₀ c, affectedCount decided.evidence = some c₀ ∧ affectedCount o.evidence = some c ∧
      2 * c₀ ≤ c ∧ c₀ + 2 ≤ c

/-- A count that has grown since the decision has grown since the stored row too, or the row's count
is no higher than the one decided about. -/
def GrowthShows (decided stored o : Observation) : Prop :=
  o.severity = decided.severity → stored.severity = decided.severity →
    ∀ c₀ c, affectedCount decided.evidence = some c₀ → affectedCount o.evidence = some c →
      grew c₀ c → match affectedCount stored.evidence with
        | some count => count ≤ c₀ ∨ grew count c
        | none => evidenceFingerprint rt stored.evidence ≠ evidenceFingerprint rt o.evidence

/-- When a sweep observes what was decided about, the stored row is no milder: it has the same
severity, a count from which that one has not grown, and with the same count the same fingerprint. -/
def RelapseHides (decided stored o : Observation) : Prop :=
  o = decided → stored.severity = decided.severity ∧
    match affectedCount stored.evidence, affectedCount decided.evidence with
    | some count, some c₀ => ¬ grew count c₀ ∧ (count = c₀ →
        evidenceFingerprint rt stored.evidence = evidenceFingerprint rt decided.evidence)
    | _, _ => evidenceFingerprint rt stored.evidence = evidenceFingerprint rt decided.evidence

variable {rt} {decided stored o : Observation} {disposition : Disposition}

theorem grew_iff {c₀ c : ℚ} : grew c₀ c ↔ 2 * c₀ ≤ c ∧ c₀ + 2 ≤ c := by
  have hratio : c₀ * 2 ≤ c ↔ 2 * c₀ ≤ c := by rw [mul_comm]
  have hfloor : 2 ≤ c - c₀ ↔ c₀ + 2 ≤ c := by rw [le_sub_iff_add_le']
  rw [grew, hratio, hfloor]

theorem lt_of_grew {prev curr : ℚ} (h : grew prev curr) : prev < curr := by
  have := h.2
  linarith

theorem not_grew_of_eq {prev curr : ℚ} (h : some prev = some curr) : ¬ grew prev curr :=
  fun hgrew => (lt_of_grew hgrew).ne (Option.some.inj h)

theorem grew_of_le {count c₀ c : ℚ} (hle : count ≤ c₀) (h : grew c₀ c) : grew count c := by
  obtain ⟨hratio, hfloor⟩ := h
  exact ⟨by linarith, by linarith⟩

theorem worse_iff : Worse decided o ↔ decided.severity.rank < o.severity.rank ∨
    o.severity = decided.severity ∧ ∃ c₀ c, affectedCount decided.evidence = some c₀ ∧
      affectedCount o.evidence = some c ∧ grew c₀ c := by
  simp only [Worse, grew_iff]

theorem rank_le_of_not_worse (h : ¬ Worse decided stored) :
    stored.severity.rank ≤ decided.severity.rank := not_lt.1 fun hlt => h (.inl hlt)

theorem not_worse_self (o : Observation) : ¬ Worse o o := by
  rw [worse_iff]
  rintro (hlt | ⟨-, c₀, c, hc₀, hc, hgrew⟩)
  · exact lt_irrefl _ hlt
  · cases hc₀.symm.trans hc
    exact lt_irrefl _ (lt_of_grew hgrew)

theorem compareFingerprints_eq_keep {previous current : Evidence} :
    compareFingerprints rt previous current = .keepDisposition ↔
      evidenceFingerprint rt previous = evidenceFingerprint rt current := by
  unfold compareFingerprints
  split_ifs with h
  · exact iff_of_false (fun heq => by cases heq) h
  · exact iff_of_true rfl (not_not.1 h)

/-- What keeps the disposition of an open finding. -/
theorem keep_iff (h : disposition ≠ .unreviewed) :
    evaluateDispositionRetention rt stored none o disposition = .keepDisposition ↔
      o.severity.rank < stored.severity.rank ∨ o.severity = stored.severity ∧
        match affectedCount stored.evidence, affectedCount o.evidence with
        | some prev, some curr => ¬ grew prev curr ∧ (prev = curr →
            evidenceFingerprint rt stored.evidence = evidenceFingerprint rt o.evidence)
        | _, _ => evidenceFingerprint rt stored.evidence = evidenceFingerprint rt o.evidence := by
  unfold evaluateDispositionRetention
  rw [if_neg h, if_neg (by simp)]
  rcases lt_trichotomy stored.severity.rank o.severity.rank with hlt | heq | hgt
  · rw [if_pos hlt]
    have hne : o.severity ≠ stored.severity := fun hsev => by rw [hsev] at hlt; exact hlt.ne rfl
    simp [hne, hlt.le]
  · rw [if_neg heq.not_lt, if_neg heq.not_gt]
    have hsev : o.severity = stored.severity := (Severity.rank_injective heq).symm
    simp only [hsev, lt_irrefl, false_or, true_and]
    split
    · rename_i prev curr _ _
      split_ifs with hcurr hfewer hgrew
      · rw [compareFingerprints_eq_keep]
        exact ⟨fun hfp => ⟨fun hg => (lt_of_grew hg).ne hcurr.symm, fun _ => hfp⟩,
          fun hboth => hboth.2 hcurr.symm⟩
      · exact iff_of_true rfl ⟨fun hg => (lt_of_grew hg).not_gt hfewer,
          fun heq' => absurd heq'.symm hcurr⟩
      · exact iff_of_false (fun heq' => by cases heq') fun hboth => hboth.1 hgrew
      · exact iff_of_true rfl ⟨hgrew, fun heq' => absurd heq'.symm hcurr⟩
    · exact compareFingerprints_eq_keep
  · rw [if_neg hgt.not_gt, if_pos hgt]
    exact iff_of_true rfl (.inl hgt)

theorem reset_of_worse_iff (h : disposition ≠ .unreviewed) (htame : ¬ Worse decided stored) :
    (Worse decided o → evaluateDispositionRetention rt stored none o disposition ≠ .keepDisposition) ↔
      GrowthShows rt decided stored o := by
  rw [Ne, keep_iff h]
  constructor
  · intro hreset hsev hstored c₀ c hc₀ hc hgrew
    have hkept := hreset (worse_iff.2 (.inr ⟨hsev, c₀, c, hc₀, hc, hgrew⟩))
    rw [not_or, not_and] at hkept
    have hrule := hkept.2 (hsev.trans hstored.symm)
    rw [hc] at hrule
    cases hcount : affectedCount stored.evidence with
    | none => rwa [hcount] at hrule
    | some count =>
      rw [hcount] at hrule
      by_contra hnot
      push Not at hnot
      refine hrule ⟨hnot.2, fun heq => absurd (worse_iff.2 (.inr ⟨hstored, c₀, c, hc₀, ?_, hgrew⟩)) htame⟩
      rw [hcount, heq]
  · rintro hshows hworse (hlower | ⟨hsame, hrule⟩)
    · rcases worse_iff.1 hworse with hhigher | ⟨hsev, -⟩
      · exact absurd (rank_le_of_not_worse htame) (hhigher.trans hlower).not_ge
      · rw [hsev] at hlower
        exact absurd (rank_le_of_not_worse htame) hlower.not_ge
    · rcases worse_iff.1 hworse with hhigher | ⟨hsev, c₀, c, hc₀, hc, hgrew⟩
      · rw [hsame] at hhigher
        exact absurd (rank_le_of_not_worse htame) hhigher.not_ge
      · have hgrowth := hshows hsev (hsame.symm.trans hsev) c₀ c hc₀ hc hgrew
        rw [hc] at hrule
        cases hcount : affectedCount stored.evidence with
        | none =>
          rw [hcount] at hrule hgrowth
          exact hgrowth hrule
        | some count =>
          rw [hcount] at hrule hgrowth
          rcases hgrowth with hle | hg
          · exact hrule.1 (grew_of_le hle hgrew)
          · exact hrule.1 hg

theorem growthShows_of_le {count : ℚ} (hcount : affectedCount stored.evidence = some count)
    (hle : ∀ c₀, affectedCount decided.evidence = some c₀ → count ≤ c₀) :
    GrowthShows rt decided stored o := by
  intro _ _ c₀ _ hc₀ _ _
  rw [hcount]
  exact .inl (hle c₀ hc₀)

theorem keep_of_eq_iff (h : disposition ≠ .unreviewed) (htame : ¬ Worse decided stored) :
    (o = decided → evaluateDispositionRetention rt stored none o disposition = .keepDisposition) ↔
      RelapseHides rt decided stored o := by
  refine forall_congr' fun heq => ?_
  rw [keep_iff h, heq, @eq_comm _ stored.severity, or_iff_right (rank_le_of_not_worse htame).not_gt]

end UltraTorrent.MediaIntelligence.Escalation
