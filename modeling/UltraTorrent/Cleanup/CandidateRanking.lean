import Mathlib.Algebra.Order.BigOperators.Group.List
import Mathlib.Data.List.Sort
import Mathlib.Tactic.Positivity
import UltraTorrent.Library.EcmaScript

/-! Candidate ranking: which files go first when not all can. A fixed set of weighted factors each
contribute points, and the score is their sum. -/
namespace UltraTorrent.Cleanup.CandidateRanking

open Library.EcmaScript

structure RankingFacts where
  reclaimableBytes : ℚ := 0
  /-- Days since the last play; `none` when there is none on record. -/
  daysSinceLastPlay : Option ℚ := none
  completedPlayCount : ℚ := 0
  /-- How far below the library's best copy of the title. -/
  qualityTiersBelowBest : Option ℚ := none
  /-- How sure it is that a verified replacement survives. -/
  replacementConfidence : Option ℚ := none
  daysSinceAdded : Option ℚ := none
  rating : Option ℚ := none
  isDuplicate : Bool := false

inductive Factor where
  | replacement
  | duplicate
  | neverPlayed
  | staleness
  | quality
  | reclaim
  | lowUse
  | age
  | lowRating
  deriving DecidableEq

namespace Factor

/-- The heaviest first. -/
def all : List Factor :=
  [replacement, duplicate, neverPlayed, staleness, quality, reclaim, lowUse, age, lowRating]

/-- Spaced so that a higher factor cannot be outvoted by the sum of lower ones, says the source. -/
def weight : Factor → ℤ
  | replacement => 1000
  | duplicate => 500
  | neverPlayed => 300
  | staleness => 200
  | quality => 150
  | reclaim => 100
  | lowUse => 50
  | age => 25
  | lowRating => 10

end Factor

structure RankingContribution where
  factor : Factor
  points : ℤ
  /-- Rendered for the operator. -/
  detail : String

structure RankingResult where
  score : ℤ
  contributions : List RankingContribution

def clamp01 (n : ℚ) : ℚ := max 0 (min 1 n)

def gib (facts : RankingFacts) : ℚ := facts.reclaimableBytes / 1024 ^ 3

/-- The part of a factor's weight the facts earn. -/
def share (facts : RankingFacts) : Factor → ℚ
  | .replacement =>
    match facts.replacementConfidence with
    | some confidence => if 0 < confidence then clamp01 confidence else 0
    | none => 0
  | .duplicate => if facts.isDuplicate then 1 else 0
  | .neverPlayed => if facts.completedPlayCount = 0 then 1 else 0
  -- Saturates at two years.
  | .staleness =>
    match facts.daysSinceLastPlay with
    | some days => clamp01 (days / 730)
    | none => if facts.completedPlayCount = 0 then 1 else 0
  | .quality =>
    match facts.qualityTiersBelowBest with
    | some tiers => if 0 < tiers then clamp01 (tiers / 3) else 0
    | none => 0
  -- Saturates at 20 GiB.
  | .reclaim => clamp01 (gib facts / 20)
  | .lowUse => if 0 < facts.completedPlayCount ∧ facts.completedPlayCount < 3 then 1 else 0
  | .age =>
    match facts.daysSinceAdded with
    | some days => clamp01 (days / 1095)
    | none => 0
  | .lowRating =>
    match facts.rating with
    | some rating => if rating < 5 then clamp01 ((5 - rating) / 5) else 0
    | none => 0

/-- `n.toFixed(1)`. -/
def toFixed1 (n : ℚ) : String :=
  let tenths := ⌊|n| * 10 + 1 / 2⌋
  (if n < 0 then "-" else "") ++ (tenths / 10).repr ++ "." ++ (tenths % 10).repr

/-- A number as it stands in a text, `none` where it is not there to be shown. -/
def shown (rt : Runtime) (n : Option ℚ) : String := (n.map fun q => rt.stringOfNumber (.fin q)).getD ""

def detail (rt : Runtime) (facts : RankingFacts) : Factor → String
  | .replacement =>
    "verified replacement (confidence " ++
      shown rt (facts.replacementConfidence.map fun c => (round (c * 100) : ℤ)) ++ "%)"
  | .duplicate => "another copy of this title exists"
  | .neverPlayed => "never played to completion"
  | .staleness =>
    if facts.daysSinceLastPlay.isSome then
      "last played " ++ shown rt facts.daysSinceLastPlay ++ " day(s) ago"
    else "no play on record"
  | .quality => shown rt facts.qualityTiersBelowBest ++ " tier(s) below the best copy held"
  | .reclaim => toFixed1 (gib facts) ++ " GiB reclaimable"
  | .lowUse => "only " ++ shown rt (some facts.completedPlayCount) ++ " completed play(s)"
  | .age => "added " ++ shown rt facts.daysSinceAdded ++ " day(s) ago"
  | .lowRating => "rated " ++ shown rt facts.rating

/-- A factor that earns nothing is not listed. -/
def contribution (rt : Runtime) (facts : RankingFacts) (f : Factor) : Option RankingContribution :=
  let points := f.weight * share facts f
  if 0 < points then some ⟨f, round points, detail rt facts f⟩ else none

def rankCandidate (rt : Runtime) (facts : RankingFacts) : RankingResult :=
  let contributions := Factor.all.filterMap (contribution rt facts)
  { score := (contributions.map (·.points)).sum
    contributions := contributions.insertionSort fun a b => b.points ≤ a.points }

/-- Highest score first; ties broken by id. -/
def compareRanked (rt : Runtime) (a b : ℤ × String) : ℤ :=
  if b.1 - a.1 ≠ 0 then b.1 - a.1 else rt.localeCompare a.2 b.2

/-! ### The points of a factor -/

/-- What a candidate receives on a factor. -/
def pointsOn (result : RankingResult) (f : Factor) : ℤ :=
  ((result.contributions.filter (·.factor = f)).map (·.points)).sum

/-- The factors above one, and those below it. -/
def above (k : Factor) : List Factor := Factor.all.takeWhile (· ≠ k)

def below (k : Factor) : List Factor := (Factor.all.dropWhile (· ≠ k)).tail

def lowerWeights (k : Factor) : ℤ := ((below k).map Factor.weight).sum

/-- As many points on everything above a factor, and all of its points against none. -/
def Leads (k : Factor) (a b : RankingResult) : Prop :=
  (∀ f ∈ above k, pointsOn b f ≤ pointsOn a f) ∧ pointsOn a k = k.weight ∧ pointsOn b k = 0

variable {rt : Runtime} {facts : RankingFacts}

theorem clamp01_nonneg (n : ℚ) : 0 ≤ clamp01 n := le_max_left _ _

theorem clamp01_le_one (n : ℚ) : clamp01 n ≤ 1 := max_le zero_le_one (min_le_left _ _)

theorem share_nonneg (facts : RankingFacts) (f : Factor) : 0 ≤ share facts f := by
  cases f <;> simp only [share] <;> repeat' split
  all_goals first | exact clamp01_nonneg _ | norm_num

theorem share_le_one (facts : RankingFacts) (f : Factor) : share facts f ≤ 1 := by
  cases f <;> simp only [share] <;> repeat' split
  all_goals first | exact clamp01_le_one _ | norm_num

theorem weight_pos (f : Factor) : 0 < f.weight := by
  cases f <;> decide

/-- The points a factor is listed with, or none. -/
def earned (facts : RankingFacts) (f : Factor) : ℤ := round ((f.weight : ℚ) * share facts f)

theorem earned_nonneg (facts : RankingFacts) (f : Factor) : 0 ≤ earned facts f := by
  have hweight : (0 : ℚ) < f.weight := Int.cast_pos.2 (weight_pos f)
  have hle : round (0 : ℚ) ≤ earned facts f :=
    round_mono (mul_nonneg hweight.le (share_nonneg facts f))
  rwa [round_zero] at hle

theorem earned_le (facts : RankingFacts) (f : Factor) : earned facts f ≤ f.weight := by
  have hweight : (0 : ℚ) < f.weight := Int.cast_pos.2 (weight_pos f)
  have hle : earned facts f ≤ round (f.weight : ℚ) :=
    round_mono (mul_le_of_le_one_right hweight.le (share_le_one facts f))
  rwa [round_intCast] at hle

theorem points_contribution (f : Factor) :
    ((contribution rt facts f).map (·.points)).getD 0 = earned facts f := by
  unfold contribution
  dsimp only
  split_ifs with hpos
  · rfl
  · have hweight : (0 : ℚ) < f.weight := Int.cast_pos.2 (weight_pos f)
    have hzero : (f.weight : ℚ) * share facts f = 0 :=
      le_antisymm (not_lt.1 hpos) (mul_nonneg hweight.le (share_nonneg facts f))
    rw [earned, hzero, round_zero]
    rfl

theorem factor_of_contribution {f : Factor} {c : RankingContribution}
    (h : contribution rt facts f = some c) : c.factor = f := by
  unfold contribution at h
  dsimp only at h
  split_ifs at h
  cases h
  rfl

theorem sum_contributions (fs : List Factor) :
    ((fs.filterMap (contribution rt facts)).map (·.points)).sum = (fs.map (earned facts)).sum := by
  induction fs with
  | nil => rfl
  | cons f fs ih =>
    have hpoints : ((contribution rt facts f).map (·.points)).getD 0 = earned facts f :=
      points_contribution f
    cases hc : contribution rt facts f with
    | none =>
      rw [hc] at hpoints
      rw [List.filterMap_cons_none hc, ih, List.map_cons, List.sum_cons, ← hpoints]
      simp
    | some c =>
      rw [hc] at hpoints
      rw [List.filterMap_cons_some hc, List.map_cons, List.sum_cons, ih, List.map_cons, List.sum_cons,
        ← hpoints]
      rfl

theorem score_eq (rt : Runtime) (facts : RankingFacts) :
    (rankCandidate rt facts).score = (Factor.all.map (earned facts)).sum :=
  sum_contributions _

theorem filter_contributions (fs : List Factor) (f : Factor) :
    (fs.filterMap (contribution rt facts)).filter (·.factor = f) =
      (fs.filter (· = f)).filterMap (contribution rt facts) := by
  induction fs with
  | nil => rfl
  | cons g fs ih =>
    cases hc : contribution rt facts g with
    | none =>
      rw [List.filterMap_cons_none hc, ih, List.filter_cons]
      split_ifs
      · rw [List.filterMap_cons_none hc]
      · rfl
    | some c =>
      have hfactor := factor_of_contribution hc
      rw [List.filterMap_cons_some hc, List.filter_cons, List.filter_cons, hfactor, ih]
      split_ifs
      · rw [List.filterMap_cons_some hc]
      · rfl

theorem pointsOn_rankCandidate (rt : Runtime) (facts : RankingFacts) (f : Factor) :
    pointsOn (rankCandidate rt facts) f = earned facts f := by
  have hperm := (List.perm_insertionSort (fun a b : RankingContribution => b.points ≤ a.points)
    (Factor.all.filterMap (contribution rt facts))).filter (·.factor = f)
  rw [pointsOn, rankCandidate, (hperm.map _).sum_eq, filter_contributions, sum_contributions]
  cases f <;> simp [Factor.all]

/-! ### Which factors can be outvoted -/

theorem all_eq (k : Factor) : Factor.all = above k ++ k :: below k := by
  cases k <;> rfl

theorem score_lt_of_leads {a b : RankingFacts} {k : Factor} (hweight : lowerWeights k < k.weight)
    (h : Leads k (rankCandidate rt a) (rankCandidate rt b)) :
    (rankCandidate rt b).score < (rankCandidate rt a).score := by
  obtain ⟨habove, ha, hb⟩ := h
  simp only [pointsOn_rankCandidate] at habove ha hb
  have hhigher : ((above k).map (earned b)).sum ≤ ((above k).map (earned a)).sum :=
    List.sum_le_sum habove
  have hlower : ((below k).map (earned b)).sum ≤ lowerWeights k :=
    List.sum_le_sum fun f _ => earned_le b f
  have hrest : 0 ≤ ((below k).map (earned a)).sum :=
    List.sum_nonneg (by simpa using fun f _ => earned_nonneg a f)
  rw [score_eq, score_eq, all_eq k]
  simp only [List.map_append, List.sum_append, List.map_cons, List.sum_cons, ha, hb]
  omega

/-- A candidate with nothing but one factor in full. -/
def onlyOn : Factor → RankingFacts
  | .replacement => { replacementConfidence := some 1, completedPlayCount := 3 }
  | .duplicate => { isDuplicate := true, completedPlayCount := 3 }
  | .neverPlayed => { daysSinceLastPlay := some 0 }
  | .staleness => { daysSinceLastPlay := some 730, completedPlayCount := 3 }
  | .quality => { qualityTiersBelowBest := some 3, completedPlayCount := 3 }
  | _ => { completedPlayCount := 3 }

/-- A candidate with everything below one factor in full. -/
def allBelow : Factor → RankingFacts
  | .replacement =>
    { isDuplicate := true, qualityTiersBelowBest := some 3, reclaimableBytes := 20 * 1024 ^ 3
      daysSinceAdded := some 1095, rating := some 0 }
  | .duplicate =>
    { qualityTiersBelowBest := some 3, reclaimableBytes := 20 * 1024 ^ 3
      daysSinceAdded := some 1095, rating := some 0 }
  | .neverPlayed =>
    { completedPlayCount := 1, daysSinceLastPlay := some 730, qualityTiersBelowBest := some 3
      reclaimableBytes := 20 * 1024 ^ 3, daysSinceAdded := some 1095, rating := some 0 }
  | .staleness =>
    { completedPlayCount := 1, qualityTiersBelowBest := some 3, reclaimableBytes := 20 * 1024 ^ 3
      daysSinceAdded := some 1095, rating := some 0 }
  | _ =>
    { completedPlayCount := 1, reclaimableBytes := 20 * 1024 ^ 3, daysSinceAdded := some 1095
      rating := some 0 }

theorem outvoted (rt : Runtime) {k : Factor} (hweight : k.weight ≤ lowerWeights k) :
    Leads k (rankCandidate rt (onlyOn k)) (rankCandidate rt (allBelow k)) ∧
      (rankCandidate rt (onlyOn k)).score < (rankCandidate rt (allBelow k)).score := by
  simp only [Leads, pointsOn_rankCandidate, score_eq]
  cases k with
  | replacement | duplicate | neverPlayed | staleness | quality => decide +kernel
  | reclaim | lowUse | age | lowRating => exact absurd hweight (by decide)

/-- Full points on a factor beat all that lies below it exactly for the factors that weigh more than
the sum of the lower ones. -/
theorem lexicographic_iff (rt : Runtime) (k : Factor) :
    (∀ a b, Leads k (rankCandidate rt a) (rankCandidate rt b) →
      (rankCandidate rt b).score < (rankCandidate rt a).score) ↔ lowerWeights k < k.weight := by
  constructor
  · intro h
    by_contra hweight
    obtain ⟨hleads, hscore⟩ := outvoted rt (not_lt.1 hweight)
    exact absurd (h _ _ hleads) hscore.not_gt
  · exact fun hweight a b h => score_lt_of_leads hweight h

/-- A sure replacement is outvoted by the factors below it together. -/
theorem sureReplacement_outvoted :
    ¬ (Leads .replacement (rankCandidate .ascii (onlyOn .replacement))
        (rankCandidate .ascii (allBelow .replacement)) →
      (rankCandidate .ascii (allBelow .replacement)).score <
        (rankCandidate .ascii (onlyOn .replacement)).score) := by
  intro h
  obtain ⟨hleads, hscore⟩ := outvoted .ascii (show Factor.replacement.weight ≤ _ by decide)
  exact absurd (h hleads) hscore.not_gt

end UltraTorrent.Cleanup.CandidateRanking
