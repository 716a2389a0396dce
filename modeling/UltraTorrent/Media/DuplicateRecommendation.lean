import Mathlib.Algebra.Order.Ring.Rat
import Mathlib.Data.List.Lex
import Mathlib.Data.Prod.Lex
import UltraTorrent.Library.Collation
import UltraTorrent.Library.EcmaScript
import UltraTorrent.Library.RegExp

/-! Which of several copies to keep. A copy scores for each dimension in which no copy at all is above
it, so that a copy already beaten can take a dimension away from those that are left. -/
namespace UltraTorrent.Media.DuplicateRecommendation

open Library Library.EcmaScript Library.Collation Library.RegExp

structure RecommendationFile where
  size : ℚ
  /-- Measured from the container. -/
  height : Option ℚ
  bitrateKbps : Option ℚ
  durationSec : Option ℚ
  audioChannels : Option ℚ
  /-- Parsed from the filename. -/
  resolution : Option String
  deriving DecidableEq

structure RecommendationCandidate where
  id : String
  year : Option ℤ
  season : Option ℤ
  episode : Option ℤ
  path : String
  /-- In milliseconds. -/
  modifiedAt : Option ℤ
  /-- Providers and the ids they have for it. -/
  externalIds : List (String × String)
  file : Option RecommendationFile
  deriving DecidableEq

structure CandidateVerdict where
  id : String
  rank : ℕ
  score : ℤ
  reasons : List String
  deriving DecidableEq

structure Recommendation where
  /-- None when the group must not be resolved without a look at it. -/
  keepId : Option String
  confidence : ℤ
  requiresReview : Bool
  warnings : List String
  verdicts : List CandidateVerdict
  potentialSavingsBytes : ℚ
  deriving DecidableEq

def editionMarkers : List String :=
  ["directors cut", "director cut", "theatrical", "extended", "unrated", "uncut", "remastered", "special edition",
   "final cut", "ultimate edition", "imax", "3d"]

def runtimeTolerance : ℚ := 1 / 20

/-- `p.toLowerCase().replace(/[._-]+/g, ' ')`. -/
def normalizePath (rt : Runtime) (p : String) : List Char :=
  replaceAll (plus (oneOf "._-")) (fun _ => [' ']) (rt.toLowerCase p).toList

def editionOf (rt : Runtime) (path : String) : Option String :=
  editionMarkers.find? fun m => (normalizePath rt path).tails.any m.toList.isPrefixOf

def measuredHeight (file : Option RecommendationFile) : Option ℚ :=
  (file.bind (·.height)).filter (0 < ·)

/-- The height the filename claims: `/(\d{3,4})[pi]/i`. -/
def parsedHeight (file : Option RecommendationFile) : Option ℚ :=
  (file.bind (·.resolution)).bind fun resolution =>
    (exec (seq [group (between 3 4 digit), either [word "p", word "i"]]) resolution.toList).bind fun found =>
      found.groups.head?.map fun digits => Nat.ofDigitChars 10 digits 0

/-- `new Set(values).size > 1`. -/
def several {α : Type} [DecidableEq α] (values : List α) : Bool := 1 < values.eraseDups.length

section

variable (candidates : List RecommendationCandidate)

/-- The heights to rank by, under their ids, and whether only some were measured. An entry of a map
takes the place of one before it. -/
def heightsFor : (String → Option ℚ) × Bool :=
  let measured := candidates.map fun c => measuredHeight c.file
  let anyMeasured := measured.any (·.isSome)
  let allMeasured := measured.all (·.isSome)
  if anyMeasured && !allMeasured then (fun _ => none, true)
  else
    let source := if allMeasured then measuredHeight else parsedHeight
    (fun id => (candidates.filter (·.id = id)).getLast?.bind fun c => source c.file, false)

/-! ### What a human must look at -/

def conflictingExternalIds : Bool :=
  let externalIds := candidates.flatMap (·.externalIds)
  externalIds.any fun e => several ((externalIds.filter (·.1 = e.1)).map (·.2))

def runtimeMismatch : Bool :=
  let runtimes := candidates.filterMap fun c => (c.file.bind (·.durationSec)).filter (0 < ·)
  match runtimes.min?, runtimes.max? with
  | some min, some max => 1 < runtimes.length && runtimeTolerance < (max - min) / max
  | _, _ => false

def warningsOf (rt : Runtime) : List String :=
  (if several (candidates.filterMap (·.year)) then ["different_years"] else []) ++
  (if several (candidates.map fun c =>
      (c.season.map toString).getD "" ++ "-" ++ (c.episode.map toString).getD "") then
    ["different_episodes"] else []) ++
  (if several (candidates.map fun c => (editionOf rt c.path).getD "") then ["different_editions"] else []) ++
  (if conflictingExternalIds candidates then ["conflicting_external_ids"] else []) ++
  (if runtimeMismatch candidates then ["runtime_mismatch"] else []) ++
  (if (heightsFor candidates).2 then ["incomparable_quality_evidence"] else [])

/-! ### The ranking -/

/-- A value takes the place of one that is not above it. -/
def better (pick : RecommendationCandidate → Option ℚ) (acc : Option ℚ) (c : RecommendationCandidate) : Option ℚ :=
  match pick c, acc with
  | none, acc => acc
  | some v, none => some v
  | some v, some a => if a < v then some v else some a

/-- The highest of the values that are there. -/
def best (pick : RecommendationCandidate → Option ℚ) : Option ℚ := candidates.foldl (better pick) none

def bitrateOf (c : RecommendationCandidate) : Option ℚ := c.file.bind (·.bitrateKbps)

def channelsOf (c : RecommendationCandidate) : Option ℚ := c.file.bind (·.audioChannels)

def sizeOf (c : RecommendationCandidate) : Option ℚ := c.file.map (·.size)

def topHeight : Option ℚ := best candidates fun c => (heightsFor candidates).1 c.id

def isTop (value top : Option ℚ) : Bool := value.isSome && top.isSome && value = top

/-- Which of the four tops a candidate holds. -/
structure Held where
  height : Bool
  bitrate : Bool
  channels : Bool
  size : Bool
  deriving DecidableEq

def held (c : RecommendationCandidate) : Held where
  height := isTop ((heightsFor candidates).1 c.id) (topHeight candidates)
  bitrate := isTop (bitrateOf c) (best candidates bitrateOf)
  channels := isTop (channelsOf c) (best candidates channelsOf)
  size := isTop (some ((sizeOf c).getD 0)) (best candidates sizeOf)

def Held.score (h : Held) : ℤ :=
  (if h.height then 1000 else 0) + (if h.bitrate then 100 else 0) + (if h.channels then 10 else 0) +
    if h.size then 1 else 0

def notesOf (c : RecommendationCandidate) : List String :=
  (if (held candidates c).height then ["highest_resolution"]
   else if ((heightsFor candidates).1 c.id).isSome && (topHeight candidates).isSome then ["lower_resolution"]
   else ["resolution_unknown"]) ++
  (if (held candidates c).bitrate then ["highest_bitrate"] else []) ++
  (if (held candidates c).channels then ["most_audio_channels"] else []) ++
  (if (held candidates c).size then ["largest_file_tiebreak"] else [])

def reasons (id : String) : List String := (candidates.filter (·.id = id)).flatMap (notesOf candidates)

structure Scored where
  c : RecommendationCandidate
  score : ℤ

def Scored.key (s : Scored) : ℤ ×ₗ ℤ := toLex (-s.score, -s.c.modifiedAt.getD 0)

def Scored.id (s : Scored) : String := s.c.id

/-- The highest score first, then the latest, then by the id. -/
def scored (rt : Runtime) : List Scored :=
  ranked rt.localeCompare Scored.key Scored.id (candidates.map fun c => ⟨c, (held candidates c).score⟩)

def sizeOrZero (c : RecommendationCandidate) : ℚ := (sizeOf c).getD 0

/-- How much evidence separates the first from the second. -/
def confidenceOf (winner runnerUp : Scored) : ℤ :=
  let measured := (candidates.filter fun c => (measuredHeight c.file).isSome || (bitrateOf c).isSome).length
  if measured = candidates.length then if runnerUp.score < winner.score then 90 else 60
  else if 0 < measured then if runnerUp.score < winner.score then 70 else 40
  else 20

def recommend (rt : Runtime) : Recommendation :=
  match scored candidates rt with
  | winner :: runnerUp :: rest =>
    let warnings := warningsOf candidates rt
    let confidence := confidenceOf candidates winner runnerUp
    let requiresReview := !warnings.isEmpty || confidence < 50
    { keepId := if requiresReview then none else some winner.id
      confidence
      requiresReview
      warnings
      verdicts := (winner :: runnerUp :: rest).zipIdx.map fun s =>
        ⟨s.1.id, s.2 + 1, s.1.score, reasons candidates s.1.id⟩
      potentialSavingsBytes := max 0 ((candidates.map sizeOrZero).sum - sizeOrZero winner.c) }
  | _ =>
    -- fewer than two candidates
    { keepId := none, confidence := 0, requiresReview := true, warnings := ["too_few_candidates"], verdicts := []
      potentialSavingsBytes := 0 }

end

variable {rt : Runtime} {candidates candidates' : List RecommendationCandidate} {c d x y z : RecommendationCandidate}

/-! ### Any order of the candidates -/

section Several

variable {α : Type} [DecidableEq α] {l l' : List α}

theorem several_iff : several l ↔ ∃ a ∈ l, ∃ b ∈ l, a ≠ b := by
  rw [several, decide_eq_true_iff]
  cases l with
  | nil => simp
  | cons a l =>
    rw [List.eraseDups_cons, List.length_cons, Nat.lt_add_left_iff_pos, List.length_pos_iff_exists_mem]
    simp only [List.mem_eraseDups, List.mem_filter]
    constructor
    · rintro ⟨b, hb, hne⟩
      exact ⟨a, by simp, b, by simp [hb], by simpa using Ne.symm (by simpa using hne)⟩
    · rintro ⟨b, hb, b', hb', hne⟩
      by_cases heq : b = a
      · subst heq
        exact ⟨b', (List.mem_cons.1 hb').resolve_left (Ne.symm hne), by simpa using Ne.symm hne⟩
      · exact ⟨b, (List.mem_cons.1 hb).resolve_left heq, by simpa using heq⟩

theorem several_perm (h : l'.Perm l) : several l' = several l := by
  rw [Bool.eq_iff_iff, several_iff, several_iff]
  simp only [h.mem_iff]

end Several

theorem conflictingExternalIds_perm (h : candidates'.Perm candidates) :
    conflictingExternalIds candidates' = conflictingExternalIds candidates := by
  have hflat := h.flatMap_right RecommendationCandidate.externalIds
  unfold conflictingExternalIds
  simp only [several_perm ((hflat.filter _).map _)]
  exact hflat.any_eq

theorem min?_perm {l l' : List ℚ} (h : l'.Perm l) : l'.min? = l.min? := by
  ext a
  simp only [List.min?_eq_some_iff, h.mem_iff]

theorem max?_perm {l l' : List ℚ} (h : l'.Perm l) : l'.max? = l.max? := by
  ext a
  simp only [List.max?_eq_some_iff, h.mem_iff]

theorem runtimeMismatch_perm (h : candidates'.Perm candidates) :
    runtimeMismatch candidates' = runtimeMismatch candidates := by
  have hruntimes := h.filterMap fun c => (c.file.bind (·.durationSec)).filter (0 < ·)
  unfold runtimeMismatch
  simp only [min?_perm hruntimes, max?_perm hruntimes, hruntimes.length_eq]

/-- Ids tell the candidates apart. -/
def DistinctIds (candidates : List RecommendationCandidate) : Prop := (candidates.map (·.id)).Nodup

theorem DistinctIds.eq (h : DistinctIds candidates) (hc : c ∈ candidates) (hd : d ∈ candidates) (hid : c.id = d.id) :
    c = d := List.inj_on_of_nodup_map h hc hd hid

/-- There is one candidate under an id. -/
theorem DistinctIds.filter_id (h : DistinctIds candidates) (hc : c ∈ candidates) :
    candidates.filter (·.id = c.id) = [c] := by
  induction candidates with
  | nil => cases hc
  | cons d rest ih =>
    rw [DistinctIds, List.map_cons, List.nodup_cons] at h
    rcases List.mem_cons.1 hc with rfl | hc
    · rw [List.filter_cons_of_pos (by simp), List.filter_eq_nil_iff.2 fun e he => ?_]
      rw [decide_eq_true_eq]
      exact fun heq => h.1 (heq ▸ List.mem_map_of_mem he)
    · have hne : d.id ≠ c.id := fun heq => h.1 (heq ▸ List.mem_map_of_mem hc)
      rw [List.filter_cons_of_neg (by simpa using hne), ih h.2 hc]

theorem filter_id_perm (h : DistinctIds candidates) (hperm : candidates'.Perm candidates) (id : String) :
    candidates'.filter (·.id = id) = candidates.filter (·.id = id) := by
  have hfilter := hperm.filter fun c => decide (c.id = id)
  rcases List.eq_nil_or_concat' (candidates.filter (·.id = id)) with hnone | ⟨rest, c, hsome⟩
  · rw [hnone] at hfilter ⊢
    exact hfilter.eq_nil
  · have hmem : c ∈ candidates.filter (·.id = id) := by simp [hsome]
    rw [List.mem_filter, decide_eq_true_eq] at hmem
    obtain ⟨hc, rfl⟩ := hmem
    rw [h.filter_id hc] at hfilter ⊢
    exact List.perm_singleton.1 hfilter

theorem heightsFor_perm (h : DistinctIds candidates) (hperm : candidates'.Perm candidates) :
    heightsFor candidates' = heightsFor candidates := by
  have hmeasured := hperm.map fun c => measuredHeight c.file
  unfold heightsFor
  simp only [hmeasured.any_eq, hmeasured.all_eq, filter_id_perm h hperm]

theorem warningsOf_perm (h : DistinctIds candidates) (hperm : candidates'.Perm candidates) (rt : Runtime) :
    warningsOf candidates' rt = warningsOf candidates rt := by
  unfold warningsOf
  rw [several_perm (hperm.filterMap _), several_perm (hperm.map _), several_perm (hperm.map _),
    conflictingExternalIds_perm hperm, runtimeMismatch_perm hperm, heightsFor_perm h hperm]

/-! ### The top values -/

section Best

variable {pick : RecommendationCandidate → Option ℚ} {t : ℚ}

theorem better_cases (pick : RecommendationCandidate → Option ℚ) (acc : Option ℚ) (c : RecommendationCandidate) :
    better pick acc c = acc ∨ better pick acc c = pick c := by
  unfold better
  cases pick c with
  | none => exact .inl rfl
  | some v =>
    cases acc with
    | none => exact .inr rfl
    | some a =>
      dsimp only
      split_ifs
      · exact .inr rfl
      · exact .inl rfl

theorem le_better_acc (pick : RecommendationCandidate → Option ℚ) (a : ℚ) (c : RecommendationCandidate) :
    ∃ t, better pick (some a) c = some t ∧ a ≤ t := by
  unfold better
  cases pick c with
  | none => exact ⟨a, rfl, le_rfl⟩
  | some v =>
    dsimp only
    split_ifs with hlt
    · exact ⟨v, rfl, hlt.le⟩
    · exact ⟨a, rfl, le_rfl⟩

theorem le_better_pick {v : ℚ} (acc : Option ℚ) (hv : pick c = some v) : ∃ t, better pick acc c = some t ∧ v ≤ t := by
  unfold better
  rw [hv]
  cases acc with
  | none => exact ⟨v, rfl, le_rfl⟩
  | some a =>
    dsimp only
    split_ifs with hlt
    · exact ⟨v, rfl, le_rfl⟩
    · exact ⟨a, rfl, not_lt.1 hlt⟩

theorem best_concat (candidates : List RecommendationCandidate) (c : RecommendationCandidate) :
    best (candidates ++ [c]) pick = better pick (best candidates pick) c := by
  rw [best, List.foldl_append]
  rfl

theorem exists_le_best (hc : c ∈ candidates) {v : ℚ} (hv : pick c = some v) :
    ∃ t, best candidates pick = some t ∧ v ≤ t := by
  induction candidates using List.reverseRecOn with
  | nil => cases hc
  | append_singleton l d ih =>
    rw [best_concat]
    rcases List.mem_append.1 hc with hc | hc
    · obtain ⟨a, ha, hle⟩ := ih hc
      obtain ⟨t, ht, hat⟩ := le_better_acc pick a d
      exact ⟨t, ha ▸ ht, hle.trans hat⟩
    · obtain rfl := List.mem_singleton.1 hc
      exact le_better_pick _ hv

theorem exists_best (h : best candidates pick = some t) : ∃ c ∈ candidates, pick c = some t := by
  induction candidates using List.reverseRecOn with
  | nil => cases h
  | append_singleton l d ih =>
    rw [best_concat] at h
    rcases better_cases pick (best l pick) d with heq | heq
    · obtain ⟨c, hc, hpick⟩ := ih (heq.symm.trans h)
      exact ⟨c, List.mem_append_left _ hc, hpick⟩
    · exact ⟨d, by simp, heq.symm.trans h⟩

theorem best_eq_some_iff : best candidates pick = some t ↔
    (∃ c ∈ candidates, pick c = some t) ∧ ∀ c ∈ candidates, ∀ v, pick c = some v → v ≤ t := by
  constructor
  · intro h
    refine ⟨exists_best h, fun c hc v hv => ?_⟩
    obtain ⟨a, ha, hle⟩ := exists_le_best hc hv
    rw [h] at ha
    exact Option.some.inj ha ▸ hle
  · rintro ⟨⟨c, hc, hpick⟩, hle⟩
    obtain ⟨a, ha, hta⟩ := exists_le_best hc hpick
    obtain ⟨d, hd, hpickd⟩ := exists_best ha
    rw [ha, (hle d hd a hpickd).antisymm hta]

theorem best_perm (h : candidates'.Perm candidates) : best candidates' pick = best candidates pick := by
  ext t
  simp only [best_eq_some_iff, h.mem_iff]

end Best

theorem held_perm (h : DistinctIds candidates) (hperm : candidates'.Perm candidates) (c : RecommendationCandidate) :
    held candidates' c = held candidates c := by
  unfold held topHeight
  rw [heightsFor_perm h hperm]
  simp only [best_perm hperm]

theorem notesOf_perm (h : DistinctIds candidates) (hperm : candidates'.Perm candidates)
    (c : RecommendationCandidate) : notesOf candidates' c = notesOf candidates c := by
  unfold notesOf topHeight
  rw [held_perm h hperm, heightsFor_perm h hperm]
  simp only [best_perm hperm]

theorem reasons_perm (h : DistinctIds candidates) (hperm : candidates'.Perm candidates) (id : String) :
    reasons candidates' id = reasons candidates id := by
  unfold reasons
  rw [filter_id_perm h hperm, funext (notesOf_perm h hperm)]

/-- A candidate with its score among these. -/
def scoredOf (candidates : List RecommendationCandidate) (c : RecommendationCandidate) : Scored :=
  ⟨c, (held candidates c).score⟩

theorem scored_ids (candidates : List RecommendationCandidate) :
    (candidates.map (scoredOf candidates)).map Scored.id = candidates.map (·.id) := by
  rw [List.map_map]
  rfl

theorem scored_perm (hcollates : Collates rt.localeCompare (candidates.map (·.id))) (h : DistinctIds candidates)
    (hperm : candidates'.Perm candidates) : scored candidates' rt = scored candidates rt := by
  have hscored : scoredOf candidates' = scoredOf candidates := by
    funext c
    rw [scoredOf, held_perm h hperm, scoredOf]
  change ranked _ _ _ (candidates'.map (scoredOf candidates')) = ranked _ _ _ (candidates.map (scoredOf candidates))
  rw [hscored]
  refine ranked_eq_of_perm ?_ ?_ (hperm.map _)
  · rw [scored_ids]
    exact hcollates
  · rw [scored_ids]
    exact h

theorem confidenceOf_perm (hperm : candidates'.Perm candidates) :
    confidenceOf candidates' = confidenceOf candidates := by
  funext winner runnerUp
  rw [confidenceOf, (hperm.filter _).length_eq, hperm.length_eq, confidenceOf]

/-- The recommendation does not move around with the order the candidates come in. -/
theorem recommend_perm (hcollates : Collates rt.localeCompare (candidates.map (·.id))) (h : DistinctIds candidates)
    (hperm : candidates'.Perm candidates) : recommend candidates' rt = recommend candidates rt := by
  unfold recommend
  rw [scored_perm hcollates h hperm, warningsOf_perm h hperm, confidenceOf_perm hperm,
    (hperm.map sizeOrZero).sum_eq, funext (reasons_perm h hperm)]

theorem warnings_of_keepId (h : (recommend candidates rt).keepId ≠ none) :
    (recommend candidates rt).warnings = [] := by
  unfold recommend at h ⊢
  split at h
  · dsimp only at h ⊢
    split_ifs at h with hreview
    · exact absurd rfl h
    · rw [Bool.or_eq_true, not_or, Bool.not_eq_true', Bool.not_eq_false, List.isEmpty_iff] at hreview
      exact hreview.1
  · exact absurd rfl h

/-! ### What makes a copy the better one -/

/-- Everything the copies are compared by has been measured. -/
structure Measured (c : RecommendationCandidate) : Prop where
  height : (measuredHeight c.file).isSome
  bitrate : (bitrateOf c).isSome
  channels : (channelsOf c).isSome
  size : (sizeOf c).isSome

def dimensions : List (RecommendationCandidate → ℚ) :=
  [fun c => (measuredHeight c.file).getD 0, fun c => (bitrateOf c).getD 0, fun c => (channelsOf c).getD 0, sizeOrZero]

def quality (c : RecommendationCandidate) : List ℚ := dimensions.map fun f => f c

def tops (candidates : List RecommendationCandidate) (c : RecommendationCandidate) : List Bool :=
  dimensions.map fun f => decide (∀ d ∈ candidates, f d ≤ f c)

/-- At the first dimension of which just one of the two has the overall top value, it is the first of
them; or they have the same ones, and it was modified later, or at the same time with an id in front. -/
def Outdoes (rt : Runtime) (candidates : List RecommendationCandidate) (z y : RecommendationCandidate) : Prop :=
  tops candidates y < tops candidates z ∨ tops candidates y = tops candidates z ∧
    (y.modifiedAt.getD 0 < z.modifiedAt.getD 0 ∨
      y.modifiedAt.getD 0 = z.modifiedAt.getD 0 ∧ z.id ≠ y.id ∧ rt.localeCompare z.id y.id ≤ 0)

/-- Every copy that another one is better than is outdone. -/
def Settled (rt : Runtime) (candidates : List RecommendationCandidate) : Prop :=
  ∀ y ∈ candidates, (∃ x ∈ candidates, quality y < quality x) → ∃ z ∈ candidates, Outdoes rt candidates z y

/-- The copy that comes first is the best one, whatever the order the candidates come in, and is only
kept without a warning. -/
structure KeepsBest (rt : Runtime) (candidates : List RecommendationCandidate) : Prop where
  best : ∀ first ∈ (recommend candidates rt).verdicts.head?, ∀ c ∈ candidates, c.id = first.id →
    ∀ d ∈ candidates, quality d ≤ quality c
  stable : ∀ candidates', candidates'.Perm candidates → recommend candidates' rt = recommend candidates rt
  clear : (recommend candidates rt).keepId ≠ none → (recommend candidates rt).warnings = []

theorem best_congr {pick pick' : RecommendationCandidate → Option ℚ} (h : ∀ c ∈ candidates, pick c = pick' c) :
    best candidates pick = best candidates pick' := by
  ext t
  rw [best_eq_some_iff, best_eq_some_iff]
  refine and_congr (exists_congr fun c => and_congr_right fun hc => by rw [h c hc]) ?_
  exact forall₂_congr fun c hc => by rw [h c hc]

/-- A copy scores in a dimension in which no copy is above it. -/
theorem isTop_best {pick : RecommendationCandidate → Option ℚ} (h : ∀ c ∈ candidates, (pick c).isSome)
    (hc : c ∈ candidates) :
    isTop (pick c) (best candidates pick) = decide (∀ d ∈ candidates, (pick d).getD 0 ≤ (pick c).getD 0) := by
  obtain ⟨v, hv⟩ := Option.isSome_iff_exists.1 (h c hc)
  obtain ⟨t, ht, hle⟩ := exists_le_best hc hv
  obtain ⟨⟨e, he, hpick⟩, hall⟩ := best_eq_some_iff.1 ht
  rw [isTop, hv, ht, Option.isSome_some, Option.isSome_some, Bool.true_and, Bool.true_and, Option.getD_some]
  refine decide_eq_decide.2 ⟨fun heq d hd => ?_, fun hmax => ?_⟩
  · obtain ⟨w, hw⟩ := Option.isSome_iff_exists.1 (h d hd)
    rw [hw, Option.getD_some, Option.some.inj heq]
    exact hall d hd w hw
  · have hbound := hmax e he
    rw [hpick, Option.getD_some] at hbound
    rw [hle.antisymm hbound]

theorem heightsFor_of_measured (hids : DistinctIds candidates) (h : ∀ c ∈ candidates, Measured c)
    (hc : c ∈ candidates) : (heightsFor candidates).1 c.id = measuredHeight c.file := by
  have hall : (candidates.map fun c => measuredHeight c.file).all (·.isSome) = true := by
    rw [List.all_map, List.all_eq_true]
    exact fun c hc => (h c hc).height
  simp only [heightsFor, hall, Bool.not_true, Bool.and_false, Bool.false_eq_true, if_false, if_true,
    hids.filter_id hc]
  rfl

def Held.list (h : Held) : List Bool := [h.height, h.bitrate, h.channels, h.size]

theorem list_held (hids : DistinctIds candidates) (h : ∀ c ∈ candidates, Measured c) (hc : c ∈ candidates) :
    (held candidates c).list = tops candidates c := by
  have hheight : best candidates (fun c => (heightsFor candidates).1 c.id) =
      best candidates fun c => measuredHeight c.file := best_congr fun d hd => heightsFor_of_measured hids h hd
  have hsize : some ((sizeOf c).getD 0) = sizeOf c := by
    obtain ⟨v, hv⟩ := Option.isSome_iff_exists.1 (h c hc).size
    rw [hv, Option.getD_some]
  simp only [Held.list, held, topHeight, tops, dimensions, List.map_cons, List.map_nil, sizeOrZero]
  rw [heightsFor_of_measured hids h hc, hheight, hsize, isTop_best (fun d hd => (h d hd).height) hc,
    isTop_best (fun d hd => (h d hd).bitrate) hc, isTop_best (fun d hd => (h d hd).channels) hc,
    isTop_best (fun d hd => (h d hd).size) hc]
  rfl

theorem score_lt_iff {h h' : Held} : h.score < h'.score ↔ h.list < h'.list := by
  obtain ⟨a, b, c, d⟩ := h
  obtain ⟨a', b', c', d'⟩ := h'
  revert a b c d a' b' c' d'
  decide

theorem score_inj {h h' : Held} : h.score = h'.score ↔ h.list = h'.list := by
  obtain ⟨a, b, c, d⟩ := h
  obtain ⟨a', b', c', d'⟩ := h'
  revert a b c d a' b' c' d'
  decide

theorem outdoes_iff (hids : DistinctIds candidates) (h : ∀ c ∈ candidates, Measured c) (hz : z ∈ candidates) (hy : y ∈ candidates) (hne : z.id ≠ y.id) :
    Outdoes rt candidates z y ↔ before rt.localeCompare Scored.key Scored.id (scoredOf candidates z)
      (scoredOf candidates y) := by
  have hz' := list_held hids h hz
  have hy' := list_held hids h hy
  rw [before_iff, Outdoes, ← hz', ← hy', ← score_lt_iff, ← score_inj]
  simp only [Scored.key, Scored.id, scoredOf, Prod.Lex.toLex_lt_toLex, neg_lt_neg_iff, neg_inj, toLex_inj, Prod.mk.injEq,
    ne_eq, hne, not_false_eq_true, true_and]
  constructor
  · rintro (hlt | ⟨heq, hlt | ⟨hmod, hle⟩⟩)
    · exact .inl (.inl hlt)
    · exact .inl (.inr ⟨heq.symm, hlt⟩)
    · exact .inr ⟨⟨heq.symm, hmod.symm⟩, hle⟩
  · rintro ((hlt | ⟨heq, hlt⟩) | ⟨⟨heq, hmod⟩, hle⟩)
    · exact .inl hlt
    · exact .inr ⟨heq.symm, .inl hlt⟩
    · exact .inr ⟨heq.symm, .inr ⟨hmod.symm, hle⟩⟩

theorem id_ne_of_outdoes (hids : DistinctIds candidates) (hz : z ∈ candidates) (hy : y ∈ candidates)
    (hout : Outdoes rt candidates z y) : z.id ≠ y.id := by
  intro hid
  obtain rfl := hids.eq hz hy hid
  rcases hout with hlt | ⟨-, hlt | ⟨-, hne, -⟩⟩
  · exact lt_irrefl _ hlt
  · exact lt_irrefl _ hlt
  · exact hne rfl

theorem exists_winner (hlength : 2 ≤ candidates.length) (rt : Runtime) :
    ∃ w ∈ candidates, (∃ rest, scored candidates rt = scoredOf candidates w :: rest) ∧
      (recommend candidates rt).verdicts.head?.map (·.id) = some w.id := by
  have hscored : (scored candidates rt).length = candidates.length := by
    rw [scored, (ranked_perm _).length_eq, List.length_map]
  obtain ⟨winner, runnerUp, rest, hrest⟩ : ∃ winner runnerUp rest, scored candidates rt = winner :: runnerUp :: rest := by
    rcases hs : scored candidates rt with - | ⟨winner, - | ⟨runnerUp, rest⟩⟩
    · rw [hs, List.length_nil] at hscored
      omega
    · rw [hs, List.length_singleton] at hscored
      omega
    · exact ⟨winner, runnerUp, rest, rfl⟩
  have hmem : winner ∈ candidates.map (scoredOf candidates) := mem_ranked.1 (by
    change winner ∈ scored candidates rt
    simp [hrest])
  obtain ⟨w, hw, rfl⟩ := List.mem_map.1 hmem
  refine ⟨w, hw, ⟨_, hrest⟩, ?_⟩
  unfold recommend
  rw [hrest]
  rfl

theorem first_best_iff (hlength : 2 ≤ candidates.length) (hids : DistinctIds candidates)
    (h : ∀ c ∈ candidates, Measured c) (hcollates : Collates rt.localeCompare (candidates.map (·.id))) :
    (∀ first ∈ (recommend candidates rt).verdicts.head?, ∀ c ∈ candidates, c.id = first.id →
      ∀ d ∈ candidates, quality d ≤ quality c) ↔ Settled rt candidates := by
  obtain ⟨w, hw, ⟨rest, hrest⟩, hfirst⟩ := exists_winner hlength rt
  obtain ⟨first, hhead, hid⟩ := Option.map_eq_some_iff.1 hfirst
  have hsorted : (scored candidates rt).Pairwise fun a b => before rt.localeCompare Scored.key Scored.id a b :=
    pairwise_ranked hcollates _
  rw [hrest, List.pairwise_cons] at hsorted
  have hbefore : ∀ y ∈ candidates, w.id ≠ y.id → before rt.localeCompare Scored.key Scored.id
      (scoredOf candidates w) (scoredOf candidates y) := by
    intro y hy hne
    have hmem : scoredOf candidates y ∈ scored candidates rt := mem_ranked.2 (List.mem_map_of_mem hy)
    rw [hrest] at hmem
    exact hsorted.1 _ ((List.mem_cons.1 hmem).resolve_left fun heq => hne (congrArg Scored.id heq).symm)
  constructor
  · rintro hbest y hy ⟨x, hx, hlt⟩
    have hle := hbest first hhead w hw hid.symm x hx
    have hne : w.id ≠ y.id := by
      intro heq
      rw [hids.eq hw hy heq] at hle
      exact hle.not_gt hlt
    exact ⟨w, hw, (outdoes_iff hids h hw hy hne).2 (hbefore y hy hne)⟩
  · intro hsettled first' hhead' c hc hid' d hd
    rw [hhead] at hhead'
    cases hhead'
    obtain rfl := hids.eq hc hw (hid'.trans hid)
    by_contra hlt
    obtain ⟨z, hz, hout⟩ := hsettled c hc ⟨d, hd, not_le.1 hlt⟩
    have hne := id_ne_of_outdoes hids hz hc hout
    refine hne (congrArg Scored.id (before_antisymm (l := candidates.map (scoredOf candidates)) ?_ ?_
      (List.mem_map_of_mem hz) (List.mem_map_of_mem hc) ((outdoes_iff hids h hz hc hne).1 hout)
      (hbefore z hz (Ne.symm hne))))
    · rw [scored_ids]
      exact hcollates
    · rw [scored_ids]
      exact hids

/-- With only two copies, the better one holds the top of the dimension in which it is better. -/
theorem tops_lt_tops (hx : x ∈ candidates) (hall : ∀ d ∈ candidates, d = x ∨ d = y)
    (fs : List (RecommendationCandidate → ℚ)) (h : (fs.map fun f => f y) < fs.map fun f => f x) :
    (fs.map fun f => decide (∀ d ∈ candidates, f d ≤ f y)) < fs.map fun f => decide (∀ d ∈ candidates, f d ≤ f x) := by
  induction fs with
  | nil => exact absurd h (lt_irrefl _)
  | cons f fs ih =>
    rw [List.map_cons, List.map_cons, List.cons_lt_cons_iff] at h ⊢
    rcases h with hlt | ⟨heq, hlt⟩
    · have hy : ¬ ∀ d ∈ candidates, f d ≤ f y := fun hmax => (hmax x hx).not_gt hlt
      have hmax : ∀ d ∈ candidates, f d ≤ f x := by
        intro d hd
        rcases hall d hd with rfl | rfl
        · exact le_rfl
        · exact hlt.le
      left
      rw [decide_eq_false hy, decide_eq_true hmax]
      decide
    · exact .inr ⟨by rw [heq], ih hlt⟩

theorem settled_pair (rt : Runtime) (c d : RecommendationCandidate) : Settled rt [c, d] := by
  rintro y hy ⟨x, hx, hlt⟩
  refine ⟨x, hx, .inl (tops_lt_tops hx (fun e he => ?_) dimensions hlt)⟩
  have hne : x ≠ y := by
    rintro rfl
    exact lt_irrefl _ hlt
  simp only [List.mem_cons, List.not_mem_nil, or_false] at hx hy he
  rcases hx with rfl | rfl
  · rcases hy with rfl | rfl
    · exact absurd rfl hne
    · exact he
  · rcases hy with rfl | rfl
    · exact he.symm
    · exact absurd rfl hne

/-- The recommendation is that of the best copy just when every beaten copy is outdone. -/
theorem keepsBest_iff (rt : Runtime) (candidates : List RecommendationCandidate) (hlength : 2 ≤ candidates.length)
    (hids : DistinctIds candidates) (h : ∀ c ∈ candidates, Measured c)
    (hcollates : Collates rt.localeCompare (candidates.map (·.id))) :
    KeepsBest rt candidates ↔ Settled rt candidates := by
  rw [← first_best_iff hlength hids h hcollates]
  refine ⟨KeepsBest.best, fun hbest => ⟨hbest, fun candidates' hperm => ?_, warnings_of_keepId⟩⟩
  exact recommend_perm hcollates hids hperm

/-- A copy of one film. -/
def copy (id : String) (height bitrateKbps audioChannels size : ℚ) : RecommendationCandidate where
  id := id
  year := some 2019
  season := none
  episode := none
  path := "/movies/Hotel Mumbai (2019)/" ++ id ++ ".mkv"
  modifiedAt := some 0
  externalIds := []
  file := some { size, height := some height, bitrateKbps := some bitrateKbps, durationSec := some 7000,
                 audioChannels := some audioChannels, resolution := none }

theorem measured_copy {id : String} {height bitrateKbps audioChannels size : ℚ} (h : 0 < height) :
    Measured (copy id height bitrateKbps audioChannels size) :=
  ⟨by simp [measuredHeight, copy, h], rfl, rfl, rfl⟩

def lean1080 : RecommendationCandidate := copy "lean1080" 1080 5000 6 2000000000

def big720 : RecommendationCandidate := copy "big720" 720 2000 2 9000000000

/-- Of the two copies with the most lines this one has the lower bitrate. -/
def surround : RecommendationCandidate := copy "surround" 1080 4000 6 2000000000

/-- Both of the others are outdone: the smaller picture by its lines, `surround` by its bitrate. -/
theorem settled_lean1080 : Settled .ascii [big720, surround, lean1080] := by
  rintro y hy ⟨x, hx, hlt⟩
  refine ⟨lean1080, by simp, .inl ?_⟩
  simp only [List.mem_cons, List.not_mem_nil, or_false] at hx hy
  rcases hy with rfl | rfl | rfl
  · decide
  · decide
  · rcases hx with rfl | rfl | rfl <;> exact absurd hlt (by decide)

theorem keepsBest_lean1080 :
    KeepsBest .ascii [big720, lean1080] ∧ KeepsBest .ascii [big720, surround, lean1080] := by
  constructor
  · refine (keepsBest_iff .ascii [big720, lean1080] (by decide) ?_ ?_ (collates_ascii _)).2
      (settled_pair .ascii big720 lean1080)
    · unfold DistinctIds
      decide
    · intro c hc
      simp only [List.mem_cons, List.not_mem_nil, or_false] at hc
      rcases hc with rfl | rfl <;> exact measured_copy (by norm_num)
  · refine (keepsBest_iff .ascii [big720, surround, lean1080] (by decide) ?_ ?_ (collates_ascii _)).2
      settled_lean1080
    · unfold DistinctIds
      decide
    · intro c hc
      simp only [List.mem_cons, List.not_mem_nil, or_false] at hc
      rcases hc with rfl | rfl | rfl <;> exact measured_copy (by norm_num)

def sharp : RecommendationCandidate := copy "sharp" 1080 8000 2 2000000000

/-- It takes the bitrate away from the other two. -/
def bloated : RecommendationCandidate := copy "bloated" 720 9000 2 1000000000

theorem not_keepsBest_surround : ¬ KeepsBest .ascii [surround, sharp, bloated] := by
  intro h
  have hmeasured : ∀ c ∈ [surround, sharp, bloated], Measured c := by
    intro c hc
    simp only [List.mem_cons, List.not_mem_nil, or_false] at hc
    rcases hc with rfl | rfl | rfl
    · exact measured_copy (by norm_num)
    · exact measured_copy (by norm_num)
    · exact measured_copy (by norm_num)
  have hids : DistinctIds [surround, sharp, bloated] := by
    unfold DistinctIds
    decide
  have hsettled := (first_best_iff (by decide) hids hmeasured (collates_ascii _)).1 h.best
  have hbeaten : quality surround < quality sharp := by decide
  obtain ⟨z, hz, hout⟩ := hsettled surround (by simp) ⟨sharp, by simp, hbeaten⟩
  have hne := id_ne_of_outdoes hids hz (by simp) hout
  simp only [List.mem_cons, List.not_mem_nil, or_false] at hz
  rcases hz with rfl | rfl | rfl
  · exact hne rfl
  · rcases hout with hlt | ⟨heq, -⟩
    · exact absurd hlt (by decide)
    · exact absurd heq (by decide)
  · rcases hout with hlt | ⟨heq, -⟩
    · exact absurd hlt (by decide)
    · exact absurd heq (by decide)

end UltraTorrent.Media.DuplicateRecommendation
