import UltraTorrent.Library.EcmaScript
import UltraTorrent.Library.WhiteSpace

/-! The search for a release that is better than the owned copy. It stops at thirty acceptable
releases, before they are ranked, so the best one is shown only when it is no later than that. -/
namespace UltraTorrent.MediaIntelligence.UpgradeSearch

open Library Library.EcmaScript

/-- A release as an indexer returns it. -/
structure SearchCandidate where
  title : String
  indexerName : String
  sizeBytes : Option ℤ
  seeders : Option ℤ
  deriving DecidableEq

/-- What all the indexers together return. -/
structure SearchRun where
  queried : ℕ
  failed : ℕ
  candidates : List SearchCandidate

/-- A rung of the normalized ladder; the lower its number, the more preferred. -/
structure LadderRung where
  id : String
  rung : ℤ
  name : String
  deriving DecidableEq

structure OwnedQuality where
  resolutionClass : Option String
  videoCodec : Option String
  hdr : Option Bool
  deriving DecidableEq

/-- The assembled facts of the owned copy that a search reads. -/
structure OwnedFacts where
  title : Option String
  ladder : Option (List LadderRung)
  matchedRung : Option ℤ
  owned : Option OwnedQuality

inductive VerificationStatus where
  | verified
  | noMatch
  | failed
  deriving DecidableEq

/-- A property of a release beside that of the owned copy. -/
structure Dimension where
  dimension : String
  owned : Option String
  candidate : Option String
  improved : Bool
  deriving DecidableEq

structure UpgradeCandidate where
  releaseName : String
  indexerName : String
  sizeBytes : Option ℤ
  seeders : Option ℤ
  matchedRung : ℤ
  matchedRungName : String
  dimensions : List Dimension
  improvements : List String
  tradeoffs : List String
  deriving DecidableEq

structure VerificationResult where
  status : VerificationStatus
  candidates : List UpgradeCandidate
  checkedAt : String
  indexersQueried : ℕ
  indexersFailed : ℕ
  deriving DecidableEq

def maxUpgradeCandidates : ℕ := 10

/-- What reads the name of a release, over preferences of type `P`. -/
structure Matchers (P : Type) where
  /-- The resolution and the source of `parseRelease`, the codec and the colour of `parseTorrentName`. -/
  resolution : String → Option String
  source : String → Option String
  codec : String → Option String
  hdr : String → List String
  showTitleMatch : String → String → Bool
  id : P → String
  priorityOrder : P → ℤ
  /-- Whether the result is `matched`. -/
  evaluateCandidate : P → String → Option ℤ → Bool

section

variable {P : Type} (m : Matchers P) (rt : Runtime)

/-! ### The preferences -/

/-- The loop of `evaluatePreferenceList` over the ordered preferences: which one has matched. -/
def firstMatch (title : String) (sizeBytes : Option ℤ) : Option String → List P → Option String
  | matched, [] => matched
  | matched, p :: ps =>
    -- an empty id does not count as one
    if matched.getD "" ≠ "" then firstMatch title sizeBytes matched ps
    else if m.evaluateCandidate p title sizeBytes then firstMatch title sizeBytes (some (m.id p)) ps
    else firstMatch title sizeBytes matched ps

/-- `evaluatePreferenceList(...).matchedCandidateId`. -/
def matchedCandidateId (prefs : List P) (title : String) (sizeBytes : Option ℤ) : Option String :=
  firstMatch m title sizeBytes none (prefs.mergeSort fun a b => m.priorityOrder a ≤ m.priorityOrder b)

/-! ### The title -/

/-- `/\((19|20)\d{2}\)$/`, read from the end. -/
def endsInYear : List Char → Bool
  | ')' :: d :: c :: b :: a :: '(' :: _ => d.isDigit && c.isDigit && (a = '1' && b = '9' || a = '2' && b = '0')
  | _ => false

/-- `title.replace(/\s*\((19|20)\d{2}\)\s*$/, '')`. -/
def withoutYear (title : List Char) : List Char :=
  let reversed := title.reverse.dropWhile WhiteSpace.isWhiteSpace
  if endsInYear reversed then ((reversed.drop 6).dropWhile WhiteSpace.isWhiteSpace).reverse else title

def anchorOf (title : String) : String :=
  let anchor := WhiteSpace.trim (.ofList (withoutYear title.toList))
  if anchor = "" then title else anchor

/-! ### The search -/

/-- An improvement is claimed only when both sides are known. -/
def dim (dimension : String) (owned candidate : Option String) : Dimension where
  dimension := dimension
  owned := owned
  candidate := candidate
  improved := owned.isSome && candidate.isSome && owned ≠ candidate

def hdrLabel (hdr : Option Bool) : Option String := hdr.map fun hdr => if hdr then "HDR" else "SDR"

def toCandidate (owned : Option OwnedQuality) (c : SearchCandidate) (rung : LadderRung) : UpgradeCandidate where
  releaseName := c.title
  indexerName := c.indexerName
  sizeBytes := c.sizeBytes
  seeders := c.seeders
  matchedRung := rung.rung
  matchedRungName := rung.name
  dimensions :=
    [dim "resolution" (owned.bind (·.resolutionClass)) (m.resolution c.title),
     dim "codec" (owned.bind (·.videoCodec)) (m.codec c.title),
     dim "source" none (m.source c.title),
     dim "hdr" (hdrLabel (owned.bind (·.hdr)))
       (if m.hdr c.title = [] then none else some (", ".intercalate (m.hdr c.title)))]
  improvements := ["higher_preference_rung"]
  tradeoffs := []

/-- The rung of a release that matches the title and a preference. -/
def rungOf (prefs : List P) (rungs : List LadderRung) (anchor : String) (c : SearchCandidate) : Option LadderRung :=
  if m.showTitleMatch anchor c.title then
    match matchedCandidateId m prefs c.title c.sizeBytes with
    | some id => if id = "" then none else mapGet (rungs.map fun r => (r.id, r)) id
    | none => none
  else none

/-- A release on a rung that is strictly better than the owned one, which is the last of all when the
owned copy is on none. -/
def upgradeOf (facts : OwnedFacts) (prefs : List P) (c : SearchCandidate) : Option UpgradeCandidate :=
  let rungs := facts.ladder.getD []
  match rungOf m prefs rungs (anchorOf (facts.title.getD "")) c with
  | some rung =>
    if rung.rung ≥ facts.matchedRung.getD rungs.length then none else some (toCandidate m facts.owned c rung)
  | none => none

/-- The loop over the releases, with what it has found so far. -/
def collect (upgrade : SearchCandidate → Option UpgradeCandidate) :
    List UpgradeCandidate → List SearchCandidate → List UpgradeCandidate
  | better, [] => better
  | better, c :: cs =>
    match upgrade c with
    | none => collect upgrade better cs
    | some found =>
      if better.length + 1 ≥ maxUpgradeCandidates * 3 then better ++ [found]
      else collect upgrade (better ++ [found]) cs

/-- The best rung first, then the most seeders. -/
def noWorse (a b : UpgradeCandidate) : Bool :=
  a.matchedRung < b.matchedRung ∨ a.matchedRung = b.matchedRung ∧ b.seeders.getD 0 ≤ a.seeders.getD 0

def empty (status : VerificationStatus) (now : Instant) : VerificationResult where
  status := status
  candidates := []
  checkedAt := rt.toISOString now
  indexersQueried := 0
  indexersFailed := 0

/-- The facts are missing when the owned copy cannot be assembled; the preferences are those that
govern the kind of media. -/
def search (facts : Option OwnedFacts) (run : SearchRun) (prefs : List P) (now : Instant) : VerificationResult :=
  match facts with
  | none => empty rt .failed now
  | some facts =>
    if facts.title.getD "" = "" ∨ facts.ladder.getD [] = [] then empty rt .noMatch now
    else
      let counted (status : VerificationStatus) : VerificationResult :=
        { empty rt status now with indexersQueried := run.queried, indexersFailed := run.failed }
      if 0 < run.queried ∧ run.failed = run.queried then counted .failed
      else if prefs = [] then counted .noMatch
      else
        let better := collect (upgradeOf m facts prefs) [] run.candidates
        let candidates := (better.mergeSort noWorse).take maxUpgradeCandidates
        { counted (if candidates = [] then .noMatch else .verified) with candidates }

/-! ### The best upgrade -/

/-- The upgrades among all the releases; without a title none of them matches it. -/
def upgrades (facts : Option OwnedFacts) (run : SearchRun) (prefs : List P) : List UpgradeCandidate :=
  match facts with
  | none => []
  | some facts =>
    if facts.title.getD "" = "" then [] else run.candidates.filterMap (upgradeOf m facts prefs)

/-- The upgrade shown first is the best there is, and there is none only when none is found. -/
structure BestShown (found : List UpgradeCandidate) (result : VerificationResult) : Prop where
  first : ∀ shown ∈ result.candidates.head?, shown ∈ found ∧ ∀ other ∈ found, noWorse shown other
  noMatch : result.status = .noMatch → found = []

variable {m}

theorem upgradeOf_of_no_rung {facts : OwnedFacts} {prefs : List P} (h : facts.ladder.getD [] = []) :
    upgradeOf m facts prefs = fun _ => none := by
  funext c
  have hrung : rungOf m prefs [] (anchorOf (facts.title.getD "")) c = none := by
    unfold rungOf
    split_ifs
    · cases matchedCandidateId m prefs c.title c.sizeBytes with
      | none => rfl
      | some id => simp [mapGet]
    · rfl
  simp only [upgradeOf, h, hrung]

theorem upgradeOf_of_no_preference {facts : OwnedFacts} :
    upgradeOf m facts ([] : List P) = fun _ => none := by
  funext c
  have hrung : ∀ rungs, rungOf m [] rungs (anchorOf (facts.title.getD "")) c = none := by
    intro rungs
    unfold rungOf matchedCandidateId
    rw [List.mergeSort_nil]
    split_ifs <;> rfl
  simp only [upgradeOf, hrung]

/-- The loop keeps the first thirty upgrades. -/
theorem collect_eq (upgrade : SearchCandidate → Option UpgradeCandidate) (cs : List SearchCandidate) :
    ∀ better : List UpgradeCandidate, better.length < maxUpgradeCandidates * 3 →
      collect upgrade better cs =
        better ++ (cs.filterMap upgrade).take (maxUpgradeCandidates * 3 - better.length) := by
  induction cs with
  | nil => intro better _; simp [collect]
  | cons c cs ih =>
    intro better hroom
    unfold collect
    cases hc : upgrade c with
    | none =>
      rw [List.filterMap_cons_none hc]
      exact ih better hroom
    | some found =>
      rw [List.filterMap_cons_some hc]
      dsimp only
      split_ifs with hfull
      · rw [show maxUpgradeCandidates * 3 - better.length = 1 by omega]
        rfl
      · have hlength : (better ++ [found]).length = better.length + 1 := List.length_append
        rw [ih _ (by omega), hlength, List.append_assoc,
          show maxUpgradeCandidates * 3 - better.length =
            (maxUpgradeCandidates * 3 - (better.length + 1)) + 1 by omega]
        rfl

theorem noWorse_trans (a b c : UpgradeCandidate) (hab : noWorse a b = true) (hbc : noWorse b c = true) :
    noWorse a c = true := by
  simp only [noWorse, decide_eq_true_eq] at *
  omega

theorem noWorse_total (a b : UpgradeCandidate) : (noWorse a b || noWorse b a) = true := by
  simp only [noWorse, Bool.or_eq_true, decide_eq_true_eq]
  omega

theorem noWorse_refl (a : UpgradeCandidate) : noWorse a a = true := by
  simpa using noWorse_total a a

theorem head_mergeSort {found : List UpgradeCandidate} {shown : UpgradeCandidate}
    (h : shown ∈ (found.mergeSort noWorse).head?) :
    shown ∈ found ∧ ∀ other ∈ found, noWorse shown other := by
  obtain ⟨rest, hrest⟩ := List.head?_eq_some_iff.1 h
  have hsorted := List.pairwise_mergeSort noWorse_trans noWorse_total found
  rw [hrest, List.pairwise_cons] at hsorted
  have hmem : ∀ other, other ∈ found ↔ other = shown ∨ other ∈ rest := fun other => by
    rw [← List.mem_cons, ← hrest, List.mem_mergeSort]
  refine ⟨(hmem shown).2 (.inl rfl), fun other hother => ?_⟩
  obtain rfl | hother := (hmem other).1 hother
  · exact noWorse_refl other
  · exact hsorted.1 other hother

theorem head?_take {found : List UpgradeCandidate} {n : ℕ} (hn : 0 < n) :
    (found.take n).head? = found.head? := by
  cases found with
  | nil => rw [List.take_nil]
  | cons first rest => rw [List.take_cons hn]; rfl

theorem bestShown_ranked_iff {found : List UpgradeCandidate} {result : VerificationResult}
    (hcandidates : result.candidates =
      ((found.take (maxUpgradeCandidates * 3)).mergeSort noWorse).take maxUpgradeCandidates)
    (hstatus : result.status = if result.candidates = [] then .noMatch else .verified) :
    BestShown found result ↔ ∀ late ∈ found.drop (maxUpgradeCandidates * 3),
      ∃ early ∈ found.take (maxUpgradeCandidates * 3), noWorse early late := by
  set early := found.take (maxUpgradeCandidates * 3) with hearly
  have hhead : result.candidates.head? = (early.mergeSort noWorse).head? := by
    rw [hcandidates, head?_take (by decide)]
  have hfound : found = early ++ found.drop (maxUpgradeCandidates * 3) := (List.take_append_drop ..).symm
  have hnone : result.candidates = [] ↔ early = [] := by
    rw [← List.head?_eq_none_iff, hhead, List.head?_eq_none_iff, ← List.length_eq_zero_iff,
      List.length_mergeSort, List.length_eq_zero_iff]
  refine ⟨fun h late hlate => ?_, fun h => ⟨fun shown hshown => ?_, fun hno => ?_⟩⟩
  · have hlong : maxUpgradeCandidates * 3 < found.length := by
      simpa using List.length_pos_of_mem hlate
    cases hshown : result.candidates.head? with
    | none =>
      rw [List.head?_eq_none_iff, hnone, ← List.length_eq_zero_iff, hearly, List.length_take] at hshown
      rw [maxUpgradeCandidates] at hlong hshown
      omega
    | some shown =>
      have hmem := (head_mergeSort (hhead ▸ hshown)).1
      exact ⟨shown, hmem, (h.first shown hshown).2 late (List.mem_of_mem_drop hlate)⟩
  · rw [hhead] at hshown
    obtain ⟨hmem, hbest⟩ := head_mergeSort hshown
    refine ⟨List.mem_of_mem_take hmem, fun other hother => ?_⟩
    rw [hfound, List.mem_append] at hother
    obtain hother | hother := hother
    · exact hbest other hother
    · obtain ⟨better, hbetter, hle⟩ := h other hother
      exact noWorse_trans _ _ _ (hbest better hbetter) hle
  · have hempty : result.candidates = [] := by
      by_contra hsome
      rw [hstatus, if_neg hsome] at hno
      cases hno
    simpa [hearly, maxUpgradeCandidates] using hnone.1 hempty

theorem search_ranked {rt : Runtime} {facts : OwnedFacts} {run : SearchRun} {prefs : List P} {now : Instant}
    (hfacts : ¬ (facts.title.getD "" = "" ∨ facts.ladder.getD [] = []))
    (hanswered : ¬ (0 < run.queried ∧ run.failed = run.queried)) (hprefs : prefs ≠ []) :
    BestShown (upgrades m (some facts) run prefs) (search m rt (some facts) run prefs now) ↔
      ∀ late ∈ (upgrades m (some facts) run prefs).drop (maxUpgradeCandidates * 3),
        ∃ early ∈ (upgrades m (some facts) run prefs).take (maxUpgradeCandidates * 3), noWorse early late := by
  have hfound : upgrades m (some facts) run prefs = run.candidates.filterMap (upgradeOf m facts prefs) :=
    if_neg fun htitle => hfacts (.inl htitle)
  rw [search, if_neg hfacts]
  dsimp only
  rw [if_neg hanswered, if_neg hprefs]
  refine bestShown_ranked_iff ?_ rfl
  rw [hfound, collect_eq _ _ _ (by decide)]
  rfl

end

/-- The best upgrade is shown unless it is found later than thirty worse ones. -/
theorem search_bestShown_iff {P : Type} (m : Matchers P) (rt : Runtime) (facts : Option OwnedFacts)
    (run : SearchRun) (prefs : List P) (now : Instant) :
    BestShown (upgrades m facts run prefs) (search m rt facts run prefs now) ↔
      0 < run.queried ∧ run.failed = run.queried ∨
      ∀ late ∈ (upgrades m facts run prefs).drop (maxUpgradeCandidates * 3),
        ∃ early ∈ (upgrades m facts run prefs).take (maxUpgradeCandidates * 3), noWorse early late := by
  cases facts with
  | none => exact ⟨fun _ => .inr nofun, fun _ => ⟨nofun, nofun⟩⟩
  | some facts =>
    by_cases hnothing : facts.title.getD "" = "" ∨ facts.ladder.getD [] = []
    · have hfound : upgrades m (some facts) run prefs = [] := by
        obtain htitle | hladder := hnothing
        · simp [upgrades, htitle]
        · simp [upgrades, upgradeOf_of_no_rung hladder]
      rw [hfound, search, if_pos hnothing]
      exact ⟨fun _ => .inr nofun, fun _ => ⟨nofun, fun _ => rfl⟩⟩
    · by_cases houtage : 0 < run.queried ∧ run.failed = run.queried
      · rw [search, if_neg hnothing]
        dsimp only
        rw [if_pos houtage]
        exact ⟨fun _ => .inl houtage, fun _ => ⟨nofun, nofun⟩⟩
      · by_cases hprefs : prefs = []
        · have hfound : upgrades m (some facts) run prefs = [] := by
            simp [upgrades, hprefs, upgradeOf_of_no_preference]
          rw [hfound, search, if_neg hnothing]
          dsimp only
          rw [if_neg houtage, if_pos hprefs]
          exact ⟨fun _ => .inr nofun, fun _ => ⟨nofun, fun _ => rfl⟩⟩
        · rw [or_iff_right houtage]
          exact search_ranked hnothing houtage hprefs

/-- A ladder of two resolutions. -/
def resolutions : List LadderRung := [⟨"uhd", 0, "2160p"⟩, ⟨"hd", 1, "1080p"⟩]

/-- Names that begin with the title and go on with the resolution. -/
def byName : Matchers LadderRung where
  resolution _ := none
  source _ := none
  codec _ := none
  hdr _ := []
  showTitleMatch anchor title := anchor.toList.isPrefixOf title.toList
  id := LadderRung.id
  priorityOrder := LadderRung.rung
  evaluateCandidate p title _ := p.name.toList.isPrefixOf (title.toList.drop 9)

/-- The facts of a copy that is on no rung. -/
def poorCopy : OwnedFacts where
  title := some "The Wire"
  ladder := some resolutions
  matchedRung := none
  owned := none

def release (title : String) : SearchCandidate := ⟨title, "indexer", none, some 5⟩

/-- Thirty releases of the second rung, and then one of the first. -/
def longRun : SearchRun where
  queried := 1
  failed := 0
  candidates := List.replicate 30 (release "The Wire 1080p") ++ [release "The Wire 2160p"]

theorem matched_byName (title : String) : matchedCandidateId byName resolutions title none =
    firstMatch byName title none none resolutions :=
  congrArg _ (List.mergeSort_of_pairwise (by decide))

def shownAs (title : String) (rung : LadderRung) : UpgradeCandidate :=
  toCandidate byName none (release title) rung

theorem upgradeOf_hd : upgradeOf byName poorCopy resolutions (release "The Wire 1080p") =
    some (shownAs "The Wire 1080p" ⟨"hd", 1, "1080p"⟩) := by
  simp only [upgradeOf, rungOf, release, matched_byName]
  rfl

theorem upgradeOf_uhd : upgradeOf byName poorCopy resolutions (release "The Wire 2160p") =
    some (shownAs "The Wire 2160p" ⟨"uhd", 0, "2160p"⟩) := by
  simp only [upgradeOf, rungOf, release, matched_byName]
  rfl

/-- The one release of the best rung is not looked at. -/
theorem not_bestShown_longRun : ¬ BestShown (upgrades byName (some poorCopy) longRun resolutions)
    (search byName .ascii (some poorCopy) longRun resolutions 0) := by
  have hfound : upgrades byName (some poorCopy) longRun resolutions =
      List.replicate 30 (shownAs "The Wire 1080p" ⟨"hd", 1, "1080p"⟩) ++
        [shownAs "The Wire 2160p" ⟨"uhd", 0, "2160p"⟩] := by
    simp only [upgrades, longRun, List.filterMap_append, List.filterMap_replicate_of_some upgradeOf_hd,
      List.filterMap_cons_some upgradeOf_uhd]
    rfl
  rw [search_ranked (by decide) (by decide) (by decide), hfound]
  intro h
  obtain ⟨early, hearly, hle⟩ := h (shownAs "The Wire 2160p" ⟨"uhd", 0, "2160p"⟩) (by simp [maxUpgradeCandidates])
  rw [maxUpgradeCandidates, List.take_left' (by simp)] at hearly
  obtain rfl := List.eq_of_mem_replicate hearly
  cases hle

end UltraTorrent.MediaIntelligence.UpgradeSearch
