import UltraTorrent.Library.EcmaScript

/-! The acquisition decision on a release: nine rules in their order, with a trace of what they said.
The rule for what is owned already decides on an upgrade before the rules that come after it. -/
namespace UltraTorrent.Acquisition.DecisionEngine

open Library.EcmaScript

inductive AcquisitionDecision where
  | download
  | skip
  | wait
  | holdForApproval
  | upgradeExisting
  | replaceExisting
  | manualReview
  deriving DecidableEq

structure DecisionProfile where
  minimumScore : ℚ
  approvalScore : ℚ
  excludedTerms : List String
  requiredTerms : List String
  allowUpgrades : Bool
  /-- The profile forces approval. -/
  approvalRequired : Bool
  waitForBetter : Bool
  waitUntilScore : ℚ
  deriving DecidableEq

structure ScoreSignal where
  value : ℚ
  rejected : Bool := false
  deriving DecidableEq

structure WatchlistSignal where
  matched : Bool
  ambiguous : Bool := false
  deriving DecidableEq

structure LibrarySignal where
  needed : Bool
  owned : Bool
  newIsBetter : Bool := false
  ambiguous : Bool := false
  deriving DecidableEq

inductive DuplicateLevel where
  | low
  | medium
  | high
  deriving DecidableEq

def DuplicateLevel.text : DuplicateLevel → String
  | .low => "low"
  | .medium => "medium"
  | .high => "high"

structure StorageSignal where
  ok : Bool
  nearThreshold : Bool := false
  deriving DecidableEq

structure DecisionSignals where
  score : ScoreSignal
  watchlist : WatchlistSignal
  library : LibrarySignal
  duplicate : DuplicateLevel
  storage : StorageSignal
  sizeBytes : Option ℚ := none
  titleLower : String
  deriving DecidableEq

inductive TraceStatus where
  | success
  | warning
  | blocked
  | info
  deriving DecidableEq

structure TraceStep where
  step : String
  status : TraceStatus
  reason : String
  score : Option ℚ := none
  decision : Option AcquisitionDecision := none
  deriving DecidableEq

structure DecisionResult where
  decision : AcquisitionDecision
  reason : String
  /-- Between 0 and 100. -/
  confidence : ℤ
  requiresApproval : Bool
  trace : List TraceStep
  deriving DecidableEq

/-- 40 GB. -/
def largeFileBytes : ℚ := 40 * 1024 * 1024 * 1024

def clamp (confidence : ℤ) : ℤ := max 0 (min 100 confidence)

def final (decision : AcquisitionDecision) (reason : String) (confidence : ℤ) (requiresApproval : Bool)
    (trace : List TraceStep) : DecisionResult where
  decision := decision
  reason := reason
  confidence := clamp confidence
  requiresApproval := requiresApproval
  trace := trace ++ [{ step := "final_decision", status := .success, reason := reason, decision := some decision }]

section

variable (rt : Runtime) (signals : DecisionSignals) (profile : DecisionProfile)

/-- `signals.titleLower.includes(t.toLowerCase())`. -/
def occurs (term : String) : Bool :=
  signals.titleLower.toList.tails.any (rt.toLowerCase term).toList.isPrefixOf

def excludedTerm : Option String :=
  profile.excludedTerms.find? fun term => term ≠ "" && occurs rt signals term

def missingRequired : Option String :=
  profile.requiredTerms.find? fun term => term ≠ "" && !occurs rt signals term

def number (value : ℚ) : String := rt.stringOfNumber (.fin value)

def approvalReasons (confidence : ℤ) : List String :=
  (if profile.approvalRequired then ["profile requires approval"] else []) ++
  (if signals.score.value < profile.approvalScore then
    ["score " ++ number rt signals.score.value ++ " < approval " ++ number rt profile.approvalScore] else []) ++
  (if signals.duplicate = .medium ∨ signals.duplicate = .high then
    ["duplicate risk " ++ signals.duplicate.text] else []) ++
  (if largeFileBytes < signals.sizeBytes.getD 0 then ["unusually large file"] else []) ++
  (if signals.storage.nearThreshold then ["storage near threshold"] else []) ++
  (if confidence < 40 then ["low match confidence"] else [])

/-- The rules from the minimum score on, for what is not owned, or needed all the same. -/
def decideWanted (confidence : ℤ) (trace : List TraceStep) : DecisionResult :=
  let value := number rt signals.score.value
  if signals.score.value < profile.minimumScore then
    let minimum := number rt profile.minimumScore
    final .skip ("Below minimum score (" ++ value ++ " < " ++ minimum ++ ")") 75 false
      (trace ++ [{ step := "quality_gate", status := .blocked,
                   reason := "score " ++ value ++ " < minimum " ++ minimum }])
  else if signals.storage.ok = false then
    final .skip "Storage rules block this acquisition" 80 false
      (trace ++ [{ step := "storage", status := .blocked, reason := "storage rule blocks acquisition" }])
  else if profile.waitForBetter ∧ signals.library.owned = false ∧ signals.score.value < profile.waitUntilScore then
    let cutoff := number rt profile.waitUntilScore
    final .wait ("Waiting for a better release (score " ++ value ++ " < " ++ cutoff ++ ")") 60 false
      (trace ++ [{ step := "wait_policy", status := .info,
                   reason := "score " ++ value ++ " < wait cutoff " ++ cutoff }])
  else
    let reasons := approvalReasons rt signals profile confidence
    if reasons ≠ [] then
      final .holdForApproval ("Held for approval: " ++ "; ".intercalate reasons) (clamp confidence) true
        (trace ++ [{ step := "approval", status := .warning, reason := "; ".intercalate reasons }])
    else
      final .download "Missing/wanted content with a release above thresholds" (clamp confidence) false
        (trace ++ [{ step := "duplicate_risk", status := .success,
                     reason := "duplicate risk " ++ signals.duplicate.text }])

/-- The rule for what is owned and not needed. -/
def decideOwned (trace : List TraceStep) : DecisionResult :=
  if signals.library.newIsBetter ∧ profile.allowUpgrades ∧ signals.duplicate ≠ .high then
    final .upgradeExisting "Quality upgrade over the owned copy" 70
      (signals.score.value < profile.approvalScore ∨ signals.duplicate = .medium ∨ profile.approvalRequired)
      (trace ++ [{ step := "library_need", status := .info,
                   reason := "owned, but this release is meaningfully better" }])
  else
    final .skip "Already owned in equal or better quality" 80 false
      (trace ++ [{ step := "library_need", status := .info, reason := "already owned in equal/better quality" }])

def decide : DecisionResult :=
  match excludedTerm rt signals profile, missingRequired rt signals profile with
  | some excluded, _ =>
    final .skip ("Blocked by excluded term \"" ++ excluded ++ "\"") 95 false
      [{ step := "excluded_terms", status := .blocked, reason := "excluded term \"" ++ excluded ++ "\" present" }]
  | none, some missing =>
    final .skip ("Missing required term \"" ++ missing ++ "\"") 85 false
      [{ step := "required_terms", status := .blocked, reason := "missing required term \"" ++ missing ++ "\"" }]
  | none, none =>
    if signals.score.rejected then
      final .skip "Release scoring rejected this release" 90 false
        [{ step := "release_scoring", status := .blocked, reason := "release scoring rejected the release",
           score := some signals.score.value }]
    else
      let trace : List TraceStep :=
        [{ step := "release_scoring", status := .success,
           reason := "release score " ++ number rt signals.score.value, score := some signals.score.value }]
      let confidence : ℤ := 50 + if profile.minimumScore ≤ signals.score.value then 10 else -15
      if signals.library.ambiguous ∨ signals.watchlist.ambiguous then
        final .manualReview "Ambiguous match across library/watchlist" 35 true
          (trace ++ [{ step := "ambiguity", status := .warning,
                       reason := "multiple library/watchlist matches — needs a human" }])
      else if signals.watchlist.matched = false ∧ signals.library.needed = false ∧ signals.library.owned = false then
        final .skip "Not wanted (no watchlist match, no library gap)" 70 false
          (trace ++ [{ step := "desire", status := .info,
                       reason := "not on a watchlist and not a known library gap" }])
      else
        let matched : List TraceStep := if signals.watchlist.matched then
          [{ step := "watchlist_match", status := .success, reason := "matched an active watchlist item" }] else []
        let confidence := confidence + if signals.watchlist.matched then 20 else 0
        if signals.library.owned ∧ signals.library.needed = false then
          decideOwned signals profile (trace ++ matched)
        else
          let needed : List TraceStep := if signals.library.needed then
            [{ step := "library_need", status := .success, reason := "content is missing from the library" }] else []
          let confidence := confidence + if signals.library.needed then 15 else 0
          decideWanted rt signals profile confidence (trace ++ matched ++ needed)

/-! ### What an acquisition passed -/

/-- Whether something is added to the client, at once or after an approval. -/
def AcquisitionDecision.Acquires : AcquisitionDecision → Prop
  | .download | .upgradeExisting | .replaceExisting | .holdForApproval => True
  | .skip | .wait | .manualReview => False

/-- The rules that come before the library is asked. -/
structure Considered : Prop where
  excluded : ∀ term ∈ profile.excludedTerms, term ≠ "" → occurs rt signals term = false
  required : ∀ term ∈ profile.requiredTerms, term ≠ "" → occurs rt signals term = true
  scored : signals.score.rejected = false
  library : signals.library.ambiguous = false
  watchlist : signals.watchlist.ambiguous = false

structure PassesGates : Prop extends Considered rt signals profile where
  minimum : profile.minimumScore ≤ signals.score.value
  storage : signals.storage.ok = true

/-- Nothing asks for an approval. -/
structure Untriggered : Prop where
  forced : profile.approvalRequired = false
  score : profile.approvalScore ≤ signals.score.value
  duplicate : signals.duplicate = .low
  size : signals.sizeBytes.getD 0 ≤ largeFileBytes
  storage : signals.storage.nearThreshold = false

/-- Nothing is acquired past a gate, and nothing without an approval that a trigger asks for. -/
structure Sound (result : DecisionResult) : Prop where
  gates : result.decision.Acquires → PassesGates rt signals profile
  untriggered : result.decision = .download ∨
    result.decision = .upgradeExisting ∧ result.requiresApproval = false → Untriggered signals profile

/-- The release upgrades an owned copy that nothing else is needed for. -/
structure Upgrades : Prop where
  considered : Considered rt signals profile
  owned : signals.library.owned = true
  notNeeded : signals.library.needed = false
  newIsBetter : signals.library.newIsBetter = true
  allowUpgrades : profile.allowUpgrades = true
  duplicate : signals.duplicate ≠ .high

variable {rt signals profile}

theorem Sound.of_idle {result : DecisionResult} (h : ¬ result.decision.Acquires) :
    Sound rt signals profile result := by
  refine ⟨fun hacquires => absurd hacquires h, ?_⟩
  rintro (hdecision | ⟨hdecision, -⟩) <;>
    exact absurd (by rw [hdecision]; trivial) h

/-! ### The rules one by one -/

theorem excludedTerm_eq_none : excludedTerm rt signals profile = none ↔
    ∀ term ∈ profile.excludedTerms, term ≠ "" → occurs rt signals term = false := by
  simp [excludedTerm]

theorem missingRequired_eq_none : missingRequired rt signals profile = none ↔
    ∀ term ∈ profile.requiredTerms, term ≠ "" → occurs rt signals term = true := by
  simp [missingRequired]

theorem lowest {level : DuplicateLevel} (hmedium : level ≠ .medium) (hhigh : level ≠ .high) :
    level = .low := by
  cases level with
  | low => rfl
  | medium => exact absurd rfl hmedium
  | high => exact absurd rfl hhigh

/-- Without a reason to ask for one there is no trigger of an approval. -/
theorem untriggered_of_approvalReasons {confidence : ℤ}
    (h : approvalReasons rt signals profile confidence = []) : Untriggered signals profile := by
  simp only [approvalReasons, List.append_eq_nil_iff, ite_eq_right_iff, List.cons_ne_nil, imp_false,
    not_or, not_lt, Bool.not_eq_true] at h
  obtain ⟨⟨⟨⟨⟨hprofile, hscore⟩, hmedium, hhigh⟩, hsize⟩, hstorage⟩, -⟩ := h
  exact ⟨hprofile, hscore, lowest hmedium hhigh, hsize, hstorage⟩

theorem sound_decideWanted (h : Considered rt signals profile) (confidence : ℤ)
    (trace : List TraceStep) :
    Sound rt signals profile (decideWanted rt signals profile confidence trace) := by
  unfold decideWanted
  by_cases hminimum : signals.score.value < profile.minimumScore
  · rw [if_pos hminimum]
    exact .of_idle id
  rw [if_neg hminimum]
  by_cases hstorage : signals.storage.ok = false
  · rw [if_pos hstorage]
    exact .of_idle id
  rw [if_neg hstorage]
  have hgates : PassesGates rt signals profile :=
    { h with minimum := not_lt.1 hminimum, storage := Bool.eq_true_of_not_eq_false hstorage }
  by_cases hwait : profile.waitForBetter ∧ signals.library.owned = false ∧
      signals.score.value < profile.waitUntilScore
  · rw [if_pos hwait]
    exact .of_idle id
  rw [if_neg hwait]
  by_cases happroval : approvalReasons rt signals profile confidence = []
  · rw [if_neg (not_not.2 happroval)]
    exact ⟨fun _ => hgates, fun _ => untriggered_of_approvalReasons happroval⟩
  · rw [if_pos happroval]
    exact ⟨fun _ => hgates, by rintro (h | ⟨h, -⟩) <;> cases h⟩

theorem decideOwned_of_upgrades (h : Upgrades rt signals profile) (trace : List TraceStep) :
    (decideOwned signals profile trace).decision = .upgradeExisting ∧
      ((decideOwned signals profile trace).requiresApproval = true ↔
        signals.score.value < profile.approvalScore ∨ signals.duplicate = .medium ∨
          profile.approvalRequired = true) := by
  rw [decideOwned, if_pos ⟨h.newIsBetter, h.allowUpgrades, h.duplicate⟩]
  exact ⟨rfl, decide_eq_true_iff⟩

theorem sound_decideOwned (h : ¬ (signals.library.newIsBetter = true ∧
    profile.allowUpgrades = true ∧ signals.duplicate ≠ .high)) (trace : List TraceStep) :
    Sound rt signals profile (decideOwned signals profile trace) := by
  rw [decideOwned, if_neg h]
  exact .of_idle id

theorem decide_cases (rt : Runtime) (signals : DecisionSignals) (profile : DecisionProfile) :
    Sound rt signals profile (decide rt signals profile) ∧
      ¬ Upgrades rt signals profile ∨
    Considered rt signals profile ∧
      ((signals.library.owned = true ∧ signals.library.needed = false ∧
        ∃ trace, decide rt signals profile = decideOwned signals profile trace) ∨
      ¬ (signals.library.owned = true ∧ signals.library.needed = false) ∧
        ∃ confidence trace,
          decide rt signals profile = decideWanted rt signals profile confidence trace) := by
  unfold decide
  cases hexcluded : excludedTerm rt signals profile with
  | some term =>
    refine .inl ⟨.of_idle id, fun h => ?_⟩
    rw [excludedTerm_eq_none.2 h.considered.excluded] at hexcluded
    cases hexcluded
  | none =>
    cases hrequired : missingRequired rt signals profile with
    | some term =>
      refine .inl ⟨.of_idle id, fun h => ?_⟩
      rw [missingRequired_eq_none.2 h.considered.required] at hrequired
      cases hrequired
    | none =>
      dsimp only
      by_cases hscored : signals.score.rejected = true
      · rw [if_pos hscored]
        exact .inl ⟨.of_idle id, fun h => absurd hscored (ne_true_of_eq_false h.considered.scored)⟩
      rw [if_neg hscored]
      by_cases hambiguous : signals.library.ambiguous = true ∨ signals.watchlist.ambiguous = true
      · rw [if_pos hambiguous]
        refine .inl ⟨.of_idle id, fun h => ?_⟩
        simp [h.considered.library, h.considered.watchlist] at hambiguous
      rw [if_neg hambiguous]
      have hconsidered : Considered rt signals profile :=
        ⟨excludedTerm_eq_none.1 hexcluded, missingRequired_eq_none.1 hrequired,
          eq_false_of_ne_true hscored, eq_false_of_ne_true fun h => hambiguous (.inl h),
          eq_false_of_ne_true fun h => hambiguous (.inr h)⟩
      by_cases hunwanted : signals.watchlist.matched = false ∧ signals.library.needed = false ∧
          signals.library.owned = false
      · rw [if_pos hunwanted]
        exact .inl ⟨.of_idle id, fun h => absurd h.owned (ne_true_of_eq_false hunwanted.2.2)⟩
      rw [if_neg hunwanted]
      by_cases howned : signals.library.owned = true ∧ signals.library.needed = false
      · rw [if_pos howned]
        exact .inr ⟨hconsidered, .inl ⟨howned.1, howned.2, _, rfl⟩⟩
      · rw [if_neg howned]
        exact .inr ⟨hconsidered, .inr ⟨howned, _, _, rfl⟩⟩

end

/-- The decision is sound but for an upgrade, of which nothing checks the minimum score, the storage
rule, the size and the room that is left. -/
theorem decide_sound_iff (rt : Runtime) (signals : DecisionSignals) (profile : DecisionProfile) :
    Sound rt signals profile (decide rt signals profile) ↔
      (Upgrades rt signals profile → profile.minimumScore ≤ signals.score.value ∧
        signals.storage.ok = true ∧
        ((signals.score.value < profile.approvalScore ∨ signals.duplicate = .medium ∨
            profile.approvalRequired = true) ∨
          signals.sizeBytes.getD 0 ≤ largeFileBytes ∧ signals.storage.nearThreshold = false)) := by
  obtain ⟨hsound, hupgrades⟩ | ⟨hconsidered, ⟨howned, hneeded, trace, hresult⟩ |
      ⟨hwanted, confidence, trace, hresult⟩⟩ :=
    decide_cases rt signals profile
  · exact ⟨fun _ h => absurd h hupgrades, fun _ => hsound⟩
  · rw [hresult]
    by_cases hbetter : signals.library.newIsBetter = true ∧ profile.allowUpgrades = true ∧
        signals.duplicate ≠ .high
    · have hupgrades : Upgrades rt signals profile :=
        ⟨hconsidered, howned, hneeded, hbetter.1, hbetter.2.1, hbetter.2.2⟩
      obtain ⟨hdecision, happroval⟩ := decideOwned_of_upgrades hupgrades trace
      refine ⟨fun h _ => ?_, fun h => ?_⟩
      · have hgates := h.gates (by rw [hdecision]; trivial)
        refine ⟨hgates.minimum, hgates.storage, or_iff_not_imp_left.2 fun hfree => ?_⟩
        have huntriggered := h.untriggered (.inr ⟨hdecision, eq_false_of_ne_true (mt happroval.1 hfree)⟩)
        exact ⟨huntriggered.size, huntriggered.storage⟩
      · obtain ⟨hminimum, hstorage, hroom⟩ := h hupgrades
        refine ⟨fun _ => { hconsidered with minimum := hminimum, storage := hstorage }, ?_⟩
        rintro (hdownload | ⟨-, hfree⟩)
        · rw [hdecision] at hdownload
          cases hdownload
        · have hfree := mt happroval.2 (ne_true_of_eq_false hfree)
          have hroom := hroom.resolve_left hfree
          simp only [not_or, not_lt, Bool.not_eq_true] at hfree
          exact ⟨hfree.2.2, hfree.1, lowest hfree.2.1 hbetter.2.2, hroom.1, hroom.2⟩
    · refine ⟨fun _ h => ?_, fun _ => sound_decideOwned hbetter trace⟩
      exact absurd ⟨h.newIsBetter, h.allowUpgrades, h.duplicate⟩ hbetter
  · rw [hresult]
    refine ⟨fun _ h => absurd ⟨h.owned, h.notNeeded⟩ hwanted, fun _ => ?_⟩
    exact sound_decideWanted hconsidered confidence trace

/-- A better copy of what is owned, below the minimum score. -/
def poorUpgrade : DecisionSignals where
  score := { value := 40 }
  watchlist := { matched := true }
  library := { needed := false, owned := true, newIsBetter := true }
  duplicate := .low
  storage := { ok := true }
  titleLower := "the wire s01e01 1080p"

/-- The profile of the tests, with a lower approval score. -/
def lenientProfile : DecisionProfile where
  minimumScore := 60
  approvalScore := 30
  excludedTerms := []
  requiredTerms := []
  allowUpgrades := true
  approvalRequired := false
  waitForBetter := false
  waitUntilScore := 0

/-- An upgrade is decided on although its score is below the minimum. -/
theorem upgrade_below_minimum :
    ¬ Sound .ascii poorUpgrade lenientProfile (decide .ascii poorUpgrade lenientProfile) := by
  intro h
  have hgates := h.gates trivial
  exact absurd hgates.minimum (by norm_num [poorUpgrade, lenientProfile])

end UltraTorrent.Acquisition.DecisionEngine
