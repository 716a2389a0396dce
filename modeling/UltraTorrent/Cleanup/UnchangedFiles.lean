import UltraTorrent.Cleanup.MissedDrift

/-! The fingerprint of a file whose rows stay as they were. The facts are taken at an instant, and
the scan alone is told which items are playing and seeding; so the string changes with the number
of whole days a policy reads, with a session that was on, and with the end of a protection. -/
namespace UltraTorrent.Cleanup.UnchangedFiles

open Library.EcmaScript Library.Kleene
open PlaybackAggregate (PlaybackAggregateFacts)
open PolicyEvaluator PolicyDocument PolicyValidator FactAssembly ProtectionMatcher ProtectionService
  CandidateFingerprint TypedComparisons PinnedState MissedDrift

/-- The rows of a file, its item and the library it is in, its playback aggregate, its jobs and the
protections. -/
structure MediaRows where
  file : RawMediaFile
  item : RawMediaItem
  libraryKind : Option String
  playback : Option PlaybackAggregateFacts
  activeJobs : ℕ
  protections : List ProtectionRecord

/-- The context of a file, apart from its protection state. -/
def buildContext (rows : MediaRows) (playingItemIds seedingItemIds : List String) : RawContext where
  libraryKind := rows.libraryKind
  playback := rows.playback
  activePlayback := playingItemIds.contains rows.item.id
  seedingItemIds := some seedingItemIds
  hasActiveJob := 0 < rows.activeJobs

/-- A file as the fingerprint finds it at an instant. -/
def stateAt (rt : Runtime) (cwd : String) (rows : MediaRows) (now : Instant)
    (playingItemIds seedingItemIds : List String) : FileState where
  file := rows.file
  item := rows.item
  context := buildContext rows playingItemIds seedingItemIds
  found := (evaluate rt cwd rows.protections (discoveryTarget rows.item rows.file) now).found
  clock := now

/-- The fingerprint of a candidate that a scan creates. -/
def scanFingerprint (rt : Runtime) (sha256 : String → String) (cwd : String) (rows : MediaRows)
    (now : Instant) (playingItemIds seedingItemIds : List String) (policyVersionId : String)
    (conditions : PolicyConditionNode) : String :=
  candidateFingerprint rt sha256
    ((stateAt rt cwd rows now playingItemIds seedingItemIds).input rt policyVersionId conditions)

/-- The catalogue holds these rows and this version of the policy; nothing is asked about sessions
or torrents when the fingerprint is taken again. -/
structure Holds (catalogue : Catalogue) (rows : MediaRows) (policyVersionId : String)
    (conditions : PolicyConditionNode) : Prop where
  version : catalogue.conditions policyVersionId = some conditions
  file : catalogue.file rows.file.id = some (rows.file, rows.item)
  context : catalogue.context rows.item rows.file = buildContext rows [] []

variable {rt : Runtime} {cwd : String} {rows : MediaRows} {catalogue : Catalogue}
  {policyVersionId field : String} {conditions : PolicyConditionNode} {now t u : Instant}
  {playing seeding : List String}

theorem fingerprintNow_of_holds {sha256 : String → String}
    (h : Holds catalogue rows policyVersionId conditions) :
    fingerprintNow rt sha256 cwd catalogue rows.protections now rows.file.id policyVersionId =
      some (sha256 ((stateAt rt cwd rows now [] []).hashed rt policyVersionId conditions)) := by
  rw [fingerprintNow_eq h.version h.file, stateNow, h.context]
  rfl

/-! ### What moves -/

/-- The facts that depend on the instant, or on what only the scan is told. -/
def movingFields : List String :=
  ["playback.daysSinceLastPlay", "storage.fileAgeDays", "storage.addedAgeDays", "safety.isProtected",
    "safety.activePlayback", "safety.activelySeeding"]

/-- Two records with the same names, and the same values apart from some names. -/
def Beside (names : List String) (a b : String × Value) : Prop :=
  a.1 = b.1 ∧ (a.2 = b.2 ∨ a.1 ∈ names)

theorem lookup_beside {names : List String} {xs ys : List (String × Value)}
    (h : List.Forall₂ (Beside names) xs ys) {name : String} (hname : name ∉ names) :
    xs.lookup name = ys.lookup name := by
  induction h with
  | nil => rfl
  | @cons a b xs ys hab _ ih =>
    obtain ⟨key, value⟩ := a
    obtain ⟨_, value'⟩ := b
    obtain ⟨rfl, hvalue⟩ := hab
    rw [List.lookup_cons, List.lookup_cons, ih]
    cases hbeq : name == key with
    | false => rfl
    | true =>
      rw [beq_iff_eq] at hbeq
      have hsame : value = value' := hvalue.resolve_right (hbeq ▸ hname)
      rw [hsame]

/-- No other fact moves. -/
theorem pinned_still (hfield : field ∉ movingFields) (playing seeding : List String)
    (t u : Instant) :
    pinned ((stateAt rt cwd rows t playing seeding).facts rt) field =
      pinned ((stateAt rt cwd rows u [] []).facts rt) field := by
  unfold pinned
  rw [lookup_beside ?_ hfield]
  unfold FileState.facts stateAt assembleEvaluationFacts metadataFacts technicalFacts storageFacts safetyFacts
  cases hplayback : rows.playback with
  | none =>
    simp [flattenFacts, Beside, movingFields, buildContext, hplayback, playbackFacts]
  | some p =>
    simp [flattenFacts, Beside, movingFields, buildContext, hplayback, playbackFacts]

/-- The instants an age is counted from. -/
def startOf (rows : MediaRows) (field : String) : Option Instant :=
  if field = "playback.daysSinceLastPlay" then rows.playback.bind (·.lastPlayedAt)
  else if field = "storage.fileAgeDays" then rows.file.modifiedAt
  else earliest rows.item.createdAt rows.file.modifiedAt

def ageFields : List String :=
  ["playback.daysSinceLastPlay", "storage.fileAgeDays", "storage.addedAgeDays"]

/-- An age is the number of whole days since its start. -/
theorem pinned_age (hfield : field ∈ ageFields) (now : Instant)
    (playing seeding : List String) :
    pinned ((stateAt rt cwd rows now playing seeding).facts rt) field =
      .ofOption int (daysBetween (startOf rows field) now) := by
  simp only [ageFields, List.mem_cons, List.not_mem_nil, or_false] at hfield
  rcases hfield with rfl | rfl | rfl
  · refine (pinned_facts _ "daysSinceLastPlay" (by decide : '.' ∉ "playback".toList)).trans ?_
    have hfacts : ∀ playback : Option PlaybackAggregateFacts,
        (playbackFacts playback now).get "daysSinceLastPlay" =
          .ofOption int (daysBetween (playback.bind (·.lastPlayedAt)) now) := by
      intro playback
      cases playback <;> rfl
    exact hfacts rows.playback
  · exact pinned_facts _ "fileAgeDays" (by decide : '.' ∉ "storage".toList)
  · exact pinned_facts _ "addedAgeDays" (by decide : '.' ∉ "storage".toList)

theorem pinned_playing (now : Instant) (playing seeding : List String) : pinned ((stateAt rt cwd rows now playing seeding).facts rt)
    "safety.activePlayback" = .bool (playing.contains rows.item.id) :=
  pinned_facts _ "activePlayback" (by decide : '.' ∉ "safety".toList)

theorem pinned_seeding (now : Instant) (playing seeding : List String) : pinned ((stateAt rt cwd rows now playing seeding).facts rt)
    "safety.activelySeeding" = .bool (seeding.contains rows.item.id) :=
  pinned_facts _ "activelySeeding" (by decide : '.' ∉ "safety".toList)

theorem pinned_protected (now : Instant) (playing seeding : List String) : pinned ((stateAt rt cwd rows now playing seeding).facts rt)
    "safety.isProtected" = .bool
      (!(evaluate rt cwd rows.protections (discoveryTarget rows.item rows.file) now).found.isEmpty) :=
  pinned_facts _ "isProtected" (by decide : '.' ∉ "safety".toList)

/-- What moves is a number or a flag, or missing. -/
theorem moving_ofType (rt : Runtime) (cwd : String) (rows : MediaRows) (hfield : field ∈ movingFields) :
    ∃ dataType, dataType ≠ .strings ∧ ∀ (now : Instant) (playing seeding : List String),
      (pinned ((stateAt rt cwd rows now playing seeding).facts rt) field = .undefined ∨
        OfType dataType (pinned ((stateAt rt cwd rows now playing seeding).facts rt) field)) ∧
      Written (pinned ((stateAt rt cwd rows now playing seeding).facts rt) field) := by
  have hflag : ∀ {value : Value} {flag : Bool}, value = .bool flag →
      (value = .undefined ∨ OfType .boolean value) ∧ Written value := by
    rintro value flag rfl
    exact ⟨.inr ⟨flag, rfl⟩, nofun⟩
  by_cases hage : field ∈ ageFields
  · refine ⟨.number, nofun, fun now playing seeding => ?_⟩
    rw [pinned_age hage]
    cases daysBetween (startOf rows field) now with
    | none => exact ⟨.inl rfl, nofun⟩
    | some days => exact ⟨.inr ⟨_, rfl⟩, nofun⟩
  · have hrest : field ∈ ["safety.isProtected", "safety.activePlayback", "safety.activelySeeding"] :=
      (List.mem_append.1 (show field ∈ ageFields ++ _ from hfield)).resolve_left hage
    refine ⟨.boolean, nofun, fun now playing seeding => ?_⟩
    simp only [List.mem_cons, List.not_mem_nil, or_false] at hrest
    rcases hrest with rfl | rfl | rfl
    · exact hflag (pinned_protected now playing seeding)
    · exact hflag (pinned_playing now playing seeding)
    · exact hflag (pinned_seeding now playing seeding)

theorem factText_eq_iff (hrt : Faithful rt) (field : String) (t u : Instant)
    (playing seeding : List String) :
    factText rt ((stateAt rt cwd rows t playing seeding).input rt policyVersionId conditions) field =
      factText rt ((stateAt rt cwd rows u [] []).input rt policyVersionId conditions) field ↔
    pinned ((stateAt rt cwd rows t playing seeding).facts rt) field =
      pinned ((stateAt rt cwd rows u [] []).facts rt) field := by
  by_cases hfield : field ∈ movingFields
  · obtain ⟨dataType, hlists, htype⟩ := moving_ofType rt cwd rows hfield
    exact stringify_inj_iff hrt hlists (htype t playing seeding).1 (htype u [] []).1
      (htype t playing seeding).2 (htype u [] []).2
  · have hstill : pinned ((stateAt rt cwd rows t playing seeding).facts rt) field =
        pinned ((stateAt rt cwd rows u [] []).facts rt) field := pinned_still hfield playing seeding t u
    exact iff_of_true (congrArg (stringify rt) hstill) hstill

/-- The ids of the protections that cover the file at an instant. -/
def coveringIds (rt : Runtime) (cwd : String) (rows : MediaRows) (now : Instant) : List String :=
  (evaluate rt cwd rows.protections (discoveryTarget rows.item rows.file) now).found.map (·.id)

theorem mem_protections_of_covering {id : String} (h : id ∈ coveringIds rt cwd rows now) :
    ∃ p ∈ rows.protections, p.id = id := by
  obtain ⟨m, hm, rfl⟩ := List.mem_map.1 h
  obtain ⟨p, hp, hmatch⟩ := List.mem_filterMap.1 hm
  refine ⟨p, List.mem_of_mem_filter (List.mem_of_mem_take hp), ?_⟩
  unfold matchOf at hmatch
  split at hmatch
  · cases hmatch
  · split at hmatch
    · cases hmatch
    · split_ifs at hmatch
      cases hmatch
      rfl

/-! ### A file whose rows stay -/

/-- Of what the policy reads, the ages are the same in whole days, the item was not on and not
seeding at the scan, and the same protections cover the file. -/
structure Still (rt : Runtime) (cwd : String) (rows : MediaRows) (fields : List String)
    (playingItemIds seedingItemIds : List String) (scanned now : Instant) : Prop where
  ages : ∀ field ∈ fields, field ∈ ageFields →
    daysBetween (startOf rows field) scanned = daysBetween (startOf rows field) now
  playing : "safety.activePlayback" ∈ fields → rows.item.id ∉ playingItemIds
  seeding : "safety.activelySeeding" ∈ fields → rows.item.id ∉ seedingItemIds
  covered : (coveringIds rt cwd rows scanned).Perm (coveringIds rt cwd rows now)

theorem ofOption_int_inj {a b : Option ℤ} : Value.ofOption int a = .ofOption int b ↔ a = b := by
  cases a <;> cases b <;> simp [Value.ofOption, int]

/-- What the fingerprint finds is the same just when nothing that is read moved. -/
theorem pinned_eq_iff_still {fields : List String}
    (hcovered : (coveringIds rt cwd rows t).Perm (coveringIds rt cwd rows u)) :
    (∀ field ∈ fields, pinned ((stateAt rt cwd rows t playing seeding).facts rt) field =
      pinned ((stateAt rt cwd rows u [] []).facts rt) field) ↔
    Still rt cwd rows fields playing seeding t u := by
  have hages : ∀ {field}, field ∈ ageFields →
      (pinned ((stateAt rt cwd rows t playing seeding).facts rt) field =
        pinned ((stateAt rt cwd rows u [] []).facts rt) field ↔
      daysBetween (startOf rows field) t = daysBetween (startOf rows field) u) := by
    intro field hfield
    rw [pinned_age hfield, pinned_age hfield, ofOption_int_inj]
  have hplaying : pinned ((stateAt rt cwd rows t playing seeding).facts rt) "safety.activePlayback" =
      pinned ((stateAt rt cwd rows u [] []).facts rt) "safety.activePlayback" ↔
        rows.item.id ∉ playing := by
    rw [pinned_playing, pinned_playing]
    simp
  have hseeding : pinned ((stateAt rt cwd rows t playing seeding).facts rt) "safety.activelySeeding" =
      pinned ((stateAt rt cwd rows u [] []).facts rt) "safety.activelySeeding" ↔
        rows.item.id ∉ seeding := by
    rw [pinned_seeding, pinned_seeding]
    simp
  have hprotected : pinned ((stateAt rt cwd rows t playing seeding).facts rt) "safety.isProtected" =
      pinned ((stateAt rt cwd rows u [] []).facts rt) "safety.isProtected" := by
    have hlength := hcovered.length_eq
    simp only [coveringIds, List.length_map] at hlength
    rw [pinned_protected, pinned_protected, Value.bool.injEq, Bool.not_inj_iff, Bool.eq_iff_iff,
      List.isEmpty_iff_length_eq_zero, List.isEmpty_iff_length_eq_zero, hlength]
  constructor
  · intro h
    exact
      { ages := fun field hfield hage => (hages hage).1 (h field hfield)
        playing := fun hfield => hplaying.1 (h _ hfield)
        seeding := fun hfield => hseeding.1 (h _ hfield)
        covered := hcovered }
  · intro h field hfield
    by_cases hmoving : field ∈ movingFields
    · by_cases hage : field ∈ ageFields
      · exact (hages hage).2 (h.ages field hfield hage)
      · have hrest := (List.mem_append.1 (show field ∈ ageFields ++
          ["safety.isProtected", "safety.activePlayback", "safety.activelySeeding"]
          from hmoving)).resolve_left hage
        simp only [List.mem_cons, List.not_mem_nil, or_false] at hrest
        rcases hrest with rfl | rfl | rfl
        · exact hprotected
        · exact hplaying.2 (h.playing hfield)
        · exact hseeding.2 (h.seeding hfield)
    · exact pinned_still hmoving playing seeding t u

/-- A file whose rows stay is taken for the one that was approved just when nothing moved that the
policy reads, and the same protections cover it. -/
theorem fingerprint_kept_iff (rt : Runtime) (hrt : Faithful rt) (sha256 : String → String) (cwd : String)
    (rows : MediaRows) (catalogue : Catalogue) (policyVersionId : String)
    (conditions : PolicyConditionNode) (hholds : Holds catalogue rows policyVersionId conditions)
    (hids : ∀ p ∈ rows.protections, ',' ∉ p.id.toList ∧ OneLine p.id) (scanned now : Instant)
    (playingItemIds seedingItemIds : List String)
    (hsha : sha256 ((stateAt rt cwd rows now [] []).hashed rt policyVersionId conditions) =
        sha256 ((stateAt rt cwd rows scanned playingItemIds seedingItemIds).hashed rt policyVersionId
          conditions) →
      (stateAt rt cwd rows now [] []).hashed rt policyVersionId conditions =
        (stateAt rt cwd rows scanned playingItemIds seedingItemIds).hashed rt policyVersionId conditions) :
    fingerprintNow rt sha256 cwd catalogue rows.protections now rows.file.id policyVersionId =
      some (scanFingerprint rt sha256 cwd rows scanned playingItemIds seedingItemIds policyVersionId
        conditions) ↔
    Still rt cwd rows (collectFieldIds conditions) playingItemIds seedingItemIds scanned now := by
  have hstrings : fingerprintNow rt sha256 cwd catalogue rows.protections now rows.file.id
      policyVersionId = some (scanFingerprint rt sha256 cwd rows scanned playingItemIds seedingItemIds
        policyVersionId conditions) ↔
      (stateAt rt cwd rows scanned playingItemIds seedingItemIds).hashed rt policyVersionId conditions =
        (stateAt rt cwd rows now [] []).hashed rt policyVersionId conditions := by
    rw [fingerprintNow_of_holds hholds, Option.some.injEq]
    exact ⟨fun h => (hsha h).symm, fun h => congrArg sha256 h.symm⟩
  have hcovering : ∀ now, ∀ id ∈ coveringIds rt cwd rows now, ',' ∉ id.toList ∧ OneLine id := by
    intro now id hid
    obtain ⟨p, hp, rfl⟩ := mem_protections_of_covering hid
    exact hids p hp
  have hfacts : ∀ field ∈ collectFieldIds conditions, FactsInLine rt
      ((stateAt rt cwd rows scanned playingItemIds seedingItemIds).input rt policyVersionId conditions)
      ((stateAt rt cwd rows now [] []).input rt policyVersionId conditions) field := by
    intro field _
    by_cases hmoving : field ∈ movingFields
    · have hline : ∀ field ∈ movingFields, OneLine field := by decide
      obtain ⟨dataType, hlists, htype⟩ := moving_ofType rt cwd rows hmoving
      obtain ⟨hscanned, hwritten⟩ := htype scanned playingItemIds seedingItemIds
      obtain ⟨hnow, hwritten'⟩ := htype now [] []
      exact .inr ⟨hline field hmoving, oneLine_stringify hrt hlists hscanned hwritten,
        oneLine_stringify hrt hlists hnow hwritten'⟩
    · exact .inl ((factText_eq_iff hrt field _ _ _ _).2 (pinned_still hmoving _ _ _ _))
  have hrender := render_eq_iff rt
    ((stateAt rt cwd rows scanned playingItemIds seedingItemIds).input rt policyVersionId conditions)
    ((stateAt rt cwd rows now [] []).input rt policyVersionId conditions) rfl rfl rfl rfl (.inl rfl)
    (.inr ⟨oneLine_joined fun id hid => (hcovering scanned id hid).2,
      oneLine_joined fun id hid => (hcovering now id hid).2⟩) hfacts
  have hfound : ((stateAt rt cwd rows scanned playingItemIds seedingItemIds).input rt policyVersionId
        conditions).isProtected =
      ((stateAt rt cwd rows now [] []).input rt policyVersionId conditions).isProtected ∧
      protectionText ((stateAt rt cwd rows scanned playingItemIds seedingItemIds).input rt
        policyVersionId conditions) =
      protectionText ((stateAt rt cwd rows now [] []).input rt policyVersionId conditions) ↔
      (coveringIds rt cwd rows scanned).Perm (coveringIds rt cwd rows now) :=
    protections_eq_iff (fun id hid => (hcovering scanned id hid).1) fun id hid => (hcovering now id hid).1
  rw [hstrings, FileState.hashed, FileState.hashed, hrender]
  constructor
  · rintro ⟨-, -, -, -, hprotected, hprotections, htexts⟩
    refine (pinned_eq_iff_still (hfound.1 ⟨hprotected, hprotections⟩)).1 fun field hfield => ?_
    exact (factText_eq_iff hrt field _ _ _ _).1 (htexts field hfield)
  · intro hstill
    obtain ⟨hprotected, hprotections⟩ := hfound.2 hstill.covered
    refine ⟨rfl, rfl, rfl, rfl, hprotected, hprotections, fun field hfield => ?_⟩
    exact (factText_eq_iff hrt field _ _ _ _).2
      ((pinned_eq_iff_still hstill.covered).2 hstill field hfield)

def longUnplayed : PolicyConditionLeaf :=
  ⟨"playback.daysSinceLastPlay", .gt, .number (.fin 365), false⟩

/-- A film that was played once, at the epoch. -/
def oncePlayed : MediaRows where
  file := fullHd
  item := { id := "item", libraryId := "films" }
  libraryKind := some "movie"
  playback := some
    { startedPlayCount := 1, completedPlayCount := 1, uniqueViewerCount := 1, lastPlayedAt := some 0,
      maximumProgressPercent := 100, averageProgressPercent := 100, totalPlaybackSeconds := 7200,
      sourceRowCount := 1, measuredProgressRowCount := 1, completionThresholdPercent := 90 }
  activeJobs := 0
  protections := []

def filmCatalogue : Catalogue where
  file id := if id = "file" then some (oncePlayed.file, oncePlayed.item) else none
  conditions version := if version = "v1" then some (.leaf longUnplayed) else none
  context _ _ := buildContext oncePlayed [] []

/-- Some hours into the four hundredth day. -/
def hours (n : ℤ) : Instant := 400 * dayMs + n * 3600000

/-- Within one day the film is found as it was approved. -/
theorem same_day_kept :
    fingerprintNow .ascii id "/" filmCatalogue oncePlayed.protections (hours 2) oncePlayed.file.id "v1" =
      some (scanFingerprint .ascii id "/" oncePlayed (hours 1) [] [] "v1" (.leaf longUnplayed)) := by
  have hholds : Holds filmCatalogue oncePlayed "v1" (.leaf longUnplayed) := ⟨rfl, rfl, rfl⟩
  refine (fingerprint_kept_iff .ascii faithful_ascii id "/" oncePlayed filmCatalogue "v1"
    (.leaf longUnplayed) hholds (List.forall_mem_nil _) (hours 1) (hours 2) [] [] ?_).2 ?_
  · intro h
    rwa [id_eq, id_eq] at h
  · have huncovered : ∀ now, coveringIds .ascii "/" oncePlayed now = [] := fun _ => rfl
    refine ⟨fun field hfield _ => ?_, fun _ => List.not_mem_nil, fun _ => List.not_mem_nil, ?_⟩
    · rw [List.mem_singleton.1 (show field ∈ [longUnplayed.field] from hfield)]
      decide
    · rw [huncovered, huncovered]

/-- Overnight, with nothing changed and the policy still matching, the film is taken for another. -/
theorem overnight_refused : (validatePolicyDocument .ascii 500 0 (reportOn longUnplayed)).valid = true ∧
    (evaluatePolicy .ascii (.leaf longUnplayed)
      ((stateAt .ascii "/" oncePlayed (hours (-1)) [] []).facts .ascii)).outcome = .yes ∧
    (evaluatePolicy .ascii (.leaf longUnplayed)
      ((stateAt .ascii "/" oncePlayed (hours 1) [] []).facts .ascii)).outcome = .yes ∧
    fingerprintNow .ascii id "/" filmCatalogue [] (hours 1) "file" "v1" ≠
      some (scanFingerprint .ascii id "/" oncePlayed (hours (-1)) [] [] "v1" (.leaf longUnplayed)) :=
  ⟨by rfl, by rfl, by rfl, by decide +kernel⟩

end UltraTorrent.Cleanup.UnchangedFiles
