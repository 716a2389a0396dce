import UltraTorrent.Cleanup.PlanExecutor

/-! Protection at the moments a file can be lost. The executor and both purges ask the
registry with an item, a file and a path, so a protection by anything else is not seen
there. -/
namespace UltraTorrent.Cleanup.ProtectionCoverage

open Library.EcmaScript Library.PosixPath
open ProtectionMatcher ProtectionService CandidateFingerprint Quarantine PlanExecutor

/-- A target known by its item, its file and its path only. -/
def bareTarget (item file : Option String) (path : String) : ProtectionTarget where
  mediaItemId := item
  mediaFileId := file
  path := some path

/-- The protection names the file itself, its item, or a folder above the path. -/
def Answers (cwd : String) (p : ProtectionRecord) (item file : Option String) (path : String) : Prop :=
  p.targetType = .mediaFile ∧ named p.mediaFileId file = true ∨
    p.targetType = .mediaItem ∧ named p.mediaItemId item = true ∨
    p.targetType = .pathPrefix ∧
      ∃ parent, p.pathPrefix = some parent ∧ isPathInside cwd path parent = true

/-- One of the rows a question reads answers it. -/
def Recognised (s : Storage) (item file : Option String) (path : String) (now : Instant) : Prop :=
  ∃ p ∈ loaded s.registry now, Answers s.cwd p item file path

/-- A protection the registry accepted covers the target, given all that is stored of it. -/
def UnderProtection (s : Storage) (t : ProtectionTarget) (now : Instant) : Prop :=
  ∃ p ∈ s.registry, Accepted p ∧ Covers s.rt s.cwd p t now

/-- The stored facts of a file, with the ids and the path of an action on it. -/
def actionTarget (facts : ProtectionTarget) (action : CleanupAction) : ProtectionTarget :=
  { facts with
    mediaItemId := action.mediaItemId
    mediaFileId := action.mediaFileId
    path := some action.sourcePath }

/-- The same for a file in quarantine, at the path it came from. -/
def rowTarget (s : Storage) (facts : ProtectionTarget) (row : QuarantineItem) : ProtectionTarget :=
  { facts with
    mediaItemId := row.mediaItemId
    mediaFileId := row.mediaFileId
    path := some (resolve s.cwd (row.storageRoot ++ "/" ++ row.originalPath)) }

/-! ### What a bare question finds -/

theorem named_none (a : Option String) : named a none = false := by
  cases a with
  | none => rfl
  | some text => simp [named]

theorem isPathInside_ne_empty {cwd child parent : String} (h : isPathInside cwd child parent = true) :
    parent ≠ "" ∧ child ≠ "" := by
  unfold isPathInside at h
  split_ifs at h with hempty
  rw [not_or] at hempty
  exact ⟨hempty.2, hempty.1⟩

theorem scopeMatch_bareTarget (rt : Runtime) (cwd : String) (p : ProtectionRecord)
    (item file : Option String) (path : String) :
    (scopeMatch rt cwd p (bareTarget item file path)).isSome ↔ Answers cwd p item file path := by
  unfold Answers
  cases htype : p.targetType with
  | mediaFile =>
    cases h : named p.mediaFileId file <;> simp [scopeMatch, htype, bareTarget, h]
  | mediaItem =>
    cases h : named p.mediaItemId item <;> simp [scopeMatch, htype, bareTarget, h]
  | «show» | season | episode | library => simp [scopeMatch, htype, bareTarget, named_none]
  | pathPrefix =>
    cases hparent : p.pathPrefix with
    | none => simp [scopeMatch, htype, hparent]
    | some parent =>
      cases hinside : isPathInside cwd path parent with
      | false => simp [scopeMatch, htype, hparent, bareTarget, hinside]
      | true =>
        obtain ⟨hp, hc⟩ := isPathInside_ne_empty hinside
        simp [scopeMatch, htype, hparent, bareTarget, hinside, hp, hc]
  | tag => cases htag : p.tagValue <;> simp [scopeMatch, htype, htag, bareTarget]
  | collection => cases hid : p.collectionId <;> simp [scopeMatch, htype, hid, bareTarget]
  | watchlist => simp [scopeMatch, htype, bareTarget]
  | torrent => cases hhash : p.torrentHash <;> simp [scopeMatch, htype, hhash, bareTarget]
  | externalIdentity =>
    cases hkey : p.externalIdentityKey <;> simp [scopeMatch, htype, hkey, bareTarget]
  | other text => simp [scopeMatch, htype]

theorem isInactive_of_mem_loaded {registry : List ProtectionRecord} {now : Instant}
    {p : ProtectionRecord} (h : p ∈ loaded registry now) : isInactive p now = false := by
  have hactive := (List.mem_filter.1 (List.mem_of_mem_take h)).2
  rw [Bool.and_eq_true] at hactive
  obtain ⟨hrevoked, hwindow⟩ := hactive
  unfold isInactive
  rw [Option.isNone_iff_eq_none.1 hrevoked]
  cases huntil : p.protectedUntil with
  | none => rfl
  | some t =>
    rw [huntil] at hwindow
    simpa using hwindow

/-- Conditions stay protective when nothing is known, so naming the file is enough. -/
theorem evaluate_bareTarget (s : Storage) (item file : Option String) (path : String) (now : Instant) :
    (evaluate s.rt s.cwd s.registry (bareTarget item file path) now).isProtected = true ↔
      Recognised s item file path now := by
  rw [evaluate, isProtected_iff]
  apply exists_congr
  intro p
  apply and_congr_right
  intro hp
  rw [← scopeMatch_bareTarget s.rt]
  constructor
  · exact fun h => h.2.1
  · exact fun h => ⟨isInactive_of_mem_loaded hp, h,
      fun _ => conditionHolds_of_unknown rfl rfl rfl rfl rfl rfl⟩

/-! ### The executor -/

/-- The destination is none the executor knows, or the service behind it fails. -/
def DestinationFails (w : World) (action : CleanupAction) (plan : CleanupPlan) (abs : String)
    (now : Instant) : Prop :=
  (action.actionType = "quarantine" → ∀ item, quarantine w.toStorage abs action.pinnedFingerprint
      action.mediaItemId action.mediaFileId plan.retentionDays w.uuid now ≠ .ok item) ∧
    (action.actionType = "trash" → ∀ path, w.trash abs ≠ .ok path)

/-- Something else than protection leaves the file alone: it is gone, it is locked, a job
is at work on it, it has drifted from the approved fingerprint, or the destination fails. -/
def StoppedOtherwise (w : World) (action : CleanupAction) (plan : CleanupPlan) (abs : String)
    (now : Instant) : Prop :=
  w.pathExists abs = false ∨ isLocked w action = true ∨ isBusy w action = true ∨
    (detectDrift w action plan now).isSome = true ∨ DestinationFails w action plan abs now

theorem perform_keeps_iff (w : World) (action : CleanupAction) (plan : CleanupPlan) (abs : String)
    (now : Instant) :
    (perform w action plan abs now).removes = false ↔ DestinationFails w action plan abs now := by
  unfold perform DestinationFails
  split_ifs with hquarantine htrash hpermanent
  · cases hmove : quarantine w.toStorage abs action.pinnedFingerprint action.mediaItemId
      action.mediaFileId plan.retentionDays w.uuid now <;> simp [hquarantine, ActionOutcome.removes]
  · cases hmove : w.trash abs <;> simp [htrash, ActionOutcome.removes]
  · simp [hpermanent, ActionOutcome.removes]
  · simp [hquarantine, htrash, ActionOutcome.removes]

theorem executeAction_keeps_iff (w : World) (action : CleanupAction) (plan : CleanupPlan)
    (now : Instant) :
    (executeAction w action plan now).removes = false ↔
      ∀ abs, confine w.toStorage action.sourcePath = .ok abs →
        Recognised w.toStorage action.mediaItemId action.mediaFileId abs now ∨
          StoppedOtherwise w action plan abs now := by
  cases hconfine : confine w.toStorage action.sourcePath with
  | error message => simp [executeAction, hconfine, ActionOutcome.removes]
  | ok abs =>
    have hrecheck := evaluate_bareTarget w.toStorage action.mediaItemId action.mediaFileId abs now
    change (evaluate w.rt w.cwd w.registry (recheckTarget action abs) now).isProtected = true ↔ _
      at hrecheck
    have hforall : (∀ abs', Except.ok abs = (Except.ok abs' : Except String String) →
        Recognised w.toStorage action.mediaItemId action.mediaFileId abs' now ∨
          StoppedOtherwise w action plan abs' now) ↔
        Recognised w.toStorage action.mediaItemId action.mediaFileId abs now ∨
          StoppedOtherwise w action plan abs now := by
      constructor
      · exact fun h => h abs rfl
      · rintro h _ ⟨⟩
        exact h
    rw [hforall, ← hrecheck]
    unfold StoppedOtherwise
    rw [← perform_keeps_iff]
    simp only [executeAction, hconfine]
    split_ifs with hexists hprotected hlocked hbusy hdrift <;>
      simp_all [ActionOutcome.removes]

/-! ### The purges -/

/-- The payload itself cannot be removed. -/
def PayloadStays (s : Storage) (row : QuarantineItem) : Prop :=
  payloadIsRemovable s row = false ∨ ∀ done, s.rm row.quarantinePath ≠ .ok done

theorem removePayload_keeps_iff (s : Storage) (row : QuarantineItem) :
    (∀ gone, removePayload s row ≠ .ok gone) ↔ PayloadStays s row := by
  unfold removePayload PayloadStays
  cases payloadIsRemovable s row with
  | false => simp
  | true =>
    cases hrm : s.rm row.quarantinePath with
    | error message => simp [Except.map]
    | ok done => simp [Except.map]

theorem purge_keeps_iff (s : Storage) (row : QuarantineItem) (now : Instant) :
    (∀ gone, purge s row now ≠ .ok gone) ↔
      row.status ≠ .quarantined ∨ Recognised s row.mediaItemId row.mediaFileId row.originalPath now ∨
        PayloadStays s row := by
  rw [← evaluate_bareTarget, ← removePayload_keeps_iff]
  change _ ↔ _ ∨ (evaluate s.rt s.cwd s.registry (purgeTarget row) now).isProtected = true ∨ _
  unfold purge
  dsimp only
  by_cases hstatus : row.status = .quarantined
  · rw [if_neg (not_not.2 hstatus), or_iff_right (not_not.2 hstatus)]
    by_cases hprotected : (evaluate s.rt s.cwd s.registry (purgeTarget row) now).isProtected = true
    · simp [hprotected]
    · rw [if_neg hprotected, or_iff_right hprotected]
  · simp [hstatus]

/-- The row is among those the sweep considers. -/
def Due (s : Storage) (graceSetting : Value) (now : Instant) (table : List QuarantineItem)
    (row : QuarantineItem) : Prop :=
  row ∈ (table.filter (isDue (newDate (now - graceDays s.rt graceSetting * 86400000)))).take 200

theorem purgeGraceElapsed_keeps_iff (s : Storage) (graceSetting : Value) (now : Instant)
    (table : List QuarantineItem) (row : QuarantineItem) :
    row ∉ purgeGraceElapsed s graceSetting now table ↔
      ¬ Due s graceSetting now table row ∨
        Recognised s row.mediaItemId row.mediaFileId row.originalPath now ∨ PayloadStays s row := by
  rw [← evaluate_bareTarget, ← removePayload_keeps_iff]
  change _ ↔ _ ∨ (evaluate s.rt s.cwd s.registry (purgeTarget row) now).isProtected = true ∨ _
  rw [purgeGraceElapsed, List.mem_filter, not_and_or]
  apply or_congr_right
  unfold autoPurge
  split_ifs with hprotected
  · simp [hprotected]
  · cases hremove : removePayload s row with
    | error message => simp [hprotected, Except.map]
    | ok gone => simp [hprotected, Except.map]

/-! ### Protected files -/

def keepShow : ProtectionRecord where
  id := "p1"
  targetType := .show
  protectionType := .permanent
  reason := "keep the series"
  mediaShowId := some "s1"
  createdByUserId := some "u1"
  createdAt := some 0

def keepFolder : ProtectionRecord where
  id := "p2"
  targetType := .pathPrefix
  protectionType := .permanent
  reason := "keep the folder"
  pathPrefix := some "/data/Keep"
  createdByUserId := some "u1"
  createdAt := some 0

/-- A library with one episode of the series, approved for quarantine as it stands. -/
def seriesWorld : World where
  rt := .ascii
  cwd := "/"
  hardRoots := ["/data"]
  registry := [keepShow, keepFolder]
  pathExists _ := true
  move _ _ := .ok ()
  rm _ := .ok ()
  sha256 := id
  catalogue :=
    { file := fun id =>
        if id = "f1" then
          some ({ id := "f1", path := "/data/Shows/a.mkv", size := 1 }, { id := "i1", libraryId := "l1" })
        else none
      conditions := fun _ => some (.all [])
      context := fun _ _ => {} }
  locked _ := false
  activeJobs _ := 0
  trash _ := .ok ""
  uuid := "q1"

def episodePlan : CleanupPlan where
  policyVersionId := "v1"
  retentionDays := some 30

def episodeAction : CleanupAction where
  id := "a1"
  sourcePath := "/data/Shows/a.mkv"
  pinnedFingerprint :=
    (fingerprintNow .ascii id "/" seriesWorld.catalogue seriesWorld.registry 1 "f1" "v1").getD ""
  actionType := "quarantine"
  mediaItemId := some "i1"
  mediaFileId := some "f1"

/-- A file from the protected folder, in quarantine since before it was protected. -/
def folderRow : QuarantineItem where
  id := "q0"
  mediaItemId := some "i2"
  mediaFileId := some "f2"
  originalPath := "/Keep/b.mkv"
  quarantinePath := "/data/.ultratorrent-quarantine/q0__b.mkv"
  storageRoot := "/data"
  fingerprint := ""
  status := .quarantined
  restoreDeadline := none

theorem keepShow_accepted : Accepted keepShow :=
  ⟨{ targetType := .show, protectionType := .permanent, reason := "keep the series",
     mediaShowId := some "s1" }, "u1", [], "p1", 0, rfl⟩

theorem keepFolder_accepted : Accepted keepFolder :=
  ⟨{ targetType := .pathPrefix, protectionType := .permanent, reason := "keep the folder",
     pathPrefix := some "/data/Keep" }, "u1", [], "p2", 0, rfl⟩

end UltraTorrent.Cleanup.ProtectionCoverage
