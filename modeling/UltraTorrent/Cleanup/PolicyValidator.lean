import UltraTorrent.Cleanup.ConditionPushdown
import UltraTorrent.Cleanup.PolicyDocument
import UltraTorrent.Library.CanonicalPath

/-! The gate before publication: a document that passes may be published, and a published
policy can delete files. -/
namespace UltraTorrent.Cleanup.PolicyValidator

open Library.EcmaScript Library.Kleene Library.PosixPath
open Workflows.ConditionEval ConditionCatalog PolicyEvaluator ConditionPushdown PolicyDocument

inductive Severity where
  | error
  | warning
  deriving DecidableEq

structure PolicyValidationIssue where
  code : String
  message : String
  severity : Severity
  path : Option String
  deriving DecidableEq

structure PolicyValidationResult where
  valid : Bool
  errors : List PolicyValidationIssue
  warnings : List PolicyValidationIssue

abbrev Issues := List PolicyValidationIssue

def err (code message : String) (path : Option String := none) : Issues :=
  [⟨code, message, .error, path⟩]

def warn (code message : String) (path : Option String := none) : Issues :=
  [⟨code, message, .warning, path⟩]

/-- Reports when the check fails. -/
def require (ok : Bool) (issues : Issues) : Issues := if ok then [] else issues

/-! ### Conditions -/

inductive ConditionDataType where
  | string
  | number
  | boolean
  | date
  | enum
  | strings
  deriving DecidableEq

def eqOperators : List ConditionOperator := [.eq, .neq]

def ordOperators : List ConditionOperator := [.eq, .neq, .gt, .gte, .lt, .lte]

def textOperators : List ConditionOperator := [.eq, .neq, .contains, .matches]

/-- What the catalogue says of the values and operators a condition takes, by its id. -/
def signatures : List (String × ConditionDataType × List ConditionOperator) :=
  [("metadata.mediaKind", .enum, eqOperators),
   ("metadata.releaseYear", .number, ordOperators),
   ("metadata.releaseDate", .date, ordOperators),
   ("metadata.genre", .strings, [.contains]),
   ("metadata.certification", .string, textOperators),
   ("metadata.language", .string, textOperators),
   ("metadata.runtimeMinutes", .number, ordOperators),
   ("metadata.rating", .number, ordOperators),
   ("metadata.matchStatus", .enum, eqOperators),
   ("metadata.hasExternalId", .boolean, eqOperators),
   ("metadata.metadataComplete", .boolean, eqOperators),
   ("metadata.inCollection", .boolean, eqOperators),
   ("metadata.onWatchlist", .boolean, eqOperators),
   ("metadata.tag", .strings, [.contains]),
   ("playback.neverWatched", .boolean, eqOperators),
   ("playback.completedPlayCount", .number, ordOperators),
   ("playback.startedPlayCount", .number, ordOperators),
   ("playback.uniqueViewerCount", .number, ordOperators),
   ("playback.lastPlayedAt", .date, ordOperators),
   ("playback.daysSinceLastPlay", .number, ordOperators),
   ("playback.maximumProgressPercent", .number, ordOperators),
   ("playback.averageProgressPercent", .number, ordOperators),
   ("playback.totalPlaybackSeconds", .number, ordOperators),
   ("playback.watchedByNoUsers", .boolean, eqOperators),
   ("playback.watchedByAllUsers", .boolean, eqOperators),
   ("playback.traktWatched", .boolean, eqOperators),
   ("technical.resolutionClass", .enum, ordOperators),
   ("technical.width", .number, ordOperators),
   ("technical.height", .number, ordOperators),
   ("technical.videoCodec", .string, textOperators),
   ("technical.videoBitDepth", .number, ordOperators),
   ("technical.chromaSubsampling", .string, textOperators),
   ("technical.hdrFormat", .string, textOperators),
   ("technical.isHdr", .boolean, eqOperators),
   ("technical.audioCodec", .string, textOperators),
   ("technical.audioChannels", .number, ordOperators),
   ("technical.bitrateKbps", .number, ordOperators),
   ("technical.frameRate", .number, ordOperators),
   ("technical.container", .string, textOperators),
   ("technical.durationSec", .number, ordOperators),
   ("technical.techSource", .enum, eqOperators),
   ("technical.probeFailed", .boolean, eqOperators),
   ("storage.fileSizeBytes", .number, ordOperators),
   ("storage.fileModifiedAt", .date, ordOperators),
   ("storage.fileAgeDays", .number, ordOperators),
   ("storage.addedAt", .date, ordOperators),
   ("storage.addedAgeDays", .number, ordOperators),
   ("storage.totalTitleSizeBytes", .number, ordOperators),
   ("storage.libraryFreePercent", .number, ordOperators),
   ("storage.isDuplicate", .boolean, eqOperators),
   ("storage.betterReplacementExists", .boolean, eqOperators),
   ("storage.torrentActive", .boolean, eqOperators),
   ("storage.torrentSeeding", .boolean, eqOperators),
   ("storage.torrentRatio", .number, ordOperators),
   ("safety.libraryId", .string, eqOperators),
   ("safety.libraryKind", .enum, eqOperators),
   ("safety.pathPrefix", .string, [.contains, .matches]),
   ("safety.isLocked", .boolean, eqOperators),
   ("safety.isProtected", .boolean, eqOperators),
   ("safety.hasActiveJob", .boolean, eqOperators),
   ("safety.activePlayback", .boolean, eqOperators),
   ("safety.ambiguousIdentity", .boolean, eqOperators),
   ("safety.pendingDuplicateResolution", .boolean, eqOperators)]

/-- Every condition of the catalogue has a signature, in the catalogue's order. -/
theorem signatures_ids : signatures.map Prod.fst = cleanupConditions.map (·.id) := by
  decide +kernel

def joined (texts : List String) : String := ", ".intercalate texts

/-- A value of the wrong type would be coerced silently. -/
def validateValue (dataType : ConditionDataType) (node : PolicyConditionLeaf) (path : String) :
    Issues :=
  let expects (what : String) :=
    err "condition.value_type" ("Condition \"" ++ node.field ++ "\" expects " ++ what ++ ".") path
  match dataType, node.value with
  | .number, .number _ | .boolean, .bool _ | .date, .string _ => []
  | .number, _ => expects "a number"
  | .boolean, _ => expects "a boolean"
  | .date, _ => expects "an ISO date string"
  | _, _ => []

def validateEnum (enumValues : Option (List String)) (node : PolicyConditionLeaf) (path : String) :
    Issues :=
  match enumValues, node.value with
  | some allowed, .string s =>
    require (allowed.contains s) (err "condition.value_not_allowed"
      ("\"" ++ s ++ "\" is not a valid value for \"" ++ node.field ++ "\" (allowed: "
        ++ joined allowed ++ ").") path)
  | _, _ => []

def validateLeaf (isAutomatic : Bool) (node : PolicyConditionLeaf) (path : String) : Issues :=
  match getCondition node.field, signatures.lookup node.field with
  | some definition, some (dataType, operators) =>
    let inferred := node.allowInferred && definition.requiresMeasuredData
    require (operators.contains node.operator) (err "condition.operator_unsupported"
      ("Condition \"" ++ node.field ++ "\" does not support operator \"" ++ node.operator.text
        ++ "\" (allowed: " ++ joined (operators.map ConditionOperator.text) ++ ").") path)
    ++ validateValue dataType node path
    ++ validateEnum definition.enumValues node path
    ++ require (!(inferred && isAutomatic)) (err "condition.inferred_in_automatic"
      ("Condition \"" ++ node.field
        ++ "\" opts into inferred data, which an automatic policy may not do.") path)
    ++ require (!inferred) (warn "condition.inferred"
      ("Condition \"" ++ node.field
        ++ "\" accepts filename-inferred values, which are a hint rather than a measurement.") path)
  | _, _ => err "condition.unknown" ("Unknown condition \"" ++ node.field ++ "\".") path

/-- An empty group stops the descent; one that is too wide is still walked. -/
def groupIssues (children : ℕ) (path : String) (below : Issues) : Issues :=
  if children = 0 then err "group.empty" "A condition group must contain at least one condition." path
  else
    require (children ≤ PolicyLimits.maxGroupChildren) (err "group.too_wide"
      ("A group has " ++ toString children ++ " children; the maximum is "
        ++ toString PolicyLimits.maxGroupChildren ++ ".") path) ++ below

mutual

def validateNode (isAutomatic : Bool) (path : String) : PolicyConditionNode → Issues
  | .leaf node => validateLeaf isAutomatic node path
  | .all cs | .any cs => groupIssues cs.length path (validateChildren isAutomatic path 0 cs)

def validateChildren (isAutomatic : Bool) (path : String) (i : ℕ) : List PolicyConditionNode → Issues
  | [] => []
  | c :: cs => validateNode isAutomatic (path ++ ".children[" ++ toString i ++ "]") c
    ++ validateChildren isAutomatic path (i + 1) cs

end

def validateConditions (isAutomatic : Bool) : Option PolicyConditionNode → Issues
  | none => err "conditions.missing" "A policy must define at least one condition."
  | some conditions =>
    let total := countConditions conditions
    let depth := documentDepth conditions
    require (total ≠ 0) (err "conditions.empty" "A policy must define at least one condition.")
    ++ require (total ≤ PolicyLimits.maxConditions) (err "conditions.too_many"
      (toString total ++ " conditions; the maximum is " ++ toString PolicyLimits.maxConditions ++ "."))
    ++ require (depth ≤ PolicyLimits.maxDepth) (err "conditions.too_deep"
      ("Nesting depth " ++ toString depth ++ "; the maximum is " ++ toString PolicyLimits.maxDepth ++ "."))
    ++ validateNode isAutomatic "conditions" conditions

def usesMeasuredCondition (conditions : PolicyConditionNode) : Bool :=
  conditions.leaves.any fun node =>
    ((getCondition node.field).map (·.requiresMeasuredData)).getD false

def usesIdentityCondition (conditions : PolicyConditionNode) : Bool :=
  conditions.leaves.any fun node => startsWith node.field "metadata."
    || node.field = "storage.isDuplicate" || node.field = "storage.betterReplacementExists"

/-! ### The other parts -/

/-- A condition can bound the run just as a scope does. -/
def validateScope (now : Instant) (doc : CleanupPolicyDocument) : Issues :=
  let scope := doc.scope
  let restrictions := scope.libraryIds.length + scope.libraryKinds.length + scope.pathPrefixes.length
  (if restrictions = 0 ∧ boundsLibrary doc.conditions now = false then
    if doc.isAutomatic then err "scope.unbounded_automatic"
      "An automatic policy must be scoped to at least one library, kind or path prefix."
    else warn "scope.unbounded"
      "This policy is not scoped, so every library is examined — its conditions still decide what matches."
  else [])
  ++ scope.pathPrefixes.flatMap fun p => require (startsWith p "/") (err "scope.relative_path"
    ("Path prefix \"" ++ p ++ "\" must be absolute.") "scope.pathPrefixes")

def validateCaps (action : PolicyAction) : Issues :=
  require (action.maxItemsPerRun.isSome || action.maxReclaimBytesPerRun.isSome)
    (err "action.uncapped_automatic"
      "An automatic policy must cap either maxItemsPerRun or maxReclaimBytesPerRun." "action")
  ++ require (action.maxReclaimBytesPerRun.getD 0 ≤ PolicyLimits.maxAutomaticReclaimBytesPerRun)
    (err "action.cap_too_high"
      ("maxReclaimBytesPerRun exceeds the " ++ toString PolicyLimits.maxAutomaticReclaimBytesPerRun
        ++ "-byte ceiling for automatic runs.") "action.maxReclaimBytesPerRun")
  ++ require (action.maxItemsPerRun.getD 0 ≤ PolicyLimits.maxCandidatesPerPlan)
    (err "action.items_cap_too_high"
      ("maxItemsPerRun exceeds the " ++ toString PolicyLimits.maxCandidatesPerPlan
        ++ "-candidate plan limit.") "action.maxItemsPerRun")

def validateAction : Option PolicyAction → Issues
  | none => err "action.missing" "A policy must declare an action."
  | some action =>
    (match action.mode with
      | .other text =>
        err "action.mode_invalid" ("Unknown action mode \"" ++ text ++ "\".") "action.mode"
      | _ => [])
    ++ (match action.destination with
      | .other _ => err "action.destination_invalid"
        "Destination must be \"quarantine\" or \"trash\"; unattended permanent deletion is not available."
        "action.destination"
      | _ => [])
    ++ require (action.retentionDays.all fun days => 0 ≤ days ∧ days ≤ 3650)
      (err "action.retention_out_of_range" "retentionDays must be between 0 and 3650."
        "action.retentionDays")
    ++ if action.mode.isAutomatic then validateCaps action else []

/-- The safety margins. A missing condition tree was refused above. -/
def validateExclusions (doc : CleanupPolicyDocument) : Issues :=
  match doc.exclusions with
  | none => err "exclusions.missing" "A policy must declare its exclusions."
  | some ex =>
    if doc.isAutomatic then
      require (1 ≤ ex.addedWithinDays.getD 0) (err "exclusions.no_grace_period"
        "An automatic policy must set a grace period (exclusions.addedWithinDays >= 1)."
        "exclusions.addedWithinDays")
      ++ require (!(ex.requireMeasuredTechnical = some false && doc.conditions.any usesMeasuredCondition))
        (err "exclusions.inferred_technical_automatic"
          "An automatic policy using technical conditions cannot accept filename-inferred values."
          "exclusions.requireMeasuredTechnical")
      ++ require (!(ex.ambiguousIdentity = some false && doc.conditions.any usesIdentityCondition))
        (warn "exclusions.ambiguous_allowed"
          "This policy matches on identity but does not exclude ambiguous items.")
    else []

def hasRequirement (rep : PolicyReplacementRequirements) : Bool :=
  rep.minResolutionClass.isSome || !rep.preferredCodecs.isEmpty || rep.minAudioChannels.isSome
    || !rep.requireSubtitleLanguages.isEmpty || rep.requireHdrAtLeastEqual = some true
    || rep.requireProbeSucceeded = some true

def validateReplacement : Option PolicyReplacementRequirements → Issues
  | none => []
  | some rep => require (!rep.required || hasRequirement rep) (err "replacement.no_requirements"
    "Replacement-aware cleanup is enabled but declares no requirement a replacement must meet."
    "replacement")

def validateStoragePressure : Option PolicyStoragePressure → Issues
  | none => []
  | some sp =>
    if sp.enabled then
      (match sp.triggerBelowFreePercent, sp.stopAtFreePercent with
        | some trigger, some stop => require (trigger < stop) (err "storage_pressure.target_unreachable"
          "stopAtFreePercent must be greater than triggerBelowFreePercent." "storagePressure")
        | _, _ => err "storage_pressure.incomplete"
          "A storage-pressure policy needs both triggerBelowFreePercent and stopAtFreePercent."
          "storagePressure")
      ++ require (sp.maxReclaimBytes.isSome || sp.maxRuntimeSeconds.isSome)
        (err "storage_pressure.uncapped"
          "A storage-pressure run must cap maxReclaimBytes or maxRuntimeSeconds." "storagePressure")
    else []

/-- `bytes` is the size of the document's JSON text. -/
def documentIssues (rt : Runtime) (bytes : ℕ) (now : Instant) (doc : CleanupPolicyDocument) :
    Issues :=
  require (doc.schemaVersion = schemaVersion) (err "document.schema_version"
    ("Unsupported document schemaVersion " ++ rt.stringOfNumber (.fin doc.schemaVersion)
      ++ "; expected " ++ rt.stringOfNumber (.fin schemaVersion) ++ "."))
  ++ require (bytes ≤ PolicyLimits.maxDocumentBytes) (err "document.too_large"
    ("Document is " ++ toString bytes ++ " bytes; the maximum is "
      ++ toString PolicyLimits.maxDocumentBytes ++ "."))
  ++ validateConditions doc.isAutomatic doc.conditions
  ++ validateScope now doc
  ++ validateAction doc.action
  ++ validateExclusions doc
  ++ validateReplacement doc.replacement
  ++ validateStoragePressure doc.storagePressure

def validatePolicyDocument (rt : Runtime) (bytes : ℕ) (now : Instant)
    (doc : CleanupPolicyDocument) : PolicyValidationResult :=
  let issues := documentIssues rt bytes now doc
  let errors := issues.filter (·.severity = .error)
  { valid := errors.isEmpty
    errors := errors
    warnings := issues.filter (·.severity = .warning) }

/-! ### Acceptance -/

/-- Nothing that keeps a document from being published. -/
def Accepted (issues : Issues) : Prop := ∀ issue ∈ issues, issue.severity ≠ .error

theorem accepted_append {issues others : Issues} :
    Accepted (issues ++ others) ↔ Accepted issues ∧ Accepted others :=
  List.forall_mem_append

theorem not_accepted_err {code message : String} {path : Option String} :
    ¬ Accepted (err code message path) := fun h => h _ (List.mem_singleton_self _) rfl

theorem ok_of_accepted {ok : Bool} {code message : String} {path : Option String}
    (h : Accepted (require ok (err code message path))) : ok = true := by
  cases ok with
  | true => rfl
  | false => exact absurd h not_accepted_err

theorem accepted_of_valid {rt : Runtime} {bytes : ℕ} {now : Instant} {doc : CleanupPolicyDocument}
    (h : (validatePolicyDocument rt bytes now doc).valid = true) :
    Accepted (documentIssues rt bytes now doc) := by
  intro issue hissue herror
  have hempty := List.isEmpty_iff.1 h
  exact List.not_mem_nil (hempty ▸ List.mem_filter.2 ⟨hissue, decide_eq_true herror⟩)

theorem accepted_conditions {rt : Runtime} {bytes : ℕ} {now : Instant} {doc : CleanupPolicyDocument}
    {conditions : PolicyConditionNode} (hconditions : doc.conditions = some conditions)
    (h : (validatePolicyDocument rt bytes now doc).valid = true) :
    Accepted (validateNode doc.isAutomatic "conditions" conditions) := by
  intro issue hissue
  refine accepted_of_valid h issue ?_
  simp only [documentIssues, hconditions, validateConditions, List.mem_append]
  tauto

/-- What a group reports includes what its children do. -/
theorem mem_validateChildren {isAutomatic : Bool} {path : String} {i : ℕ}
    {cs : List PolicyConditionNode} {c : PolicyConditionNode} (hc : c ∈ cs) :
    ∃ below, ∀ issue ∈ validateNode isAutomatic below c,
      issue ∈ validateChildren isAutomatic path i cs := by
  induction cs generalizing i with
  | nil => cases hc
  | cons head rest ih =>
    rw [validateChildren]
    rcases List.mem_cons.1 hc with rfl | hc
    · exact ⟨_, fun issue hissue => List.mem_append_left _ hissue⟩
    · obtain ⟨below, hbelow⟩ := ih (i := i + 1) hc
      exact ⟨below, fun issue hissue => List.mem_append_right _ (hbelow issue hissue)⟩

theorem groupIssues_accepted {n : ℕ} {path : String} {below : Issues}
    (h : Accepted (groupIssues n path below)) : n ≠ 0 ∧ Accepted below := by
  unfold groupIssues at h
  split_ifs at h with hn
  · exact absurd rfl (h _ (List.mem_singleton_self _))
  · exact ⟨hn, fun issue hissue => h issue (List.mem_append_right _ hissue)⟩

theorem accepted_leaf {isAutomatic : Bool} {path : String} {t : PolicyConditionNode}
    {node : PolicyConditionLeaf} (h : Accepted (validateNode isAutomatic path t))
    (hnode : node ∈ t.leaves) : ∃ below, Accepted (validateLeaf isAutomatic node below) := by
  induction t using Formula.induction generalizing path with
  | leaf leaf =>
    cases List.mem_singleton.1 hnode
    exact ⟨path, h⟩
  | all cs ih =>
    rw [validateNode] at h
    obtain ⟨c, hc, hnode⟩ := Formula.mem_leaves_all.1 hnode
    obtain ⟨below, hbelow⟩ := mem_validateChildren hc
    exact ih c hc (fun issue hissue => (groupIssues_accepted h).2 issue (hbelow issue hissue)) hnode
  | any cs ih =>
    rw [validateNode] at h
    obtain ⟨c, hc, hnode⟩ := Formula.mem_leaves_any.1 hnode
    obtain ⟨below, hbelow⟩ := mem_validateChildren hc
    exact ih c hc (fun issue hissue => (groupIssues_accepted h).2 issue (hbelow issue hissue)) hnode

theorem leaf_of_accepted {isAutomatic : Bool} {path : String} {node : PolicyConditionLeaf}
    (h : Accepted (validateLeaf isAutomatic node path)) :
    ∃ definition dataType operators, getCondition node.field = some definition ∧
      signatures.lookup node.field = some (dataType, operators) ∧ node.operator ∈ operators ∧
      Accepted (validateValue dataType node path) ∧
      Accepted (validateEnum definition.enumValues node path) := by
  unfold validateLeaf at h
  cases hdefinition : getCondition node.field with
  | none =>
    rw [hdefinition] at h
    exact absurd h not_accepted_err
  | some definition =>
    cases hsignature : signatures.lookup node.field with
    | none =>
      rw [hdefinition, hsignature] at h
      exact absurd h not_accepted_err
    | some signature =>
      rw [hdefinition, hsignature] at h
      simp only [accepted_append] at h
      obtain ⟨⟨⟨⟨hoperator, hvalue⟩, henum⟩, -⟩, -⟩ := h
      exact ⟨definition, signature.1, signature.2, rfl, rfl,
        List.contains_iff_mem.1 (ok_of_accepted hoperator), hvalue, henum⟩

end UltraTorrent.Cleanup.PolicyValidator
