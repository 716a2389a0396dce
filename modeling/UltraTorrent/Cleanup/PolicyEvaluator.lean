import Mathlib.Data.List.Basic
import UltraTorrent.Library.Kleene
import UltraTorrent.Workflows.ConditionEval

/-! The catalogue of cleanup conditions: where each reads its fact, whether the fact must
have been measured by a probe, and the scale of an ordered enumeration. A fact path is kept
as the list of its keys. -/
namespace UltraTorrent.Cleanup.ConditionCatalog

structure CleanupConditionDefinition where
  id : String
  factPath : List String
  requiresMeasuredData : Bool := false
  enumValues : Option (List String) := none
  deriving DecidableEq

/-- From the lowest tier to the highest. -/
def resolutionClasses : List String :=
  ["sd", "480p", "576p", "720p", "1080p", "1440p", "2160p", "4320p"]

def cleanupConditions : List CleanupConditionDefinition :=
  [{ id := "metadata.mediaKind", factPath := ["metadata", "mediaKind"],
     enumValues := some ["movie", "tv", "anime", "music_video", "documentary", "other_video"] },
   { id := "metadata.releaseYear", factPath := ["metadata", "releaseYear"] },
   { id := "metadata.releaseDate", factPath := ["metadata", "releaseDate"] },
   { id := "metadata.genre", factPath := ["metadata", "genres"] },
   { id := "metadata.certification", factPath := ["metadata", "certification"] },
   { id := "metadata.language", factPath := ["metadata", "language"] },
   { id := "metadata.runtimeMinutes", factPath := ["metadata", "runtimeMinutes"] },
   { id := "metadata.rating", factPath := ["metadata", "rating"] },
   { id := "metadata.matchStatus", factPath := ["metadata", "matchStatus"],
     enumValues := some ["unmatched", "matched", "manual"] },
   { id := "metadata.hasExternalId", factPath := ["metadata", "hasExternalId"] },
   { id := "metadata.metadataComplete", factPath := ["metadata", "metadataComplete"] },
   { id := "metadata.inCollection", factPath := ["metadata", "inCollection"] },
   { id := "metadata.onWatchlist", factPath := ["metadata", "onWatchlist"] },
   { id := "metadata.tag", factPath := ["metadata", "tags"] },
   { id := "playback.neverWatched", factPath := ["playback", "neverWatched"] },
   { id := "playback.completedPlayCount", factPath := ["playback", "completedPlayCount"] },
   { id := "playback.startedPlayCount", factPath := ["playback", "startedPlayCount"] },
   { id := "playback.uniqueViewerCount", factPath := ["playback", "uniqueViewerCount"] },
   { id := "playback.lastPlayedAt", factPath := ["playback", "lastPlayedAt"] },
   { id := "playback.daysSinceLastPlay", factPath := ["playback", "daysSinceLastPlay"] },
   { id := "playback.maximumProgressPercent", factPath := ["playback", "maximumProgressPercent"] },
   { id := "playback.averageProgressPercent", factPath := ["playback", "averageProgressPercent"] },
   { id := "playback.totalPlaybackSeconds", factPath := ["playback", "totalPlaybackSeconds"] },
   { id := "playback.watchedByNoUsers", factPath := ["playback", "watchedByNoUsers"] },
   { id := "playback.watchedByAllUsers", factPath := ["playback", "watchedByAllUsers"] },
   { id := "playback.traktWatched", factPath := ["playback", "traktWatched"] },
   { id := "technical.resolutionClass", factPath := ["technical", "resolutionOrdinal"], requiresMeasuredData := true,
     enumValues := some resolutionClasses },
   { id := "technical.width", factPath := ["technical", "width"], requiresMeasuredData := true },
   { id := "technical.height", factPath := ["technical", "height"], requiresMeasuredData := true },
   { id := "technical.videoCodec", factPath := ["technical", "videoCodec"], requiresMeasuredData := true },
   { id := "technical.videoBitDepth", factPath := ["technical", "videoBitDepth"], requiresMeasuredData := true },
   { id := "technical.chromaSubsampling", factPath := ["technical", "chromaSubsampling"], requiresMeasuredData := true },
   { id := "technical.hdrFormat", factPath := ["technical", "hdrFormat"], requiresMeasuredData := true },
   { id := "technical.isHdr", factPath := ["technical", "isHdr"], requiresMeasuredData := true },
   { id := "technical.audioCodec", factPath := ["technical", "audioCodec"], requiresMeasuredData := true },
   { id := "technical.audioChannels", factPath := ["technical", "audioChannels"], requiresMeasuredData := true },
   { id := "technical.bitrateKbps", factPath := ["technical", "bitrateKbps"], requiresMeasuredData := true },
   { id := "technical.frameRate", factPath := ["technical", "frameRate"], requiresMeasuredData := true },
   { id := "technical.container", factPath := ["technical", "container"] },
   { id := "technical.durationSec", factPath := ["technical", "durationSec"], requiresMeasuredData := true },
   { id := "technical.techSource", factPath := ["technical", "techSource"],
     enumValues := some ["probe", "filename", "unknown"] },
   { id := "technical.probeFailed", factPath := ["technical", "probeFailed"] },
   { id := "storage.fileSizeBytes", factPath := ["storage", "fileSizeBytes"] },
   { id := "storage.fileModifiedAt", factPath := ["storage", "fileModifiedAt"] },
   { id := "storage.fileAgeDays", factPath := ["storage", "fileAgeDays"] },
   { id := "storage.addedAt", factPath := ["storage", "addedAt"] },
   { id := "storage.addedAgeDays", factPath := ["storage", "addedAgeDays"] },
   { id := "storage.totalTitleSizeBytes", factPath := ["storage", "totalTitleSizeBytes"] },
   { id := "storage.libraryFreePercent", factPath := ["storage", "libraryFreePercent"] },
   { id := "storage.isDuplicate", factPath := ["storage", "isDuplicate"] },
   { id := "storage.betterReplacementExists", factPath := ["storage", "betterReplacementExists"] },
   { id := "storage.torrentActive", factPath := ["storage", "torrentActive"] },
   { id := "storage.torrentSeeding", factPath := ["storage", "torrentSeeding"] },
   { id := "storage.torrentRatio", factPath := ["storage", "torrentRatio"] },
   { id := "safety.libraryId", factPath := ["safety", "libraryId"] },
   { id := "safety.libraryKind", factPath := ["safety", "libraryKind"],
     enumValues := some ["tv", "anime", "movie", "music", "audiobook", "general"] },
   { id := "safety.pathPrefix", factPath := ["safety", "path"] },
   { id := "safety.isLocked", factPath := ["safety", "isLocked"] },
   { id := "safety.isProtected", factPath := ["safety", "isProtected"] },
   { id := "safety.hasActiveJob", factPath := ["safety", "hasActiveJob"] },
   { id := "safety.activePlayback", factPath := ["safety", "activePlayback"] },
   { id := "safety.ambiguousIdentity", factPath := ["safety", "ambiguousIdentity"] },
   { id := "safety.pendingDuplicateResolution", factPath := ["safety", "pendingDuplicateResolution"] }]

def getCondition (id : String) : Option CleanupConditionDefinition :=
  cleanupConditions.find? (·.id = id)

/-- Every condition has its own id, so looking one up finds it. -/
theorem getCondition_of_mem : ∀ c ∈ cleanupConditions, getCondition c.id = some c := by
  decide +kernel

end UltraTorrent.Cleanup.ConditionCatalog

/-! Evaluation of a cleanup policy's condition tree over the facts of one file. The
outcomes `matched`, `not_matched` and `unmeasured` are the answers of `Verdict`. -/
namespace UltraTorrent.Cleanup.PolicyEvaluator

open Library.EcmaScript Library.Kleene
open Workflows.ConditionEval ConditionCatalog

structure PolicyConditionLeaf where
  field : String
  operator : ConditionOperator
  value : Value
  allowInferred : Bool := false

abbrev PolicyConditionNode := Formula PolicyConditionLeaf

/-- The facts of a candidate, by group and key. -/
abbrev EvaluationFacts := Value

structure ConditionTrace where
  field : String
  operator : ConditionOperator
  value : Value
  actual : Value
  result : Verdict
  summary : String

structure EvaluationResult where
  outcome : Verdict
  matchedConditions : List String
  unmeasuredConditions : List String
  traces : List ConditionTrace

def operatorSymbol : ConditionOperator → String
  | .eq => "="
  | .neq => "≠"
  | .gt => ">"
  | .gte => "≥"
  | .lt => "<"
  | .lte => "≤"
  | op => op.text

def summarize (rt : Runtime) (node : PolicyConditionLeaf) : String :=
  let text := match node.value with
    | .string s => s
    | v => rt.jsonStringify v
  node.field ++ " " ++ operatorSymbol node.operator ++ " " ++ text

def isOrdinal : ConditionOperator → Bool
  | .gt | .gte | .lt | .lte => true
  | _ => false

/-- An ordered enumeration is authored as a label and compared as an index; `none` when
the label is not on the scale. -/
def coerceOrdinalValue (enumValues : Option (List String)) (operator : ConditionOperator)
    (value : Value) : Option Value :=
  match enumValues with
  | none => some value
  | some scale =>
    if !isOrdinal operator then some value
    else match value with
      | .number n => some (.number n)
      | .string s => (scale.idxOf? s).map fun i => .number (.fin i)
      | _ => none

def isMeasured (facts : EvaluationFacts) : Bool :=
  ((facts.get "technical").get "techSource").strictEq (.string "probe")

def leafResult (rt : Runtime) (definition : CleanupConditionDefinition) (node : PolicyConditionLeaf)
    (facts : EvaluationFacts) : Verdict :=
  let actual := resolvePath facts definition.factPath
  if definition.requiresMeasuredData && !node.allowInferred && !isMeasured facts then .unknown
  else if actual.isNullish then .unknown
  else match coerceOrdinalValue definition.enumValues node.operator node.value with
    | none => .unknown
    | some value => .ofBool (applyOperator rt node.operator actual value)

/-- An unknown condition, an unmeasured or a missing fact is no basis for a decision. -/
def evaluateLeaf (rt : Runtime) (facts : EvaluationFacts) (node : PolicyConditionLeaf) :
    ConditionTrace where
  field := node.field
  operator := node.operator
  value := node.value
  actual := ((getCondition node.field).map fun d => resolvePath facts d.factPath).getD .undefined
  result := ((getCondition node.field).map fun d => leafResult rt d node facts).getD .unknown
  summary := summarize rt node

/-- Every child is evaluated, so every leaf leaves its trace. -/
def evaluatePolicy (rt : Runtime) (conditions : PolicyConditionNode) (facts : EvaluationFacts) :
    EvaluationResult :=
  let traces := conditions.leaves.map (evaluateLeaf rt facts)
  { outcome := conditions.eval fun node => (evaluateLeaf rt facts node).result
    matchedConditions := (traces.filter (·.result = .yes)).map ConditionTrace.summary
    unmeasuredConditions := (traces.filter (·.result = .unknown)).map ConditionTrace.field
    traces := traces }

variable {rt : Runtime} {facts : EvaluationFacts} {node : PolicyConditionLeaf}
  {definition : CleanupConditionDefinition}

theorem evaluateLeaf_result (h : getCondition node.field = some definition) :
    (evaluateLeaf rt facts node).result = leafResult rt definition node facts := by
  simp [evaluateLeaf, h]

/-- A value is compared as it was authored, unless it is a label under an operator of order. -/
theorem coerceOrdinalValue_plain {enumValues : Option (List String)} {op : ConditionOperator}
    (h : enumValues = none ∨ isOrdinal op = false) (value : Value) :
    coerceOrdinalValue enumValues op value = some value := by
  unfold coerceOrdinalValue
  rcases h with henum | hord
  · rw [henum]
  · cases enumValues <;> simp [hord]

theorem leafResult_present
    (hmeasured : definition.requiresMeasuredData = true → node.allowInferred = true ∨ isMeasured facts = true)
    (hpresent : (resolvePath facts definition.factPath).isNullish = false) :
    leafResult rt definition node facts =
      (coerceOrdinalValue definition.enumValues node.operator node.value).elim .unknown fun value =>
        .ofBool (applyOperator rt node.operator (resolvePath facts definition.factPath) value) := by
  have hallowed : (definition.requiresMeasuredData && !node.allowInferred && !isMeasured facts) = false := by
    cases hrequires : definition.requiresMeasuredData with
    | false => rfl
    | true => rcases hmeasured hrequires with h | h <;> simp [h]
  unfold leafResult
  simp only [hallowed, hpresent, Bool.false_eq_true, if_false]
  cases coerceOrdinalValue definition.enumValues node.operator node.value <;> rfl

theorem leafResult_yes (h : leafResult rt definition node facts = .yes)
    (henum : definition.enumValues = none ∨ isOrdinal node.operator = false) :
    (resolvePath facts definition.factPath).isNullish = false ∧
      applyOperator rt node.operator (resolvePath facts definition.factPath) node.value = true := by
  unfold leafResult at h
  simp only [coerceOrdinalValue_plain henum] at h
  split_ifs at h with hmeasured hnull
  exact ⟨by simpa using hnull, by simpa using h⟩

end UltraTorrent.Cleanup.PolicyEvaluator
