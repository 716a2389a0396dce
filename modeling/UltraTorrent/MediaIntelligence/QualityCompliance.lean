import UltraTorrent.Library.EcmaScript
import UltraTorrent.Library.Replacement
import UltraTorrent.Library.WhiteSpace

/-! Whether the media on disk satisfies a rung of the operator's own ladder, as far as that was ever
measured. -/
namespace UltraTorrent.MediaIntelligence.QualityCompliance

open Library Library.EcmaScript

/-! ### Names as tokens -/

variable (rt : Runtime)

def spaced (p : Char → Bool) (text : List Char) : List Char := Replacement.collapse p ' ' text

/-- Apostrophes go without a trace; separators and punctuation become one space. -/
def normalize (input : String) : List Char :=
  let text := (rt.toLowerCase input).toList.filter fun c =>
    !(c.toNat = 39 || c.toNat = 0x2019 || c.toNat = 96)
  let text := spaced (fun c => c = '.' || c = '_' || c = '-') text
  let text := text.map fun c =>
    if ('a' ≤ c && c ≤ 'z') || ('0' ≤ c && c ≤ '9') || WhiteSpace.isWhiteSpace c then c else ' '
  WhiteSpace.trimmed (spaced WhiteSpace.isWhiteSpace text)

def compact (input : String) : String :=
  .ofList ((normalize rt input).filter fun c => !WhiteSpace.isWhiteSpace c)

/-- One spelling for each of the two codecs that have several. -/
def normCodec (c : String) : String :=
  let x := compact rt c
  if ["x265", "h265", "hevc"].contains x then "x265"
  else if ["x264", "h264", "avc"].contains x then "x264"
  else x

def codecEquivalent (a b : String) : Bool := normCodec rt a = normCodec rt b

/-! ### What was measured, and what is asked for -/

/-- The measured quality of a file; `none` where nothing was measured. -/
structure NormalizedMediaQuality where
  resolutionClass : Option String := none
  resolutionOrdinal : Option ℚ := none
  width : Option ℚ := none
  height : Option ℚ := none
  videoCodec : Option String := none
  videoBitDepth : Option ℚ := none
  hdr : Option Bool := none
  hdrFormat : Option String := none
  audioCodec : Option String := none
  audioChannels : Option ℚ := none
  bitrateKbps : Option ℚ := none
  frameRate : Option ℚ := none
  durationSec : Option ℚ := none
  container : Option String := none
  sizeBytes : Option ℚ := none

structure NormalizedPreferenceRung where
  name : String
  /-- Its position in the ladder; 0 is the most preferred. -/
  rung : ℕ
  resolution : Option String := none
  codec : Option String := none
  source : Option String := none
  quality : Option String := none
  requiredTerms : List String := []
  excludedTerms : List String := []
  maxBytes : Option ℚ := none
  minBytes : Option ℚ := none

inductive MediaPreferenceSource where
  | globalLadder
  | linkedRule
  | acquisitionProfile
  | none
  deriving DecidableEq

structure NormalizedPreferenceLadder where
  source : MediaPreferenceSource
  sourceLabel : Option String
  rungs : List NormalizedPreferenceRung

/-! ### One dimension of a rung -/

inductive MediaQualityDimension where
  | resolution
  | codec
  | source
  | quality
  | terms
  | size
  deriving DecidableEq

inductive DimensionResult where
  | pass
  | fail
  | notEvaluable
  deriving DecidableEq

inductive NotEvaluableReason where
  | notMeasured
  | releaseNameOnly
  | releaseGroup
  | freeText
  deriving DecidableEq

structure DimensionVerdict where
  dimension : MediaQualityDimension
  result : DimensionResult
  required : Option String
  actual : Option String
  reason : Option NotEvaluableReason := none
  numericRequired : Option ℚ := none
  deriving DecidableEq

def truthy (text : Option String) : Option String := text.filter (· ≠ "")

def bitDepthTerms : List (String × ℚ) := [("10bit", 10), ("10 bit", 10), ("8bit", 8), ("8 bit", 8)]

/-- Names in small letters that every object has. -/
def inheritedNames : List String := ["constructor", "__proto__"]

/-- `t in BIT_DEPTH_TERMS`. -/
def namesBitDepth (t : String) : Bool := (bitDepthTerms.lookup t).isSome || inheritedNames.contains t

def hdrTerms : List String := ["hdr", "hdr10", "hdr10+", "dv", "dolbyvision", "dolby vision"]

def resolutionClasses : List String := ["sd", "480p", "576p", "720p", "1080p", "1440p", "2160p", "4320p"]

def resolutionTerms : List String := resolutionClasses ++ ["4k", "uhd"]

def codecTerms : List String := ["x264", "h264", "avc", "x265", "h265", "hevc", "av1", "xvid", "vp9"]

def resolutionTermToClass (term : String) : String :=
  let t := compact rt term
  if t = "4k" ∨ t = "uhd" then "2160p" else t

/-- Whether the file shows a term; `none` where nothing measured settles it. -/
def evaluateTerm (term : String) (owned : NormalizedMediaQuality) : Option Bool :=
  let t := compact rt term
  let bare := WhiteSpace.trim (rt.toLowerCase term)
  if namesBitDepth t ∨ namesBitDepth bare then
    -- what an inherited name stands for is no number
    let want := if namesBitDepth t then bitDepthTerms.lookup t else bitDepthTerms.lookup bare
    owned.videoBitDepth.map fun depth => want = some depth
  else if hdrTerms.contains t then owned.hdr
  else if resolutionTerms.contains t then
    (truthy owned.resolutionClass).map fun cls => compact rt cls = resolutionTermToClass rt term
  else if codecTerms.contains t then
    (truthy owned.videoCodec).map fun codec => codecEquivalent rt codec term
  else none

/-- A dash with letters or digits behind it, at the end. -/
def endsInGroup (text : List Char) : Bool :=
  let tail := (text.reverse.takeWhile fun c => c.isAlphanum).length
  tail ≠ 0 ∧ (text.reverse.drop tail).head? = some '-'

/-- Why a term could not be settled. -/
def termReason (term : String) : NotEvaluableReason :=
  let t := compact rt term
  if namesBitDepth t ∨ hdrTerms.contains t ∨ resolutionTerms.contains t ∨ codecTerms.contains t then
    .notMeasured
  else if endsInGroup (WhiteSpace.trimmed term.toList) then .releaseGroup
  else .releaseNameOnly

/-- What the file shows where a term looks. -/
def describeFor (term : String) (owned : NormalizedMediaQuality) : Option String :=
  let t := compact rt term
  if namesBitDepth t then owned.videoBitDepth.map fun depth => rt.stringOfNumber (.fin depth) ++ "-bit"
  else if hdrTerms.contains t then
    owned.hdr.map fun hdr => if hdr then owned.hdrFormat.getD "HDR" else "SDR"
  else if resolutionTerms.contains t then owned.resolutionClass
  else if codecTerms.contains t then owned.videoCodec
  else none

def ofBool (passes : Bool) : DimensionResult := if passes then .pass else .fail

/-- A dimension that a column of the file settles when it is there. -/
def columnDims (dimension : MediaQualityDimension) (required actual : Option String)
    (agrees : String → String → Bool) : List DimensionVerdict :=
  match truthy required with
  | none => []
  | some want =>
    match truthy actual with
    | none => [⟨dimension, .notEvaluable, want, none, some .notMeasured, none⟩]
    | some actual => [⟨dimension, ofBool (agrees actual want), want, actual, none, none⟩]

/-- A dimension that nothing on disk records. -/
def lostDims (dimension : MediaQualityDimension) (required : Option String) (reason : NotEvaluableReason) :
    List DimensionVerdict :=
  match truthy required with
  | none => []
  | some want => [⟨dimension, .notEvaluable, want, none, some reason, none⟩]

/-- A term that is required, or excluded: then it must not be there. -/
def termDim (label : String) (wanted : Bool) (owned : NormalizedMediaQuality) (term : String) :
    DimensionVerdict :=
  match evaluateTerm rt term owned with
  | none => ⟨.terms, .notEvaluable, label ++ term, none, termReason rt term, none⟩
  | some settled => ⟨.terms, ofBool (settled = wanted), label ++ term, describeFor rt term owned, none, none⟩

def sizeLabel (rung : NormalizedPreferenceRung) : String :=
  let bytes (o : Option ℚ) := o.elim "null" fun q => rt.stringOfNumber (.fin q)
  if rung.maxBytes.isSome ∧ rung.minBytes.isSome then
    bytes rung.minBytes ++ "–" ++ bytes rung.maxBytes ++ " bytes"
  else if rung.maxBytes.isSome then "≤ " ++ bytes rung.maxBytes ++ " bytes"
  else "≥ " ++ bytes rung.minBytes ++ " bytes"

def sizeDims (rung : NormalizedPreferenceRung) (owned : NormalizedMediaQuality) : List DimensionVerdict :=
  if rung.maxBytes = none ∧ rung.minBytes = none then []
  else match owned.sizeBytes with
    | none => [⟨.size, .notEvaluable, sizeLabel rt rung, none, some .notMeasured, none⟩]
    | some size =>
      let overMax := rung.maxBytes.any (· < size)
      let underMin := rung.minBytes.any (size < ·)
      [⟨.size, ofBool (!(overMax || underMin)), sizeLabel rt rung, rt.stringOfNumber (.fin size), none,
        if overMax then rung.maxBytes else if underMin then rung.minBytes
        else rung.maxBytes.or rung.minBytes⟩]

/-! ### A rung -/

structure RungOutcome where
  rung : NormalizedPreferenceRung
  matched : Bool
  /-- It has constraints, and none of them could be judged. -/
  blind : Bool
  dimensions : List DimensionVerdict

def rungDims (rung : NormalizedPreferenceRung) (owned : NormalizedMediaQuality) : List DimensionVerdict :=
  columnDims .resolution rung.resolution owned.resolutionClass
      (fun actual want => compact rt actual = resolutionTermToClass rt want) ++
    columnDims .codec rung.codec owned.videoCodec (codecEquivalent rt) ++
    lostDims .source rung.source .releaseNameOnly ++
    lostDims .quality rung.quality .freeText ++
    rung.requiredTerms.map (termDim rt "requires " true owned) ++
    rung.excludedTerms.map (termDim rt "excludes " false owned) ++
    sizeDims rt rung owned

def evaluateRung (rung : NormalizedPreferenceRung) (owned : NormalizedMediaQuality) : RungOutcome :=
  let dims := rungDims rt rung owned
  let failed := dims.any (·.result = .fail)
  let anyPass := dims.any (·.result = .pass)
  ⟨rung, !failed, !dims.isEmpty && !anyPass && !failed, dims⟩

/-! ### The ladder -/

inductive MediaQualityStatus where
  | preferred
  | acceptable
  | belowPreference
  | unknown
  deriving DecidableEq

inductive UnknownReason where
  | noAcquisitionPreferences
  | noMeasuredQuality
  | notEvaluableFromOwnedMedia
  deriving DecidableEq

structure MediaQualityCompliance where
  status : MediaQualityStatus
  matchedRung : Option ℕ := none
  matchedRungName : Option String := none
  preferredRung : Option ℕ
  totalRungs : ℕ
  upgradePotential : Bool := false
  dimensions : List DimensionVerdict := []
  reasons : List String
  unknownReason : Option UnknownReason := none
  preferenceSource : MediaPreferenceSource
  preferenceSourceLabel : Option String

/-- The first rung that is not contradicted and not blind; without one the answer is below preference,
unless every rung was blind. -/
def evaluateQualityCompliance (owned : Option NormalizedMediaQuality)
    (ladder : NormalizedPreferenceLadder) : MediaQualityCompliance :=
  let base (status : MediaQualityStatus) (reason : String) : MediaQualityCompliance :=
    { status, reasons := [reason]
      preferredRung := if ladder.rungs.isEmpty then none else some 0
      totalRungs := ladder.rungs.length
      preferenceSource := ladder.source
      preferenceSourceLabel := ladder.sourceLabel }
  if ladder.rungs.isEmpty then
    { base .unknown "no_acquisition_preferences" with unknownReason := some .noAcquisitionPreferences }
  else match owned with
    | none => { base .unknown "no_measured_quality" with unknownReason := some .noMeasuredQuality }
    | some owned =>
      let outcomes := ladder.rungs.map fun r => evaluateRung rt r owned
      let shown := (outcomes.head?.map (·.dimensions)).getD []
      match outcomes.find? fun o => o.matched && !o.blind with
      | some firstMatch =>
        let index := firstMatch.rung.rung
        { base (if index = 0 then .preferred else .acceptable)
            (if index = 0 then "matched_preferred_rung" else "matched_fallback_rung") with
          matchedRung := some index
          matchedRungName := some firstMatch.rung.name
          upgradePotential := 0 < index
          dimensions := firstMatch.dimensions }
      | none =>
        if outcomes.all fun o => o.blind || o.dimensions.isEmpty then
          { base .unknown "not_evaluable_from_owned_media" with
            dimensions := shown, unknownReason := some .notEvaluableFromOwnedMedia }
        else { base .belowPreference "no_rung_satisfied" with dimensions := shown }

end UltraTorrent.MediaIntelligence.QualityCompliance
