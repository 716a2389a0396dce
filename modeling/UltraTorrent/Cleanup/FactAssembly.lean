import UltraTorrent.Cleanup.PlaybackAggregate
import UltraTorrent.Cleanup.PolicyEvaluator

/-! From stored rows to the facts the evaluator reads. A fact that could not be
established is `undefined`, never a substituted default. -/
namespace UltraTorrent.Cleanup.FactAssembly

open Library.EcmaScript
open ConditionCatalog PolicyEvaluator
open PlaybackAggregate (PlaybackAggregateFacts isNeverWatched)

structure RawMediaFile where
  id : String
  path : String
  size : ℤ
  width : Option ℤ := none
  height : Option ℤ := none
  videoCodec : Option String := none
  audioCodec : Option String := none
  audioChannels : Option ℤ := none
  bitrateKbps : Option ℤ := none
  frameRate : Option ℚ := none
  container : Option String := none
  durationSec : Option ℤ := none
  videoBitDepth : Option ℤ := none
  chromaSubsampling : Option String := none
  hdrFormat : Option String := none
  hdr : Option String := none
  techSource : Option String := none
  probedAt : Option Instant := none
  probeError : Option String := none
  modifiedAt : Option Instant := none

structure RawMetadata where
  genres : Value := .undefined
  tags : Value := .undefined
  certification : Option String := none
  language : Option String := none
  runtimeMinutes : Option ℤ := none
  rating : Option ℚ := none
  releaseDate : Option Instant := none

structure RawMediaItem where
  id : String
  libraryId : String
  mediaType : Option String := none
  year : Option ℤ := none
  matchStatus : Option String := none
  confidence : Option ℚ := none
  locked : Option Bool := none
  createdAt : Option Instant := none
  duplicateGroupId : Option String := none
  /-- Provider and id. -/
  externalIds : List (String × String) := []
  metadata : Option RawMetadata := none

structure RawContext where
  libraryKind : Option String := none
  playback : Option PlaybackAggregateFacts := none
  onWatchlist : Bool := false
  inCollection : Bool := false
  activePlayback : Bool := false
  seedingItemIds : Option (List String) := none
  hasActiveJob : Bool := false
  pendingDuplicateResolution : Bool := false
  torrentActive : Option Bool := none
  torrentSeeding : Option Bool := none
  torrentRatio : Option ℚ := none
  libraryFreePercent : Option ℚ := none
  totalTitleSizeBytes : Option ℤ := none
  betterReplacementExists : Bool := false
  isProtected : Bool := false
  now : Option Instant := none

def dayMs : ℤ := 86400000

/-- Whole days from an instant to another, rounded down. -/
def daysBetween (start : Option Instant) (stop : Instant) : Option ℤ :=
  start.map fun t => (stop - t) / dayMs

def earliest : Option Instant → Option Instant → Option Instant
  | none, b => b
  | a, none => a
  | some a, some b => some (if a ≤ b then a else b)

/-- A tier accepts its characteristic width as well as its height. -/
def classifyResolution (width height : Option ℤ) : Option String :=
  let w := width.getD 0
  let h := height.getD 0
  if w ≤ 0 ∧ h ≤ 0 then none
  else if 3500 ≤ h ∨ 6500 ≤ w then some "4320p"
  else if 1700 ≤ h ∨ 3200 ≤ w then some "2160p"
  else if 1300 ≤ h ∨ 2400 ≤ w then some "1440p"
  else if 850 ≤ h ∨ 1800 ≤ w then some "1080p"
  else if 620 ≤ h ∨ 1200 ≤ w then some "720p"
  else if 520 ≤ h ∨ 900 ≤ w then some "576p"
  else if 380 ≤ h ∨ 700 ≤ w then some "480p"
  else some "sd"

/-- The class name, `unknown` when the frame was not measured. -/
def className (cls : Option String) : String := cls.getD "unknown"

def resolutionOrdinal (cls : Option String) : Option ℕ := cls.bind resolutionClasses.idxOf?

def isProbeMeasured (file : RawMediaFile) : Bool :=
  file.techSource = some "probe" && file.probedAt.isSome

/-- Identity is ambiguous when nothing pins it down. -/
def isAmbiguous (item : RawMediaItem) : Bool :=
  if item.matchStatus = some "manual" then false
  else if item.matchStatus = some "unmatched" then true
  else if !item.externalIds.isEmpty then false
  else item.confidence.getD 0 < 4 / 5

def truthy (s : Option String) : Bool := s.isSome && s ≠ some ""

/-! ### Values -/

def int (n : ℤ) : Value := .number (.fin n)

def rat (q : ℚ) : Value := .number (.fin q)

def asArray (rt : Runtime) : Value → Value
  | .array elements => .array (elements.map fun v => .string (rt.string v))
  | _ => .undefined

def metadataFacts (rt : Runtime) (item : RawMediaItem) (ctx : RawContext) : Value :=
  let metadata := item.metadata.getD {}
  .object
    [("mediaKind", .ofOption .string item.mediaType),
     ("releaseYear", .ofOption int item.year),
     ("releaseDate", .ofOption .date metadata.releaseDate),
     ("genres", asArray rt metadata.genres),
     ("tags", asArray rt metadata.tags),
     ("certification", .ofOption .string metadata.certification),
     ("language", .ofOption .string metadata.language),
     ("runtimeMinutes", .ofOption int metadata.runtimeMinutes),
     ("rating", .ofOption rat metadata.rating),
     ("matchStatus", .ofOption .string item.matchStatus),
     ("hasExternalId", .bool !item.externalIds.isEmpty),
     ("metadataComplete", .bool item.metadata.isSome),
     ("inCollection", .bool ctx.inCollection),
     ("onWatchlist", .bool ctx.onWatchlist)]

/-- Without an aggregate every playback fact stays absent. -/
def playbackFacts (playback : Option PlaybackAggregateFacts) (now : Instant) : Value :=
  match playback with
  | none => .object []
  | some p => .object
    [("neverWatched", .bool (isNeverWatched p)),
     ("completedPlayCount", int p.completedPlayCount),
     ("startedPlayCount", int p.startedPlayCount),
     ("uniqueViewerCount", int p.uniqueViewerCount),
     ("lastPlayedAt", .ofOption .date p.lastPlayedAt),
     ("daysSinceLastPlay", .ofOption int (daysBetween p.lastPlayedAt now)),
     ("maximumProgressPercent", int p.maximumProgressPercent),
     ("averageProgressPercent", rat p.averageProgressPercent),
     ("totalPlaybackSeconds", rat p.totalPlaybackSeconds),
     ("watchedByNoUsers", .bool (p.uniqueViewerCount = 0))]

def technicalFacts (file : RawMediaFile) : Value :=
  let measured := isProbeMeasured file
  let cls := if measured then classifyResolution file.width file.height else none
  .object
    [("techSource", .string (if measured then "probe"
        else if file.techSource = some "filename" then "filename" else "unknown")),
     ("resolutionOrdinal", if measured then .ofOption (fun i : ℕ => int i) (resolutionOrdinal cls)
        else .undefined),
     ("resolutionClass", if measured then .string (className cls) else .undefined),
     ("width", .ofOption int file.width),
     ("height", .ofOption int file.height),
     ("videoCodec", .ofOption .string file.videoCodec),
     ("videoBitDepth", .ofOption int file.videoBitDepth),
     ("chromaSubsampling", .ofOption .string file.chromaSubsampling),
     ("hdrFormat", .ofOption .string file.hdrFormat),
     ("isHdr", if measured then .bool (truthy (file.hdrFormat.or file.hdr)) else .undefined),
     ("audioCodec", .ofOption .string file.audioCodec),
     ("audioChannels", .ofOption int file.audioChannels),
     ("bitrateKbps", .ofOption int file.bitrateKbps),
     ("frameRate", .ofOption rat file.frameRate),
     ("container", .ofOption .string file.container),
     ("durationSec", .ofOption int file.durationSec),
     ("probeFailed", .bool file.probeError.isSome)]

/-- An item counts as held since the earlier of its row and its file. -/
def storageFacts (file : RawMediaFile) (item : RawMediaItem) (ctx : RawContext) (now : Instant) :
    Value :=
  .object
    [("fileSizeBytes", int file.size),
     ("fileModifiedAt", .ofOption .date file.modifiedAt),
     ("fileAgeDays", .ofOption int (daysBetween file.modifiedAt now)),
     ("addedAt", .ofOption .date (earliest item.createdAt file.modifiedAt)),
     ("addedAgeDays", .ofOption int (daysBetween (earliest item.createdAt file.modifiedAt) now)),
     ("totalTitleSizeBytes", .ofOption int ctx.totalTitleSizeBytes),
     ("libraryFreePercent", .ofOption rat ctx.libraryFreePercent),
     ("isDuplicate", .bool item.duplicateGroupId.isSome),
     ("betterReplacementExists", .bool ctx.betterReplacementExists),
     ("torrentActive", .ofOption .bool ctx.torrentActive),
     ("torrentSeeding", .ofOption .bool ctx.torrentSeeding),
     ("torrentRatio", .ofOption rat ctx.torrentRatio)]

def safetyFacts (file : RawMediaFile) (item : RawMediaItem) (ctx : RawContext) : Value :=
  .object
    [("libraryId", .string item.libraryId),
     ("libraryKind", .ofOption .string ctx.libraryKind),
     ("path", .string file.path),
     ("isLocked", .bool (item.locked.getD false)),
     ("isProtected", .bool ctx.isProtected),
     ("hasActiveJob", .bool ctx.hasActiveJob),
     ("activePlayback", .bool ctx.activePlayback),
     ("activelySeeding", .bool ((ctx.seedingItemIds.map fun ids => ids.contains item.id).getD false)),
     ("ambiguousIdentity", .bool (isAmbiguous item)),
     ("pendingDuplicateResolution", .bool ctx.pendingDuplicateResolution)]

/-- The instant the facts are taken at: the context's own, or the host's clock. -/
def factInstant (clock : Instant) (ctx : RawContext) : Instant := ctx.now.getD clock

def assembleEvaluationFacts (rt : Runtime) (clock : Instant) (file : RawMediaFile)
    (item : RawMediaItem) (ctx : RawContext) : EvaluationFacts :=
  let now := factInstant clock ctx
  .object
    [("metadata", metadataFacts rt item ctx),
     ("playback", playbackFacts ctx.playback now),
     ("technical", technicalFacts file),
     ("storage", storageFacts file item ctx now),
     ("safety", safetyFacts file item ctx)]

end UltraTorrent.Cleanup.FactAssembly
