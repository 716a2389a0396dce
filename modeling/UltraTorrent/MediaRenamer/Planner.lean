import UltraTorrent.MediaRenamer.FileClassification
import UltraTorrent.MediaRenamer.Languages

/-! The plan for the files of a batch: junk is marked, then the videos and the audio get their places,
the subtitles follow their videos, and so do the files that are named after one. -/
namespace UltraTorrent.MediaRenamer.Planner

open Library Library.EcmaScript Library.NodePath Library.RegExp
open FileClassification Languages RenderTemplate TorrentName

inductive Preset where
  | plex
  | jellyfin
  | emby
  | kodi
  | custom
  deriving DecidableEq

inductive RenameMode where
  | preview
  | renameInPlace
  | renameMove
  | copy
  | hardlink
  | symlink
  deriving DecidableEq

inductive PlanAction where
  | rename
  | move
  | copy
  | hardlink
  | symlink
  | delete
  | skip
  deriving DecidableEq

structure EpisodeMeta where
  episodeTitle : Option String := none
  seriesTitle : Option String := none
  movieTitle : Option String := none
  year : Option ℕ := none
  deriving DecidableEq

/-- What happens to folders afterwards is not planned here. -/
structure CleanupRules where
  enabled : Bool
  deleteGlobs : List String
  subtitleKeepLanguages : List String
  deriving DecidableEq

structure RenameContext where
  sourceName : String
  files : List MediaFileInput
  preset : Preset
  mode : RenameMode
  libraryPath : String
  template : Option String := none
  batchMeta : Option EpisodeMeta := none
  episodeMetaFor : Option String → ℕ → ℕ → Option EpisodeMeta := fun _ _ _ => none
  showFolderFor : Option (String → Option String) := none
  sampleMaxBytes : Option ℕ := none
  cleanup : Option CleanupRules := none

structure PlannedItem where
  source : String
  destination : Option String
  action : PlanAction
  kind : MediaKind
  reason : String
  skipped : Bool := false
  isSubtitle : Bool := false
  isSample : Bool := false
  isExtra : Bool := false
  deriving DecidableEq

structure RenamePlanItem extends PlannedItem where
  /-- The file is where it belongs already. -/
  unchanged : Bool
  deriving DecidableEq

structure RenamePlan where
  mode : RenameMode
  preset : Preset
  libraryPath : String
  kind : MediaKind
  parsed : ParsedTorrentMeta
  items : List RenamePlanItem
  warnings : List String
  deriving DecidableEq

/-! ### Templates -/

structure PresetTemplates where
  tv : String
  anime : String
  movie : String
  music : String
  audiobook : String

def tok (name : String) : String := "\x7b" ++ name ++ "\x7d"

def optionalPart (name part : String) : String := "\x7b" ++ name ++ "?" ++ part ++ "\x7d"

def dotExt : String := "." ++ tok "ext"

def showFolders : String :=
  tok "Series Title" ++ optionalPart "year" (" (" ++ tok "year" ++ ")") ++ "/Season " ++ tok "season" ++ "/"

def seasonEpisode : String := "S" ++ tok "season:00" ++ "E" ++ tok "episode:00"

/-- An episode's name, and what goes on behind its number. -/
def episodeName (joint tail : String) : String :=
  showFolders ++ tok "Series Title" ++ joint ++ seasonEpisode ++ tail

def movieName : String := tok "Movie Title" ++ " (" ++ tok "year" ++ ")"

def trackName (joint : String) : String :=
  tok "Artist" ++ "/" ++ tok "Album" ++ "/" ++ tok "Track:00" ++ joint ++ tok "Title" ++ dotExt

def audiobookName : String := tok "Artist" ++ "/" ++ tok "Album" ++ "/" ++ tok "Album" ++ dotExt

def presetTemplates : Preset → PresetTemplates
  | .plex | .custom =>
    { tv := episodeName " - "
        (optionalPart "episodeEnd" (" - E" ++ tok "episodeEnd:00") ++ " - " ++ tok "Episode Title" ++ dotExt)
      anime := episodeName " - " (" - " ++ tok "Episode Title" ++ dotExt)
      movie := movieName ++ "/" ++ movieName ++ " - " ++ tok "Resolution" ++ dotExt
      music := trackName " "
      audiobook := audiobookName }
  | .jellyfin =>
    { tv := episodeName " " (" " ++ tok "Episode Title" ++ dotExt)
      anime := episodeName " " (" " ++ tok "Episode Title" ++ dotExt)
      movie := movieName ++ "/" ++ movieName ++ " [" ++ tok "Resolution" ++ "]" ++ dotExt
      music := trackName " - "
      audiobook := audiobookName }
  | .emby =>
    { tv := episodeName " - " (" - " ++ tok "Episode Title" ++ dotExt)
      anime := episodeName " - " (" - " ++ tok "Episode Title" ++ dotExt)
      movie := movieName ++ "/" ++ movieName ++ dotExt
      music := trackName " "
      audiobook := audiobookName }
  | .kodi =>
    { tv := episodeName " " dotExt
      anime := episodeName " " dotExt
      movie := movieName ++ "/" ++ movieName ++ " " ++ tok "Resolution" ++ dotExt
      music := trackName " - "
      audiobook := audiobookName }

/-- A template of the operator's own comes first. -/
def templateForKind (preset : Preset) (kind : MediaKind) (override : Option String) : String :=
  match override.filter fun template => WhiteSpace.trim template ≠ "" with
  | some template => template
  | none =>
    match kind with
    | .tv => (presetTemplates preset).tv
    | .anime => (presetTemplates preset).anime
    | .movie => (presetTemplates preset).movie
    | .music => (presetTemplates preset).music
    | .audiobook => (presetTemplates preset).audiobook
    | .general => tok "General" ++ dotExt

def isRenderedPathSafe (rt : Runtime) (rel ext : String) : Bool :=
  let base := basename rel
  WhiteSpace.trim rel ≠ "" && !(rel.toList.any fun c => c = '\x7b' || c = '\x7d')
    && (base ≠ "" && base ≠ ext)
    && (ext = "" || (rt.toLowerCase ext).toList.isSuffixOf (rt.toLowerCase base).toList)

def buildTokens (parsed : ParsedTorrentMeta) (kind : MediaKind) (ext : String)
    (fileMeta : Option EpisodeMeta) (range : Option (ℕ × ℕ)) : TemplateTokens :=
  let title (titleOf : EpisodeMeta → Option String) :=
    stripProviderIdTag (((fileMeta.bind titleOf).or parsed.title).getD "Unknown")
  let season := parsed.season.or (if kind = .tv ∨ kind = .anime then some 1 else none)
  let text (n : Option ℕ) := n.map toString
  fun
    | "Series Title" | "General" => some (title (·.seriesTitle))
    | "Movie Title" => some (title (·.movieTitle))
    | "season" => text season
    | "episode" => text (parsed.episode.or parsed.absoluteEpisode)
    | "episodeEnd" => text (range.bind fun span => if span.2 ≠ span.1 then some span.2 else none)
    | "Episode Title" => fileMeta.bind (·.episodeTitle)
    | "year" => text ((fileMeta.bind (·.year)).or parsed.year)
    | "Resolution" => parsed.resolution
    | "Source" => parsed.source
    | "Codec" => parsed.codec
    | "Release Group" => parsed.releaseGroup
    | "ext" => some (.ofList (if ext.toList.head? = some '.' then ext.toList.tail else ext.toList))
    | _ => none

def modeToAction : RenameMode → PlanAction
  | .preview | .renameInPlace => .rename
  | .renameMove => .move
  | .copy => .copy
  | .hardlink => .hardlink
  | .symlink => .symlink

section Plan

variable (rt : Runtime) (ctx : RenameContext)

/-- A movie's folder is part of its name; any other file that is renamed in place stays in the folder
of its show. -/
def resolveDestination (source rel : String) (kind : MediaKind) : String :=
  if kind ≠ .movie ∧ ctx.mode = .renameInPlace ∧ isAbsolute source then
    let parts := rel.toList.splitOn '/'
    let belowShow := if 1 < parts.length then .ofList (['/'].intercalate (parts.drop 1)) else rel
    join [showFolderRoot rt source ctx.libraryPath, belowShow]
  else join [ctx.libraryPath, rel]

def sourceParsed : ParsedTorrentMeta := parseTorrentName ctx.sourceName

def batchKind : MediaKind := kindFromParsed (sourceParsed ctx)

def sampleMax : ℕ := ctx.sampleMaxBytes.getD (50 * 1024 * 1024)

/-! ### Cleanup -/

def cleanupActive : Option CleanupRules :=
  ctx.cleanup.filter fun cleanup =>
    cleanup.enabled && (ctx.mode = .renameInPlace || ctx.mode = .renameMove)

def keepLangs (cleanup : CleanupRules) : List String :=
  cleanup.subtitleKeepLanguages.map (normalizeLanguageCode rt)

/-- A file as the cleanup and the last pass see it. -/
def batchClass (f : MediaFileInput) : Classification :=
  classifyFile rt f.path (batchKind ctx) (sampleMax ctx) f.size

def junkReason (cleanup : CleanupRules) (f : MediaFileInput) : Option String :=
  let c := batchClass rt ctx f
  if videoExt.contains c.ext && !c.isSample then none
  else if matchesAnyGlob rt (basename f.path) cleanup.deleteGlobs then some "matched cleanup pattern"
  else if c.isSubtitle && keepLangs rt cleanup ≠ [] then
    match langTag (basenameWithout f.path c.ext).toList with
    | none => none
    | some tag =>
      let lang := normalizeLanguageCode rt (.ofList tag)
      if lang ≠ "" ∧ lang ∉ keepLangs rt cleanup then
        some ("subtitle language \"" ++ lang ++ "\" not in keep-list")
      else none
  else none

def deletion (f : MediaFileInput) : Option PlannedItem :=
  ((cleanupActive ctx).bind fun cleanup => junkReason rt ctx cleanup f).map fun reason =>
    let c := batchClass rt ctx f
    { source := f.path, destination := none, action := .delete, kind := c.kind, reason := reason,
      isSubtitle := c.isSubtitle, isSample := c.isSample, isExtra := c.isExtra }

def deletions : List PlannedItem := ctx.files.filterMap (deletion rt ctx)

def toDelete : List String := (deletions rt ctx).map (·.source)

/-- What the passes after the cleanup see. -/
def keptFiles : List MediaFileInput := ctx.files.filter fun f => f.path ∉ toDelete rt ctx

/-! ### Videos and audio -/

structure VideoDest where
  source : String
  destNoExt : String
  season : Option ℕ
  episode : Option ℕ
  episodeEnd : Option ℕ
  deriving DecidableEq

def batchHasVideo : Bool := ctx.files.any fun f => videoExt.contains (extOf rt f.path)

def parsedOf (f : MediaFileInput) : ParsedTorrentMeta := identifyFile (sourceParsed ctx) f.path

def fileKind (f : MediaFileInput) : MediaKind := kindFromParsed (parsedOf ctx f)

def fileClass (f : MediaFileInput) : Classification :=
  classifyFile rt f.path (fileKind ctx f) (sampleMax ctx) f.size

def rangeOf (f : MediaFileInput) : Option (ℕ × ℕ) :=
  (episodeRange (basename f.path)).or (episodeRange ctx.sourceName)

/-- What is known of the batch and, before it, of this one episode. The batch speaks of one series: a
file of another one does not take its title. -/
def fileMeta (f : MediaFileInput) : Option EpisodeMeta :=
  let parsed := parsedOf ctx f
  let perEpisode := parsed.season.bind fun season => parsed.episode.bind fun episode =>
    ctx.episodeMetaFor parsed.title season episode
  let known (title : Option String) := title.filter (· ≠ "")
  let otherSeries := (known (ctx.batchMeta.bind (·.seriesTitle))).isSome &&
    match known parsed.title, known (sourceParsed ctx).title with
    | some own, some batch => rt.toLowerCase own ≠ rt.toLowerCase batch
    | _, _ => false
  let batchMeta :=
    if otherSeries then ctx.batchMeta.map fun m => { m with seriesTitle := none } else ctx.batchMeta
  match perEpisode, batchMeta with
  | none, none => none
  | some own, none => some own
  | none, some batch => some batch
  | some own, some batch => some
      { episodeTitle := own.episodeTitle.or batch.episodeTitle
        seriesTitle := own.seriesTitle.or batch.seriesTitle
        movieTitle := own.movieTitle.or batch.movieTitle
        year := own.year.or batch.year }

/-- An episode outside the folder of its show is reported, not moved there. -/
def misfiled (f : MediaFileInput) : List String :=
  match ctx.showFolderFor with
  | none => []
  | some showFolderFor =>
    if (fileKind ctx f = .tv ∨ fileKind ctx f = .anime) ∧ isAbsolute f.path then
      let series := ((fileMeta rt ctx f).bind (·.seriesTitle)).or (parsedOf ctx f).title
      match ((series.filter (· ≠ "")).bind showFolderFor).filter (· ≠ "") with
      | some known =>
        if isUnder rt f.path known then []
        else ["\"" ++ f.path ++ "\" is identified as \"" ++ series.getD "" ++ "\" but sits in \"" ++
          showFolderRoot rt f.path ctx.libraryPath ++ "\". That show's folder is \"" ++ known ++
          "\" — move it there manually; no rename mode relocates across show folders."]
      | none => []
    else []

/-- Where the template puts a file, under the library or the show's folder. -/
def renderedRel (f : MediaFileInput) : String :=
  let c := fileClass rt ctx f
  renderTemplate (templateForKind ctx.preset (fileKind ctx f) ctx.template)
    (buildTokens (parsedOf ctx f) c.kind c.ext (fileMeta rt ctx f) (rangeOf ctx f))

/-- `/Season 0+\b/i`. -/
def seasonZero : Pattern := seq [word "season", oneOf " ", plus (oneOf "0"), boundary]

/-- Season 0 has a folder of its own name. -/
def specialsRel (f : MediaFileInput) : String :=
  let c := fileClass rt ctx f
  let rel := renderedRel rt ctx f
  if (c.kind = .tv ∨ c.kind = .anime) ∧ (parsedOf ctx f).season = some 0 then
    .ofList (RegExp.replaceFirst seasonZero (fun _ => "Specials".toList) rel.toList)
  else rel

def destinationOf (f : MediaFileInput) : String :=
  resolveDestination rt ctx f.path (specialsRel rt ctx f) (fileClass rt ctx f).kind

/-- Extras lie in a folder beside the title. -/
def extraDestination (f : MediaFileInput) : String :=
  resolveDestination rt ctx f.path
    (join [dirname (renderedRel rt ctx f), "Extras", .ofList (sanitizeSegment (basename f.path).toList)])
    (fileClass rt ctx f).kind

def videoOf (f : MediaFileInput) : VideoDest :=
  let destination := (destinationOf rt ctx f).toList
  let parsed := parsedOf ctx f
  { source := f.path
    destNoExt := .ofList (destination.take (destination.length - (fileClass rt ctx f).ext.length))
    season := parsed.season
    episode := parsed.episode.or parsed.absoluteEpisode
    episodeEnd := ((episodeRange (basename f.path)).map (·.2)).or parsed.episodeEnd }

/-- What the first pass makes of a file. -/
inductive Primary where
  /-- A later pass sees to it. -/
  | later
  | left (item : PlannedItem) (warnings : List String)
  | extra (item : PlannedItem)
  | placed (item : PlannedItem) (destination : String) (video : VideoDest)

def skipItem (f : MediaFileInput) (kind : MediaKind) (reason : String) : PlannedItem :=
  { source := f.path, destination := none, action := .skip, kind := kind, reason := reason,
    skipped := true }

def primaryOf (f : MediaFileInput) : Primary :=
  let c := fileClass rt ctx f
  let rel := renderedRel rt ctx f
  if c.isSubtitle then .later
  else if c.isSample then .left { skipItem f c.kind "sample file ignored" with isSample := true } []
  else if audioExt.contains c.ext && batchHasVideo rt ctx &&
      test showLevelAudio (basenameWithout f.path c.ext).toList then
    .left (skipItem f c.kind "show-level theme audio (belongs to the folder)") []
  else if c.kind = .general then .later
  else if !isRenderedPathSafe rt rel c.ext then
    .left { skipItem f c.kind "invalid naming template" with isExtra := c.isExtra }
      ["Naming template produced an unsafe destination \"" ++ rel ++ "\" for \"" ++ f.path ++
        "\"; file left untouched. Check this library's naming template."]
  else if c.isExtra then
    .extra
      { source := f.path, destination := some (extraDestination rt ctx f), action := modeToAction ctx.mode,
        kind := c.kind, reason := "extra/featurette", isExtra := true }
  else
    .placed
      { source := f.path, destination := some (destinationOf rt ctx f), action := modeToAction ctx.mode,
        kind := c.kind,
        reason := if (rangeOf ctx f).isSome then "multi-episode video" else "primary media file" }
      (destinationOf rt ctx f) (videoOf rt ctx f)

structure FirstPass where
  items : List PlannedItem := []
  warnings : List String := []
  /-- Which file was given a destination last. -/
  destSeen : List (String × String) := []
  videoDest : List VideoDest := []

def planPrimary (pass : FirstPass) (f : MediaFileInput) : FirstPass :=
  let warned := { pass with
    warnings := pass.warnings ++ if (fileClass rt ctx f).isSubtitle then [] else misfiled rt ctx f }
  match primaryOf rt ctx f with
  | .later => warned
  | .left item warnings =>
    { warned with items := pass.items ++ [item], warnings := warned.warnings ++ warnings }
  | .extra item => { warned with items := pass.items ++ [item] }
  | .placed item destination video =>
    { items := pass.items ++ [item]
      warnings := warned.warnings ++
        match pass.destSeen.lookup destination with
        | some other =>
          ["Duplicate destination \"" ++ destination ++ "\" from \"" ++ f.path ++ "\" and \"" ++ other ++
            "\"."]
        | none => []
      destSeen := (destination, f.path) :: pass.destSeen
      videoDest := pass.videoDest ++ [video] }

def firstPass : FirstPass := (keptFiles rt ctx).foldl (planPrimary rt ctx) {}

/-! ### What follows the videos -/

/-- A video whose season nobody says is of any season; one of several episodes is each of them. -/
def videoCoversEpisode (video : VideoDest) (season : Option ℕ) (episode : ℕ) : Bool :=
  match video.episode with
  | none => false
  | some first =>
    (season = none || video.season = none || season = video.season)
      && decide (first ≤ episode ∧ episode ≤ video.episodeEnd.getD first)

def commonPrefix : List ℕ → List ℕ → ℕ
  | a :: as, b :: bs => if a = b then commonPrefix as bs + 1 else 0
  | _, _ => 0

/-- The first video whose name goes along with this one for longest. -/
def bestMatch (subBase : String) (candidates : List VideoDest) : Option (VideoDest × ℕ) :=
  candidates.foldl (fun best v =>
    let vBase := rt.toLowerCase (basenameWithout v.source (extname v.source))
    let score := commonPrefix (Runtime.codeUnits subBase) (Runtime.codeUnits vBase)
    if best.all fun found => found.2 < score then some (v, score) else best) none

/-- The episode a subtitle is for: by its own name, or by its folder's. -/
def subtitleEpisode (f : MediaFileInput) : Option (ℕ × Option ℕ) :=
  let episodeOf (p : ParsedTorrentMeta) := p.episode.or p.absoluteEpisode
  let own := parseTorrentName (basenameWithout f.path (extOf rt f.path))
  match episodeOf own with
  | some episode => some (episode, own.season)
  | none =>
    let fromParent := parseTorrentName (basename (dirname f.path))
    (episodeOf fromParent).map fun episode => (episode, fromParent.season.or own.season)

def subtitleItem (videos : List VideoDest) (f : MediaFileInput) : Option PlannedItem :=
  let ext := extOf rt f.path
  if !subtitleExt.contains ext then none
  else
    let name := basenameWithout f.path ext
    let lang := subtitleLangTag rt name
    let candidates := match subtitleEpisode rt f with
      | none => videos
      | some (episode, season) => videos.filter fun v => videoCoversEpisode v season episode
    some <| match subtitleEpisode rt f, bestMatch rt (rt.toLowerCase name) candidates with
      | _, some best =>
        { source := f.path
          destination := some
            (best.1.destNoExt ++ (lang.elim "" fun code => "." ++ code) ++ ext)
          action := modeToAction ctx.mode
          kind := .general
          reason := match lang with
            | some code => "subtitle (" ++ code ++ ") matched to video"
            | none => "subtitle matched to video"
          isSubtitle := true }
      | some (episode, season), none =>
        { skipItem f .general ("no video for episode " ++ (season.elim "" fun s => "S" ++ toString s) ++ "E" ++
            toString episode ++ " in this batch") with isSubtitle := true }
      | none, none => { skipItem f .general "no matching video for subtitle" with isSubtitle := true }

def subtitleItems : List PlannedItem :=
  (keptFiles rt ctx).filterMap (subtitleItem rt ctx (firstPass rt ctx).videoDest)

/-- The video with the longest name that this one goes on from, and what it goes on with. -/
def sidecarVideo (videos : List VideoDest) (base : String) : Option (VideoDest × List Char × ℕ) :=
  let own := parseTorrentName base
  let episode := own.episode.or own.absoluteEpisode
  let names (v : VideoDest) : List String :=
    [basenameWithout v.source (extname v.source), basename v.destNoExt]
  let isOther (v : VideoDest) : Bool :=
    episode.any fun e => v.episode.isSome && !videoCoversEpisode v own.season e
  let candidates := (videos.filter (!isOther ·)).flatMap fun v => (names v).map fun name => (v, name)
  candidates.foldl (fun best candidate =>
    let name := candidate.2.toList
    let suffix := base.toList.drop name.length
    if name.isPrefixOf base.toList && (suffix = [] || suffix.head? = some '-' || suffix.head? = some '.')
        && best.all fun found => found.2.2 < name.length then
      some (candidate.1, suffix, name.length)
    else best) none

def sidecarItem (videos : List VideoDest) (f : MediaFileInput) : PlannedItem :=
  let c := batchClass rt ctx f
  match sidecarVideo videos (basenameWithout f.path c.ext) with
  | none => { skipItem f c.kind "non-media file" with isExtra := c.isExtra }
  | some best =>
    { source := f.path
      destination := some (best.1.destNoExt ++ .ofList best.2.1 ++ c.ext)
      action := modeToAction ctx.mode
      kind := c.kind
      reason := "metadata sidecar (follows its video)" }

def plannedBefore : List PlannedItem :=
  deletions rt ctx ++ (firstPass rt ctx).items ++ subtitleItems rt ctx

/-- What no pass has planned, as long as the batch makes it a general file. -/
def sidecarItems : List PlannedItem :=
  ((keptFiles rt ctx).filter fun f =>
    f.path ∉ (plannedBefore rt ctx).map (·.source) ∧ (batchClass rt ctx f).kind = .general).map
      (sidecarItem rt ctx (firstPass rt ctx).videoDest)

/-! ### The plan -/

def plannedItems : List PlannedItem := plannedBefore rt ctx ++ sidecarItems rt ctx

def marked (item : PlannedItem) : RenamePlanItem :=
  { item with unchanged := !item.skipped && item.destination = some item.source }

def buildRenamePlan : RenamePlan where
  mode := ctx.mode
  preset := ctx.preset
  libraryPath := ctx.libraryPath
  kind := batchKind ctx
  parsed := sourceParsed ctx
  items := (plannedItems rt ctx).map marked
  warnings := (firstPass rt ctx).warnings ++
    if (plannedItems rt ctx).all (·.skipped) then ["No renamable media files were found."] else []

end Plan

end UltraTorrent.MediaRenamer.Planner
