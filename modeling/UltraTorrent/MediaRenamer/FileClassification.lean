import UltraTorrent.Library.NodePath
import UltraTorrent.MediaRenamer.RenderTemplate
import UltraTorrent.MediaRenamer.TorrentName

/-! What the renamer takes a file for, and which folders are not a show's own. -/
namespace UltraTorrent.MediaRenamer.FileClassification

open Library Library.EcmaScript Library.NodePath Library.RegExp TorrentName

inductive MediaKind where
  | tv
  | anime
  | movie
  | music
  | audiobook
  | general
  deriving DecidableEq

structure MediaFileInput where
  path : String
  size : ℕ
  deriving DecidableEq

/-! ### Extensions and hints -/

def videoExt : List String := [".mkv", ".mp4", ".avi", ".m4v", ".ts", ".m2ts", ".wmv", ".mov", ".webm"]

def subtitleExt : List String := [".srt", ".ass", ".ssa", ".sub", ".idx", ".vtt"]

def audioExt : List String := [".mp3", ".flac", ".m4a", ".aac", ".ogg", ".opus", ".wav", ".wma"]

def audiobookExt : List String := [".m4b", ".aa", ".aax"]

/-- `[ ._-]`. -/
def joint : Pattern := oneOf " ._-"

def extraHints : Pattern :=
  marker (either [word "featurette", seq [word "extra", optional (word "s")],
    seq [word "behind", joint, word "the", joint, word "scenes"],
    words ["deleted", "interview", "trailer", "bonus"]])

def plexExtraSuffix : Pattern :=
  seq [oneOf "-", either [word "behindthescenes",
      seq [word "deleted", optional (seq [word "scene", optional (word "s")])],
      seq [word "featurette", optional (word "s")], seq [word "interview", optional (word "s")],
      words ["scene", "short", "trailer", "other", "bonus"]], stop]

/-- Audio of the folder, not of an episode. -/
def showLevelAudio : Pattern :=
  seq [start, either [seq [word "theme", optional (seq [optional (oneOf "-_ "), word "music"])],
    words ["backdrop", "background"]], star digit, stop]

def sampleHints : Pattern := marker (word "sample")

def inSampleDir : Pattern :=
  seq [either [start, oneOf "\\/"], word "sample", either [oneOf "\\/", stop]]

/-! ### Globs -/

/-- A glob as a regular expression for a whole name. -/
def globToRegExp (glob : String) : String :=
  .ofList ('^' :: glob.toList.flatMap (fun c =>
    if c = '*' then ['.', '*']
    else if c = '?' then ['.']
    else if ".+^$\x7b\x7d()|[]\\".toList.contains c then ['\\', c]
    else [c]) ++ ['$'])

def matchesAnyGlob (rt : Runtime) (name : String) (globs : List String) : Bool :=
  globs.any fun glob => (rt.regexTest (globToRegExp glob) name).getD false

/-! ### A file -/

structure Classification where
  kind : MediaKind
  isSubtitle : Bool
  isSample : Bool
  isExtra : Bool
  ext : String
  deriving DecidableEq

def namesAnEpisode (base : String) : Bool :=
  let p := parseTorrentName base
  (p.season.isSome && p.episode.isSome) || p.absoluteEpisode.isSome

/-- The extension a file is classified by. -/
def extOf (rt : Runtime) (path : String) : String := rt.toLowerCase (extname path)

def classifyFile (rt : Runtime) (path : String) (parsedKind : MediaKind) (sampleMaxBytes size : ℕ) :
    Classification :=
  let ext := extOf rt path
  let base := basename path
  let isSubtitle := subtitleExt.contains ext
  { kind :=
      if audiobookExt.contains ext then .audiobook
      else if audioExt.contains ext then if parsedKind = .audiobook then .audiobook else .music
      else if !videoExt.contains ext && !isSubtitle then .general
      else parsedKind
    isSubtitle := isSubtitle
    isSample := (test sampleHints base.toList || test inSampleDir path.toList) && videoExt.contains ext
      && decide (size ≤ sampleMaxBytes)
    -- A numbered episode is no extra, unless the end of its name says so.
    isExtra := !isSubtitle && (test plexExtraSuffix (basenameWithout path ext).toList
      || test extraHints base.toList && !namesAnEpisode base)
    ext := ext }

def kindFromParsed (parsed : ParsedTorrentMeta) : MediaKind :=
  match parsed.contentType with
  | .tvEpisode | .daily => .tv
  | .animeEpisode => .anime
  | .movie => .movie
  | .unknown => .general

/-- The first and the last of several episodes, as the renamer reads them from a name. -/
def episodeRange (sourceName : String) : Option (ℕ × ℕ) :=
  let joints := star joint
  let found := exec
    (seq [word "s", between 1 2 digit, joints, word "e", group (between 1 3 digit), joints,
      either [word "e", seq [oneOf "-", word "e"], oneOf "-"], group (between 1 3 digit)])
    (sourceName.toList.map fun c => if c = '.' || c = '_' then ' ' else c)
  match found.map (·.groups) with
  | some [first, last] => some (number first, number last)
  | _ => none

/-- What a file is: what its own name says if it names an episode, and the batch for the rest. -/
def identifyFile (sourceParsed : ParsedTorrentMeta) (path : String) : ParsedTorrentMeta :=
  let own := parseTorrentName (basename path)
  if own.season = none ∧ own.episode = none ∧ own.absoluteEpisode = none then sourceParsed
  else
    { title := own.title.or sourceParsed.title
      season := own.season.or sourceParsed.season
      episode := own.episode.or sourceParsed.episode
      episodeEnd := own.episodeEnd.or sourceParsed.episodeEnd
      absoluteEpisode := own.absoluteEpisode.or sourceParsed.absoluteEpisode
      part := own.part.or sourceParsed.part
      airDate := own.airDate.or sourceParsed.airDate
      year := own.year.or sourceParsed.year
      resolution := own.resolution.or sourceParsed.resolution
      source := own.source.or sourceParsed.source
      codec := own.codec.or sourceParsed.codec
      releaseGroup := own.releaseGroup.or sourceParsed.releaseGroup
      contentType := own.contentType }

/-! ### Folders -/

def isSeasonContainer (name : String) : Bool :=
  test (seq [start, words ["season", "series", "saison", "staffel", "temporada", "stagione", "serie"],
    separators, plus digit, stop]) name.toList || test (seq [start, word "specials", stop]) name.toList

def isExtrasContainer (name : String) : Bool :=
  test (seq [start, either [word "extras", seq [word "featurette", optional (word "s")],
    word "behind the scenes", word "bonus"], stop]) name.toList

def isReleaseFolder (name : String) : Bool :=
  let p := parseTorrentName name
  p.resolution.isSome || p.source.isSome || p.codec.isSome || p.releaseGroup.isSome || p.season.isSome

/-- An id that a metadata manager put into a name, in braces or brackets. -/
def providerIdTag : Pattern :=
  seq [oneOf "\x7b[", between 0 8 space, words ["tv", "tm", "im"], word "db", optional (word "id"),
    either [oneOf "-=:", space], between 0 128 (one fun c => c ≠ '\x7d' && c ≠ ']'), oneOf "\x7d]"]

def stripProviderIdTag (name : String) : String :=
  let bare := RegExp.replaceAll providerIdTag (fun _ => [' ']) name.toList
  .ofList (WhiteSpace.trimmed
    (RegExp.replaceAll (seq [space, space, star space]) (fun _ => [' ']) bare))

def normFolder (rt : Runtime) (path : String) : String :=
  rt.toLowerCase (.ofList (path.toList.rdropWhile fun c => c = '/' || c = '\\'))

def isUnder (rt : Runtime) (file folder : String) : Bool :=
  let f := normFolder rt folder
  let p := normFolder rt file
  p = f || (f.toList ++ ['/']).isPrefixOf p.toList || (f.toList ++ ['\\']).isPrefixOf p.toList

/-- Up past every folder that is not the show's own, but not to the library or the root. -/
def climb (rt : Runtime) (libraryPath : String) : ℕ → String → String
  | 0, dir => dir
  | n + 1, dir =>
    let name := basename dir
    let parent := dirname dir
    let floor := normFolder rt libraryPath
    if name = "" ∨ (!isSeasonContainer name && !isReleaseFolder name && !isExtrasContainer name) then dir
    else if parent = dir then dir
    else if libraryPath ≠ "" ∧ floor ≠ "" ∧ normFolder rt parent = floor then dir
    else climb rt libraryPath n parent

def showFolderRoot (rt : Runtime) (source libraryPath : String) : String :=
  climb rt libraryPath (source.toList.splitOn '/').length (dirname source)

end UltraTorrent.MediaRenamer.FileClassification
