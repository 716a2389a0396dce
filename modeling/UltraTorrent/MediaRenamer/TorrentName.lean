import UltraTorrent.Library.RegExp
import UltraTorrent.Library.Replacement

/-! What a release name says. The audio, the languages and the flags, and how sure the parser is, decide
nothing here and are left out. -/
namespace UltraTorrent.MediaRenamer.TorrentName

open Library Library.RegExp Library.WhiteSpace

inductive ContentType where
  | tvEpisode
  | animeEpisode
  | movie
  | daily
  | unknown
  deriving DecidableEq

structure ParsedTorrentMeta where
  title : Option String := none
  season : Option ℕ := none
  episode : Option ℕ := none
  /-- The last of several episodes in one file. -/
  episodeEnd : Option ℕ := none
  absoluteEpisode : Option ℕ := none
  part : Option ℕ := none
  airDate : Option String := none
  year : Option ℕ := none
  resolution : Option String := none
  source : Option String := none
  codec : Option String := none
  releaseGroup : Option String := none
  contentType : ContentType := .unknown
  deriving DecidableEq

/-! ### Tables -/

/-- `[\s._-]`. -/
def separator : Pattern := one fun c => isWhiteSpace c || c = '.' || c = '_' || c = '-'

def separators : Pattern := star separator

def words (ws : List String) : Pattern := either (ws.map word)

/-- A word of its own. -/
def marker (p : Pattern) : Pattern := seq [boundary, p, boundary]

def resolution : Pattern :=
  marker (group (words ["2160p", "4k", "uhd", "1080p", "1080i", "720p", "480p"]))

/-- A lone `web` is a source only where a release goes on. -/
def releaseToken : Pattern :=
  either [seq [between 3 4 digit, word "p"], word "4k", word "uhd",
    seq [word "x26", oneOf "45"],
    seq [word "h", optional (one fun c => isWhiteSpace c || c = '.'), word "26", oneOf "45"],
    words ["hevc", "avc", "av1", "xvid"], seq [word "aac", optional digit], words ["ac3", "eac3"],
    seq [word "dd", optional (word "p"), optional digit], words ["dts", "atmos", "truehd", "flac"],
    seq [word "hdr", star digit], words ["10bit", "8bit", "remux", "repack", "proper", "rip", "dl"]]

def sources : List (Pattern × String) :=
  [(marker (seq [word "web", optional separator, word "dl"]), "WEB-DL"),
    (marker (word "webrip"), "WEBRip"),
    (marker (either [seq [word "blu", optional separator, word "ray"], words ["bdrip", "brrip", "bdmux"]]),
      "BluRay"),
    (marker (word "remux"), "Remux"),
    (marker (word "hdtv"), "HDTV"),
    (marker (words ["dvdrip", "dvd"]), "DVD"),
    (marker (word "hdrip"), "HDRip"),
    (seq [marker (word "web"), ahead (seq [plus separator, releaseToken, boundary])], "WEB")]

def hCodec (number : String) : Pattern :=
  seq [word "h", optional (one fun c => isWhiteSpace c || c = '.'), word number]

def codecs : List (Pattern × String) :=
  [(marker (either [word "x265", hCodec "265", word "hevc"]), "x265"),
    (marker (either [word "x264", hCodec "264", word "avc"]), "x264"),
    (marker (word "av1"), "AV1"),
    (marker (word "xvid"), "XviD")]

def normRes (r : List Char) : String :=
  let x := String.ofList (r.map Char.toLower)
  if x = "4k" ∨ x = "uhd" then "2160p" else x

/-! ### The parts of a name -/

def stripExtension (name : List Char) : List Char :=
  replaceFirst (seq [oneOf ".", words ["mkv", "mp4", "avi", "ts", "m2ts", "torrent"], stop]) (fun _ => [])
    name

/-- The token after the final dash. -/
def releaseGroup : Pattern :=
  seq [oneOf "-", group (seq [one Char.isAlphanum, between 1 24 (one isWord)]), stop]

/-- Single letters with dots after them. -/
def acronym : Pattern :=
  seq [boundary, between 2 2 (seq [one Char.isAlpha, oneOf "."]), star (seq [one Char.isAlpha, oneOf "."])]

/-- Stands for a dot inside an acronym while the other dots become spaces. -/
def acronymDot : Char := '\x00'

/-- `/[._]+/` and `/\s+/` as spaces. -/
def blanks (p : Char → Bool) : Replacement.Matcher Char Unit
  | [] => none
  | c :: text => if p c then some ((), text.dropWhile p) else none

def collapse (p : Char → Bool) (text : List Char) : List Char :=
  Replacement.replaceAll (blanks p) (fun _ => [' ']) text

/-- A name with one space wherever words are separated. -/
def normalized (name : List Char) : List Char :=
  let s := replaceAll acronym (fun m => m.text.map fun c => if c = '.' then acronymDot else c) name
  let s := collapse (fun c => c = '.' || c = '_') s
  let s := s.map fun c => if c = acronymDot then '.' else c
  trimmed (collapse isWhiteSpace s)

def number (digits : List Char) : ℕ := Nat.ofDigitChars 10 digits 0

/-- `/s(\d{1,2})[\s._-]*e(\d{1,3})/i`, as `NxNN`, or spelled out. -/
def episodeMarkers : List Pattern :=
  [seq [word "s", group (between 1 2 digit), separators, word "e", group (between 1 3 digit)],
    marker (seq [group (between 1 2 digit), word "x", group (between 1 3 digit)]),
    seq [word "season", separators, group (between 1 2 digit), separators, word "episode", separators,
      group (between 1 3 digit)]]

/-- The last episode of several in one file, from what follows the marker of the first one. -/
def episodeSpanEnd (rest : List Char) (season episode : ℕ) : Option ℕ :=
  let credible (digits : List Char) :=
    let last := number digits
    if last ≤ episode ∨ 12 < last - episode then none else some last
  match exec (seq [start, separators, word "s", group (between 1 2 digit), separators, word "e",
      group (between 1 3 digit)]) rest with
  | some found =>
    match found.groups with
    | [s, e] => if number s ≠ season then none else credible e
    | _ => none
  | none =>
    match (exec (seq [start, separators, word "e", group (between 1 3 digit)]) rest).or
        (exec (seq [start, oneOf "-", star space, group (between 1 3 digit), boundary]) rest) with
    | some found => found.groups.head?.bind credible
    | none => none

/-- Season and episode, the marker they stand in and the text behind it. -/
def findEpisode (ws : List Char) : Option (ℕ × ℕ × Found) :=
  (episodeMarkers.findSome? fun p => exec p ws).bind fun found =>
    match found.groups with
    | [s, e] => some (number s, number e, found)
    | _ => none

def airDate : Pattern :=
  let dash := oneOf ".-/ "
  marker (seq [group (seq [word "20", between 2 2 digit]), dash, group (between 2 2 digit), dash,
    group (between 2 2 digit)])

def part : Pattern := marker (seq [word "part", separators, group (between 1 2 digit)])

/-- `text.indexOf(word)`. -/
def indexOf (word : List Char) : ℕ → List Char → Option ℕ
  | index, [] => if word = [] then some index else none
  | index, c :: text => if word.isPrefixOf (c :: text) then some index else indexOf word (index + 1) text

/-- An episode without a season: spelled out, after an `E`, or between dashes. -/
def findAbsolute (ws : List Char) : Option Found :=
  ((exec (marker (seq [word "episode", separators, group (between 1 3 digit)])) ws).or
    (exec (marker (seq [word "e", group (between 2 3 digit)])) ws)).or
    (exec (seq [space, oneOf "-", space, group (between 1 3 digit), space]) (' ' :: (ws ++ [' '])))

def isYearStart (found : Found) (ws : List Char) : Bool :=
  (0 < found.index && ws[found.index - 1]? = some '(') && ws[found.index + 4]? = some ')'

/-- The year in parentheses, or else the last one. -/
def findYear (ws : List Char) : Option (Found × Bool) :=
  let years := matchAll (marker (seq [either [word "19", word "20"], between 2 2 digit])) ws
  match years.find? fun found => isYearStart found ws with
  | some found => some (found, true)
  | none => years.getLast?.map fun found => (found, false)

/-- The first of these patterns that is found anywhere. -/
def findLabel (table : List (Pattern × String)) (ws : List Char) : Option (ℕ × String) :=
  table.findSome? fun entry => (exec entry.1 ws).map fun found => (found.index, entry.2)

/-- What stands before the first marker, and the tag of a fansub group in front of it. -/
def titleOf (ws : List Char) (cut : ℕ) : Option (List Char) × List Char :=
  let title := trimmed ((ws.take cut).rdropWhile fun c => isWhiteSpace c || c = '-')
  let fansub := exec (seq [start, oneOf "[", group (plus (one (· ≠ ']'))), oneOf "]", star space]) title
  let title := match fansub with
    | some found => trimmed found.rest
    | none => title
  let title := title.filter fun c => !(['[', ']', '(', ')'].contains c)
  (fansub.bind fun found => found.groups.head?, trimmed (collapse isWhiteSpace title))

def contentType (parsed : ParsedTorrentMeta) : ContentType :=
  if parsed.season.isSome && parsed.episode.isSome then .tvEpisode
  else if parsed.airDate.isSome then .daily
  else if parsed.absoluteEpisode.isSome then .animeEpisode
  else if parsed.year.isSome then .movie
  else .unknown

def bareName (raw : String) : List Char := stripExtension (trimmed raw.toList)

/-- The text that is searched, without the release group at its end. -/
def searched (raw : String) : List Char :=
  let name := bareName raw
  normalized (match exec releaseGroup name with
    | some found => name.take found.index
    | none => name)

def parsedFields (raw : String) : ParsedTorrentMeta :=
  let groupMatch := exec releaseGroup (bareName raw)
  let ws := searched raw
  let marked := findEpisode ws
  let date := exec airDate ws
  let partMatch := exec part ws
  let absolute := if marked.isSome then none else findAbsolute ws
  let absoluteEpisode := absolute.bind fun found => found.groups.head?.map number
  let episodic := marked.isSome || absoluteEpisode.isSome
  -- The title ends where the first of these begins.
  let cut := ws.length
  let cut := (marked.map fun found => min cut found.2.2.index).getD cut
  let cut := (date.map fun found => min cut found.index).getD cut
  let cut := (absolute.bind fun found => (indexOf (trimmed found.text) 0 ws).map (min cut)).getD cut
  let cut := if episodic || date.isSome then (partMatch.map fun found => min cut found.index).getD cut else cut
  let year := findYear ws
  let cut := match year with
    | none => cut
    | some (found, inParens) =>
      let adjacent := episodic && decide (found.index + 4 ≤ cut)
        && ((ws.take cut).drop (found.index + 4)).all isWhiteSpace
      if (inParens || !episodic || adjacent) && decide (0 < found.index) then min cut found.index else cut
  let res := exec resolution ws
  let cut := (res.map fun found => min cut found.index).getD cut
  let source := findLabel sources ws
  let cut := (source.map fun found => min cut found.1).getD cut
  let codec := findLabel codecs ws
  let cut := (codec.map fun found => min cut found.1).getD cut
  let title := titleOf ws cut
  { title := if title.2 = [] then none else some (.ofList title.2)
    season := marked.map fun found => found.1
    episode := marked.map fun found => found.2.1
    episodeEnd := marked.bind fun found => episodeSpanEnd found.2.2.rest found.1 found.2.1
    absoluteEpisode := absoluteEpisode
    part := partMatch.bind fun found => found.groups.head?.map number
    airDate := date.map fun found => .ofList (['-'].intercalate found.groups)
    year := year.map fun found => number found.1.text
    resolution := res.bind fun found => found.groups.head?.map normRes
    source := source.map fun found => found.2
    codec := codec.map fun found => found.2
    releaseGroup := (groupMatch.bind fun found => found.groups.head?.map String.ofList).or
      (title.1.map String.ofList) }

def parseTorrentName (raw : String) : ParsedTorrentMeta :=
  { parsedFields raw with contentType := contentType (parsedFields raw) }

variable {raw : String}

theorem season_parse : (parseTorrentName raw).season = (findEpisode (searched raw)).map (·.1) := by
  rw [parseTorrentName, parsedFields]

theorem episode_parse : (parseTorrentName raw).episode = (findEpisode (searched raw)).map (·.2.1) := by
  rw [parseTorrentName, parsedFields]

/-- What names an episode is an episode of something. -/
theorem contentType_of_episode
    (h : ¬((parseTorrentName raw).season = none ∧ (parseTorrentName raw).episode = none ∧
      (parseTorrentName raw).absoluteEpisode = none)) :
    (parseTorrentName raw).contentType = .tvEpisode ∨ (parseTorrentName raw).contentType = .daily ∨
      (parseTorrentName raw).contentType = .animeEpisode := by
  have hcontent : (parseTorrentName raw).contentType = contentType (parseTorrentName raw) := by
    rw [parseTorrentName]
    generalize parsedFields raw = p
    rfl
  have hboth : (parseTorrentName raw).season.isSome = (parseTorrentName raw).episode.isSome := by
    rw [season_parse, episode_parse, Option.isSome_map, Option.isSome_map]
  rw [hcontent, contentType]
  generalize parseTorrentName raw = p at h hboth ⊢
  cases hseason : p.season with
  | some season => simp [← hboth, hseason]
  | none =>
    have hepisode : p.episode = none := by
      rw [hseason] at hboth
      exact Option.isNone_iff_eq_none.1 (by rw [← Option.not_isSome, ← hboth]; rfl)
    have habsolute : p.absoluteEpisode.isSome = true :=
      Option.isSome_iff_ne_none.2 fun hnone => h ⟨hseason, hepisode, hnone⟩
    cases hdate : p.airDate <;> simp [habsolute]

end UltraTorrent.MediaRenamer.TorrentName
