import UltraTorrent.Library.RegExp
import UltraTorrent.Library.RunRewriting

/-! The times subtitles are written in: hours, minutes and seconds between colons, and a fraction of a
second behind a mark. -/
namespace UltraTorrent.Subtitles.Timestamp

open Library.Replacement Library.RunRewriting Library.Segments

structure Clock where
  hours : List Char
  minutes : List Char
  seconds : List Char
  mark : Char
  fraction : List Char
  deriving DecidableEq

def Clock.text (c : Clock) : List Char :=
  c.hours ++ ':' :: (c.minutes ++ ':' :: (c.seconds ++ c.mark :: c.fraction))

/-- `\d{least,most}` -/
def digits (least most : ℕ) : Matcher Char (List Char) := Matcher.between Char.isDigit least most

def colon : Matcher Char Char := Matcher.item (· = ':')

/-- `(\d{1,2}):(\d{2}):(\d{2})([marks])(\d{least,most})` -/
def clock (marks : List Char) (least most : ℕ) : Matcher Char Clock :=
  (digits 1 2).andThen fun hours => colon.andThen fun _ =>
  (digits 2 2).andThen fun minutes => colon.andThen fun _ =>
  (digits 2 2).andThen fun seconds => (Matcher.item (marks.contains ·)).andThen fun mark =>
  (digits least most).andThen fun fraction => Matcher.done ⟨hours, minutes, seconds, mark, fraction⟩

/-- `+digits` -/
def number (ds : List Char) : ℕ := Nat.ofDigitChars 10 ds 0

/-- `pad(n, width)` -/
def pad (n width : ℕ) : List Char := (Nat.toDigits 10 n).leftpad width '0'

/-! ### Spelling -/

def Digits (least most : ℕ) (ds : List Char) : Prop :=
  (∀ c ∈ ds, c.isDigit = true) ∧ least ≤ ds.length ∧ ds.length ≤ most

theorem Digits.mono {least most least' most' : ℕ} {ds : List Char} (h : Digits least most ds)
    (hleast : least' ≤ least) (hmost : most ≤ most') : Digits least' most' ds :=
  ⟨h.1, hleast.trans h.2.1, h.2.2.trans hmost⟩

structure Clock.Spelled (marks : List Char) (least most : ℕ) (c : Clock) : Prop where
  hours : Digits 1 2 c.hours
  minutes : Digits 2 2 c.minutes
  seconds : Digits 2 2 c.seconds
  mark : c.mark ∈ marks
  fraction : Digits least most c.fraction

variable {marks : List Char} {least most : ℕ} {text rest : List Char} {c : Clock}

theorem digits_eq_some {ds : List Char} : digits least most text = some (ds, rest) ↔
    text = ds ++ rest ∧ Digits least most ds ∧ (ds.length = most ∨ ∀ c ∈ rest.head?, c.isDigit = false) :=
  Matcher.between_eq_some

theorem colon_eq_some {d : Char} : colon text = some (d, rest) ↔ text = ':' :: rest ∧ d = ':' := by
  rw [colon, Matcher.item_eq_some, decide_eq_true_eq]
  constructor
  · rintro ⟨rfl, rfl⟩
    exact ⟨rfl, rfl⟩
  · rintro ⟨rfl, rfl⟩
    exact ⟨rfl, rfl⟩

/-- What is found is a time in front of a text, with all the digits its fraction may have. -/
theorem clock_eq_some (hmarks : ∀ d ∈ marks, d.isDigit = false) : clock marks least most text = some (c, rest) ↔
    text = c.text ++ rest ∧ c.Spelled marks least most ∧
      (c.fraction.length = most ∨ ∀ d ∈ rest.head?, d.isDigit = false) := by
  simp only [clock, Matcher.andThen_eq_some, digits_eq_some, colon_eq_some, Matcher.item_eq_some, Matcher.done,
    Option.some_inj, Prod.mk.injEq]
  constructor
  · rintro ⟨hours, _, ⟨rfl, hhours, -⟩, _, _, ⟨rfl, -⟩, minutes, _, ⟨rfl, hminutes, -⟩, _, _, ⟨rfl, -⟩, seconds, _,
      ⟨rfl, hseconds, -⟩, mark, _, ⟨rfl, hmark⟩, fraction, _, ⟨rfl, hfraction, hend⟩, rfl, rfl⟩
    refine ⟨by simp [Clock.text], ⟨hhours, hminutes, hseconds, by simpa using hmark, hfraction⟩, hend⟩
  · rintro ⟨rfl, ⟨hhours, hminutes, hseconds, hmark, hfraction⟩, hend⟩
    have hcolon : ∀ {u : List Char}, ∀ d ∈ (':' :: u).head?, d.isDigit = false := by
      rintro u d ⟨⟩
      rfl
    refine ⟨c.hours, _, ⟨by simp only [Clock.text, List.append_assoc, List.cons_append], hhours, .inr hcolon⟩,
      ':', _, ⟨rfl, rfl⟩, c.minutes, _, ⟨rfl, hminutes, .inr hcolon⟩, ':', _, ⟨rfl, rfl⟩, c.seconds, _,
      ⟨rfl, hseconds, .inr ?_⟩, c.mark, _, ⟨rfl, by simpa using hmark⟩, c.fraction, rest, ⟨rfl, hfraction, hend⟩,
      rfl, rfl⟩
    rintro d ⟨⟩
    exact hmarks _ hmark

theorem text_ne_nil (h : c.Spelled marks least most) : c.text ≠ [] :=
  List.append_ne_nil_of_left_ne_nil (List.ne_nil_of_length_pos h.hours.2.1) _

theorem consumes_clock (hmarks : ∀ d ∈ marks, d.isDigit = false) : Consumes (clock marks least most) := by
  intro text c rest h
  obtain ⟨htext, hspelled, -⟩ := (clock_eq_some hmarks).1 h
  exact ⟨c.text, text_ne_nil hspelled, htext⟩

/-- What a time has no place for. -/
def foreign (marks : List Char) (d : Char) : Bool := !(d.isDigit || d = ':' || marks.contains d)

theorem closes_clock : Closes (foreign marks) (clock marks least most) := by
  have hdigit : ∀ d, foreign marks d = true → d.isDigit = false := by
    intro d hd
    simp_all [foreign]
  have hcolon : Closes (foreign marks) colon := closes_item fun d hd => by simp_all [foreign]
  have hdigits : ∀ least most, Closes (foreign marks) (digits least most) := closes_between hdigit
  have hmark : Closes (foreign marks) (Matcher.item (marks.contains ·)) := closes_item fun d hd => by
    simp_all [foreign]
  exact (hdigits 1 2).andThen fun _ => hcolon.andThen fun _ => (hdigits 2 2).andThen fun _ =>
    hcolon.andThen fun _ => (hdigits 2 2).andThen fun _ => hmark.andThen fun _ =>
    (hdigits least most).andThen fun _ => closes_done _

end UltraTorrent.Subtitles.Timestamp

/-! The validator of subtitle texts: what format a text is in, its cues, and what is wrong with them. -/
namespace UltraTorrent.Subtitles.SubtitleValidator

open Library Library.Replacement Library.WhiteSpace Timestamp

inductive IssueSeverity where
  | error
  | warning
  deriving DecidableEq

structure ValidationIssue where
  code : String
  message : String
  severity : IssueSeverity
  cue : Option ℕ
  deriving DecidableEq

inductive Format where
  | srt
  | vtt
  | ass
  | unknown
  deriving DecidableEq

structure SubtitleValidationResult where
  format : Format
  valid : Bool
  cueCount : ℕ
  startMs : Option ℕ
  endMs : Option ℕ
  issues : List ValidationIssue
  deriving DecidableEq

structure Cue where
  index : ℕ
  startMs : ℕ
  endMs : ℕ
  text : List Char
  deriving DecidableEq

def largeGapMs : ℕ := 5 * 60000

/-! ### Times -/

def toMs (h m s : ℕ) (frac : List Char) : ℕ :=
  ((h * 60 + m) * 60 + s) * 1000 + number ((frac.rightpad 3 '0').take 3)

/-- `(\d{2}):(\d{2})[,.](\d{1,3})` -/
def shortClock : Matcher Char (List Char × List Char × List Char) :=
  (digits 2 2).andThen fun minutes => colon.andThen fun _ =>
  (digits 2 2).andThen fun seconds => (Matcher.item ([',', '.'].contains ·)).andThen fun _ =>
  (digits 1 3).andThen fun fraction => Matcher.done (minutes, seconds, fraction)

def parseSrtVttTime (raw : List Char) : Option ℕ :=
  match clock [',', '.'] 1 3 (trimmed raw) with
  | some (m, []) => some (toMs (number m.hours) (number m.minutes) (number m.seconds) m.fraction)
  | _ =>
    match shortClock (trimmed raw) with
    | some ((minutes, seconds, fraction), []) => some (toMs 0 (number minutes) (number seconds) fraction)
    | _ => none

def parseAssTime (raw : List Char) : Option ℕ :=
  match clock ['.', ':'] 1 2 (trimmed raw) with
  | some (m, []) => some (toMs (number m.hours) (number m.minutes) (number m.seconds)
      (Nat.toDigits 10 (number m.fraction * 10)))
  | _ => none

example : ["01:02:03,5", " 1:02:03.45 ", "02:03.500", "2:03.500", "1:02:03", "100:02:03.4"].map
    (parseSrtVttTime ·.toList) = [some 3723500, some 3723450, some 123500, none, none, none] := by decide +kernel

/-- Centiseconds with a zero in front are read ten times too large. -/
example : ["0:00:01.50", "0:00:01:50", "0:00:01.05", "0:00:01.5"].map (parseAssTime ·.toList) =
    [some 1500, some 1500, some 1500, some 1500] := by decide +kernel

/-! ### Formats -/

/-- `text.slice(0, units)`, in UTF-16 units; none of the patterns looks at half a character. -/
def sliceUnits : ℕ → List Char → List Char
  | 0, _ => []
  | _, [] => []
  | n + 1, c :: rest => c :: sliceUnits (if c.toNat < 0x10000 then n else n - 1) rest

def bom : Char := '\ufeff'

/-- `^\uFEFF?WEBVTT` -/
def vttHead : RegExp.Pattern :=
  RegExp.seq (RegExp.start :: RegExp.optional (RegExp.one (· = bom)) :: "WEBVTT".toList.map fun l => RegExp.one (· = l))

/-- `\[Script Info\]|\[V4\+? Styles\]|\[Events\]`, in any case. -/
def assHead : RegExp.Pattern :=
  RegExp.either [RegExp.word "[script info]",
    RegExp.seq [RegExp.word "[v4", RegExp.optional (RegExp.oneOf "+"), RegExp.word " styles]"],
    RegExp.word "[events]"]

/-- `\d{1,2}:\d{2}:\d{2}[,.]\d{1,3}` -/
def srtTime : RegExp.Pattern :=
  RegExp.seq [RegExp.between 1 2 RegExp.digit, RegExp.oneOf ":", RegExp.between 2 2 RegExp.digit,
    RegExp.oneOf ":", RegExp.between 2 2 RegExp.digit, RegExp.oneOf ",.", RegExp.between 1 3 RegExp.digit]

def srtHead : RegExp.Pattern :=
  RegExp.seq [srtTime, RegExp.star RegExp.space, RegExp.oneOf "-", RegExp.oneOf "-", RegExp.oneOf ">",
    RegExp.star RegExp.space, srtTime]

def detectFormat (content : List Char) (ext : Option String) : Format :=
  let head := sliceUnits 4096 content
  if RegExp.test vttHead head then .vtt
  else if RegExp.test assHead head then .ass
  else if RegExp.test srtHead head then .srt
  else
    let e := (ext.getD "").toList.map Char.toLower
    if e = "vtt".toList then .vtt
    else if e = "ass".toList ∨ e = "ssa".toList then .ass
    else if e = "srt".toList ∨ e = "sub".toList then .srt
    else .unknown

/-! ### Cues -/

/-- What `.` does not match. -/
def isLineTerminator (c : Char) : Bool := c = '\n' || c = '\r' || c.toNat = 0x2028 || c.toNat = 0x2029

section Patterns

variable {β : Type}

/-- `(.+?)` and what follows it: the first symbols after which that matches. -/
def lazily (next : List Char → Option β) : List Char → Option (List Char × β)
  | [] => none
  | c :: rest =>
    if isLineTerminator c then none
    else match next rest with
      | some b => some ([c], b)
      | none => (lazily next rest).map fun found => (c :: found.1, found.2)

/-- `\s*` and what follows it: as much white space as that lets be. -/
def spaces (next : List Char → Option β) : List Char → Option β
  | [] => next []
  | c :: rest => if isWhiteSpace c then (spaces next rest).or (next (c :: rest)) else next (c :: rest)

/-- `-->` and what follows it. -/
def arrowHead (next : List Char → Option β) : List Char → Option β
  | '-' :: '-' :: '>' :: rest => next rest
  | _ => none

/-- `(\s|$)` -/
def stops : List Char → Option Unit
  | [] => some ()
  | c :: _ => if isWhiteSpace c then some () else none

end Patterns

/-- `(.+?)\s*-->\s*(.+?)(\s|$)`, at the front of a text. -/
def arrowAt : List Char → Option (List Char × List Char × Unit) :=
  lazily (spaces (arrowHead (spaces (lazily stops))))

/-- The two groups of the leftmost match. -/
def arrow : List Char → Option (List Char × List Char)
  | [] => none
  | c :: rest => ((arrowAt (c :: rest)).map fun found => (found.1, found.2.1)).or (arrow rest)

example : ["00:01.000 --> 00:02.000 align:start", "-->", "a-->b", "a --> ", "1"].map (arrow ·.toList) =
    [some ("00:01.000".toList, "00:02.000".toList), none, some (['a'], ['b']), some (['a'], [' ']), none] := by
  decide +kernel

/-- What a line of a subtitle says, with the lines after it. -/
inductive Reading where
  | other
  | malformed
  | cue (startMs endMs : ℕ) (text : List Char)
  deriving DecidableEq

/-- The cues of some lines, and how many could not be read. -/
def collect (read : List Char → List (List Char) → Reading) : ℕ → List (List Char) → List Cue × ℕ
  | _, [] => ([], 0)
  | index, line :: rest =>
    match read line rest with
    | .other => collect read index rest
    | .malformed => ((collect read (index + 1) rest).1, (collect read (index + 1) rest).2 + 1)
    | .cue startMs endMs text =>
      (⟨index + 1, startMs, endMs, text⟩ :: (collect read (index + 1) rest).1, (collect read (index + 1) rest).2)

/-- `content.replace(/\r\n/g, '\n')` -/
def unixLines : List Char → List Char
  | [] => []
  | '\r' :: '\n' :: rest => '\n' :: unixLines rest
  | c :: rest => c :: unixLines rest

def dropBom (text : List Char) : List Char := if text.head? = some bom then text.tail else text

def joinLines (lines : List (List Char)) : List Char := ['\n'].intercalate lines

/-- A cue goes on to the next blank line. -/
def srtVttBody (rest : List (List Char)) : List (List Char) := rest.takeWhile fun line => trimmed line ≠ []

def srtVttReading (line : List Char) (rest : List (List Char)) : Reading :=
  match arrow line with
  | none => .other
  | some (start, stop) =>
    match parseSrtVttTime start, parseSrtVttTime stop with
    | some startMs, some endMs => .cue startMs endMs (joinLines (srtVttBody rest))
    | _, _ => .malformed

def srtVttLines (content : List Char) : List (List Char) := (dropBom (unixLines content)).splitOn '\n'

def parseSrtVtt (content : List Char) : List Cue × ℕ := collect srtVttReading 0 (srtVttLines content)

/-- `^Dialogue:`, in any case. -/
def isDialogue (line : List Char) : Bool := (line.take 9).map Char.toLower = "dialogue:".toList

/-- What stands between the commas after the first colon. -/
def assFields (line : List Char) : List (List Char) := ((line.dropWhile (· ≠ ':')).tail).splitOn ','

def assReading (line : List Char) (_ : List (List Char)) : Reading :=
  if isDialogue line then
    let fields := assFields line
    match parseAssTime (fields[1]?.getD []), parseAssTime (fields[2]?.getD []) with
    | some startMs, some endMs => .cue startMs endMs ([','].intercalate (fields.drop 9))
    | _, _ => .malformed
  else .other

def assLines (content : List Char) : List (List Char) := (unixLines content).splitOn '\n'

def parseAss (content : List Char) : List Cue × ℕ := collect assReading 0 (assLines content)

def parseCues (content : List Char) (format : Format) : List Cue × ℕ :=
  if format = .ass then parseAss content else parseSrtVtt content

/-! ### Validation -/

def error (code message : String) (cue : Option ℕ) : ValidationIssue := ⟨code, message, .error, cue⟩

def warning (code message : String) (cue : Option ℕ) : ValidationIssue := ⟨code, message, .warning, cue⟩

def orderIssues (prev cue : Cue) : List ValidationIssue :=
  if cue.startMs < prev.startMs then
    [error "out_of_order" "Cue starts before the previous cue." (some cue.index)]
  else if cue.startMs < prev.endMs then
    [warning "overlap" "Cue overlaps the previous cue." (some cue.index)]
  else if cue.startMs - prev.endMs > largeGapMs then
    [warning "large_gap" "Unusually large gap before this cue." (some cue.index)]
  else []

/-- No cue has a negative time: none is written with a sign. -/
def cueIssues : Option Cue → List Cue → List ValidationIssue
  | _, [] => []
  | prev, cue :: cues =>
    (if cue.startMs < 0 ∨ cue.endMs < 0 then
      [error "negative_timestamp" "Cue has a negative timestamp." (some cue.index)] else []) ++
    (if cue.endMs ≤ cue.startMs then
      [error "inverted_timing" "Cue end is not after its start." (some cue.index)] else []) ++
    (prev.toList.flatMap fun prev => orderIssues prev cue) ++ cueIssues (some cue) cues

def validateSubtitle (content : List Char) (ext : Option String) : SubtitleValidationResult :=
  let format := detectFormat content ext
  if trimmed content = [] then
    ⟨format, false, 0, none, none, [error "empty" "Subtitle file is empty." none]⟩
  else
    let formatIssues := if format = .unknown then
      [error "unknown_format" "Content is not recognizable SRT, VTT, or ASS." none] else []
    let (cues, malformed) := parseCues content (if format = .unknown then .srt else format)
    let malformedIssues := if 0 < malformed then
      [error "malformed_cues" (toString malformed ++ " cue(s) have an unparseable timestamp.") none] else []
    if cues.length = 0 then
      ⟨format, false, 0, none, none,
        formatIssues ++ malformedIssues ++ [error "no_cues" "No valid subtitle cues were found." none]⟩
    else
      let issues := formatIssues ++ malformedIssues ++ cueIssues none cues
      ⟨format, !issues.any (·.severity = .error), cues.length, (cues.map (·.startMs)).min?,
        (cues.map (·.endMs)).max?, issues⟩

theorem format_validateSubtitle (content : List Char) (ext : Option String) :
    (validateSubtitle content ext).format = detectFormat content ext := by
  simp only [validateSubtitle]
  split_ifs <;> rfl

/-- A valid text has a format, and all its times are read. -/
theorem of_valid {content : List Char} {ext : Option String} (h : (validateSubtitle content ext).valid = true) :
    (validateSubtitle content ext).format ≠ .unknown ∧
      (parseCues content (validateSubtitle content ext).format).2 = 0 := by
  rw [format_validateSubtitle]
  simp only [validateSubtitle] at h
  split_ifs at h with _ hunknown <;> simp [error] at h
  rename_i _ hmalformed
  exact ⟨hunknown, by omega⟩

end UltraTorrent.Subtitles.SubtitleValidator
