import UltraTorrent.Library.Replacement
import UltraTorrent.MediaRenamer.Languages
import UltraTorrent.Subtitles.SubtitleInstall

/-! The language and the flags that the name of a subtitle ends with. What an installer writes there is
read back, together with what the title ends with; `hi` is read as the flag. -/
namespace UltraTorrent.Subtitles.SidecarTags

open Library Library.EcmaScript Library.NodePath Library.Replacement Library.Segments
open MediaRenamer.Languages SubtitleInstall

/-! ### The table -/

/-- The English name of each language of the table, and the other names it goes by, in its order. -/
def languageNames : List (String × List String) :=
  [("English", []), ("Spanish", ["castilian", "spanish (latin america)", "latin american spanish"]), ("French", []),
    ("German", []), ("Italian", []), ("Portuguese", ["brazilian portuguese", "portuguese (brazil)"]),
    ("Dutch", ["flemish"]), ("Japanese", []), ("Korean", []),
    ("Chinese", ["chinese bg code", "big 5 code", "mandarin", "cantonese", "chinese simplified",
      "chinese traditional"]), ("Russian", []), ("Arabic", []), ("Polish", []), ("Swedish", []), ("Danish", []),
    ("Norwegian", ["norwegian bokmal", "norwegian nynorsk"]), ("Finnish", []), ("Hindi", []), ("Turkish", []),
    ("Greek", []), ("Hebrew", []), ("Hungarian", []), ("Czech", []), ("Slovak", []), ("Romanian", []),
    ("Bulgarian", []), ("Croatian", []), ("Serbian", []), ("Slovenian", []), ("Bosnian", []), ("Macedonian", []),
    ("Albanian", []), ("Thai", []), ("Indonesian", []), ("Malay", []), ("Vietnamese", []),
    ("Tagalog", ["filipino"]), ("Tamil", []), ("Telugu", []), ("Malayalam", []), ("Kannada", []), ("Marathi", []),
    ("Punjabi", []), ("Bengali", []), ("Sinhala", ["sinhalese"]), ("Nepali", []), ("Urdu", []),
    ("Persian", ["farsi", "farsi/persian"]), ("Ukrainian", []), ("Belarusian", []), ("Estonian", []),
    ("Latvian", []), ("Lithuanian", []), ("Icelandic", []), ("Catalan", []), ("Galician", []), ("Basque", []),
    ("Georgian", []), ("Armenian", []), ("Azerbaijani", []), ("Kazakh", []), ("Mongolian", []),
    ("Khmer", ["cambodian"]), ("Lao", []), ("Burmese", []), ("Afrikaans", []), ("Swahili", []), ("Irish", []),
    ("Welsh", []), ("Maltese", []), ("Esperanto", []), ("Latin", []), ("Yiddish", [])]

/-- `/[\s/()]/.test(name)`. -/
def isPhrase (name : String) : Bool :=
  name.toList.any fun c => WhiteSpace.isWhiteSpace c || c = '/' || c = '(' || c = ')'

def tokenToCode : List (String × String) :=
  (languages.zip languageNames).flatMap fun (l, name, names) =>
    (l.code, l.code) :: ((l.codes.filter fun spelling => !spelling.toList.contains '-').map (·, l.code) ++
      ((name.toLower :: names).filter fun name => !isPhrase name).map (·, l.code))

example : languages.length = languageNames.length := rfl

/-! ### The names of subtitles -/

structure SubtitleTags where
  language : String
  forced : Bool
  sdh : Bool
  deriving DecidableEq

section

variable (rt : Runtime)

def languageFromToken (token : String) : Option String :=
  mapGet tokenToCode (rt.toLowerCase (WhiteSpace.trim token))

/-- The loop over the tokens from the last one on, with what it has found. -/
def scanTags (tags : SubtitleTags) : List String → SubtitleTags
  | [] => tags
  | token :: before =>
    let t := rt.toLowerCase token
    if t = "" then scanTags tags before
    else if t = "forced" then scanTags { tags with forced := true } before
    else if t = "sdh" ∨ t = "hi" ∨ t = "cc" then scanTags { tags with sdh := true } before
    else match languageFromToken rt t with
      | some code => scanTags (if tags.language = "und" then { tags with language := code } else tags) before
      -- a word of the title
      | none => tags

def noTags : SubtitleTags := ⟨"und", false, false⟩

def subtitleTagsFromTokens (tokens : List String) : SubtitleTags := scanTags rt noTags tokens.reverse

def isTagSeparator (c : Char) : Bool := c = '.' || WhiteSpace.isWhiteSpace c || c = '_' || c = '-'

/-- `baseName.split(/[.\s_-]+/)`. -/
def tagTokens (baseName : String) : List String :=
  ((collapse isTagSeparator '.' baseName.toList).splitOnP isTagSeparator).map String.ofList

def subtitleTagsFromName (baseName : String) : SubtitleTags := subtitleTagsFromTokens rt (tagTokens baseName)

end

/-! ### What the scan finds -/

section Scan

variable {rt : Runtime} {tags : SubtitleTags} {token : String} {tokens : List String}

/-- A language that has been found stays; flags add up. -/
def overlay (tags before : SubtitleTags) : SubtitleTags where
  language := if tags.language = "und" then before.language else tags.language
  forced := tags.forced || before.forced
  sdh := tags.sdh || before.sdh

/-- The scan goes on as it would have begun, and what it has found is laid over the rest. -/
theorem scanTags_eq (rt : Runtime) (tags : SubtitleTags) (tokens : List String) :
    scanTags rt tags tokens = overlay tags (scanTags rt noTags tokens) := by
  induction tokens generalizing tags with
  | nil =>
    obtain ⟨language, forced, sdh⟩ := tags
    by_cases hund : language = "und" <;> simp [scanTags, overlay, noTags, hund]
  | cons token before ih =>
    rw [scanTags, scanTags]
    by_cases hempty : rt.toLowerCase token = ""
    · rw [if_pos hempty, if_pos hempty]
      exact ih tags
    rw [if_neg hempty, if_neg hempty]
    by_cases hforced : rt.toLowerCase token = "forced"
    · rw [if_pos hforced, if_pos hforced, ih { tags with forced := true }, ih { noTags with forced := true }]
      simp [overlay, noTags]
    rw [if_neg hforced, if_neg hforced]
    by_cases hsdh : rt.toLowerCase token = "sdh" ∨ rt.toLowerCase token = "hi" ∨ rt.toLowerCase token = "cc"
    · rw [if_pos hsdh, if_pos hsdh, ih { tags with sdh := true }, ih { noTags with sdh := true }]
      simp [overlay, noTags]
    rw [if_neg hsdh, if_neg hsdh]
    cases languageFromToken rt (rt.toLowerCase token) with
    | none =>
      obtain ⟨language, forced, sdh⟩ := tags
      by_cases hund : language = "und" <;> simp [overlay, noTags, hund]
    | some code =>
      dsimp only
      rw [if_pos (show noTags.language = "und" from rfl), ih { noTags with language := code }]
      by_cases hund : tags.language = "und"
      · rw [if_pos hund, ih { tags with language := code }]
        simp [overlay, noTags, hund]
      · rw [if_neg hund, ih tags]
        simp [overlay, noTags, hund]

theorem scanTags_filter (hempty : rt.toLowerCase "" = "") (tags : SubtitleTags) (tokens : List String) :
    scanTags rt tags (tokens.filter (· ≠ "")) = scanTags rt tags tokens := by
  induction tokens generalizing tags with
  | nil => rfl
  | cons token before ih =>
    by_cases htoken : token = ""
    · rw [List.filter_cons_of_neg (by simpa using htoken), ih, scanTags, htoken, if_pos hempty]
    · rw [List.filter_cons_of_pos (by simpa using htoken), scanTags, scanTags]
      simp only [ih]

theorem filter_tagTokens (baseName : String) :
    (tagTokens baseName).filter (· ≠ "") = (parts isTagSeparator baseName.toList).map String.ofList := by
  rw [tagTokens, List.filter_map, ← @parts_collapse _ _ isTagSeparator '.' rfl, parts]
  refine congrArg (List.map String.ofList) (List.filter_congr fun segment _ => ?_)
  cases segment <;> simp

theorem subtitleTagsFromName_eq (hempty : rt.toLowerCase "" = "") (baseName : String) :
    subtitleTagsFromName rt baseName =
      scanTags rt noTags ((parts isTagSeparator baseName.toList).map String.ofList).reverse := by
  rw [subtitleTagsFromName, subtitleTagsFromTokens, ← scanTags_filter hempty, List.filter_reverse,
    filter_tagTokens]

end Scan

/-! ### What the installer writes -/

/-- `toLowerCase` as the language documents it for plain letters, digits and signs. -/
def LowersAscii (rt : Runtime) : Prop :=
  ∀ text : String, (∀ c ∈ text.toList, c.toNat < 128) → rt.toLowerCase text = text.toLower

/-- A spelling is no flag but `hi`, and has at most three letters where it has no hyphen. -/
theorem spelling_spec : ∀ l ∈ languages, l.code ≠ "und" ∧ ∀ spelling ∈ l.code :: l.codes,
    spelling ≠ "forced" ∧ spelling ≠ "sdh" ∧ spelling ≠ "cc" ∧ spelling ≠ "" ∧
      (spelling = "pt-br" ∨ spelling.toList.length ≤ 3) := by
  simp only [languages, List.forall_mem_cons, List.not_mem_nil, false_imp_iff, implies_true, and_true, ne_eq,
    String.reduceEq, not_false_eq_true, String.reduceToList, List.length_cons, List.length_nil, Nat.reduceAdd,
    Nat.reduceLeDiff, true_or, false_or]

theorem short_names : ∀ e ∈ languages.zip languageNames,
    (3 < e.2.1.toList.length ∨ e.2.1 = "Lao" ∧ e.1.codes = ["lao"]) ∧ ∀ name ∈ e.2.2, 3 < name.toList.length := by
  simp only [languages, languageNames, List.zip_cons_cons, List.zip_nil_left, List.forall_mem_cons, List.not_mem_nil,
    false_imp_iff, implies_true, String.reduceEq, String.reduceToList, List.length_cons, List.length_nil,
    Nat.reduceAdd, Nat.reduceLT, and_self, false_and, or_false, or_true]

theorem spelling_of_mem {p : String × String} (hp : p ∈ codeToCode) :
    ∃ l ∈ languages, p.1 ∈ l.code :: l.codes ∧ p.2 = l.code := by
  obtain ⟨l, hl, hp⟩ := List.mem_flatMap.1 hp
  rcases List.mem_cons.1 hp with rfl | hp
  · exact ⟨l, hl, List.mem_cons_self, rfl⟩
  · obtain ⟨spelling, hspelling, rfl⟩ := List.mem_map.1 hp
    exact ⟨l, hl, List.mem_cons_of_mem _ hspelling, rfl⟩

/-- No code is empty or a flag but `hi`, and none means no language. -/
theorem code_spec {token code : String} (hcode : mapGet codeToCode token = some code) :
    code ≠ "und" ∧ token ≠ "forced" ∧ token ≠ "sdh" ∧ token ≠ "cc" ∧ token ≠ "" ∧
      (token = "pt-br" ∨ token.toList.length ≤ 3) := by
  obtain ⟨l, hl, hspelling, rfl⟩ := spelling_of_mem (mem_of_mapGet hcode)
  exact ⟨(spelling_spec l hl).1, (spelling_spec l hl).2 token hspelling⟩

theorem code_of_short {e : LanguageEntry × String × List String} (he : e ∈ languages.zip languageNames) {name : String}
    (hname : name ∈ e.2.1.toLower :: e.2.2) (hlength : name.toList.length ≤ 3) : name ∈ e.1.code :: e.1.codes := by
  obtain ⟨hfirst, hrest⟩ := short_names e he
  rcases List.mem_cons.1 hname with rfl | hname
  · have htext : e.2.1.toLower.toList = e.2.1.toList.map Char.toLower := String.toList_map
    rcases hfirst with hlong | ⟨hlao, hcodes⟩
    · rw [htext, List.length_map] at hlength
      exact absurd hlength hlong.not_ge
    · rw [hcodes]
      refine List.mem_cons_of_mem _ (List.mem_singleton.2 (String.toList_inj.1 ?_))
      rw [htext, hlao]
      simp
  · exact absurd hlength (hrest name hname).not_ge

theorem mem_spellings {e : LanguageEntry × String × List String} {token : String} (hdash : '-' ∉ token.toList)
    (hlength : token.toList.length ≤ 3) (he : e ∈ languages.zip languageNames) :
    token ∈ e.1.code :: ((e.1.codes.filter fun spelling => !spelling.toList.contains '-') ++
      (e.2.1.toLower :: e.2.2).filter fun name => !isPhrase name) ↔ token ∈ e.1.code :: e.1.codes := by
  rw [List.mem_cons, List.mem_append, List.mem_filter, List.mem_filter]
  constructor
  · rintro (hcode | ⟨hcodes, -⟩ | ⟨hname, -⟩)
    · exact List.mem_cons.2 (.inl hcode)
    · exact List.mem_cons_of_mem _ hcodes
    · exact code_of_short he hname hlength
  · intro hspelling
    rcases List.mem_cons.1 hspelling with hcode | hcodes
    · exact .inl hcode
    · exact .inr (.inl ⟨hcodes, by simpa using hdash⟩)

theorem mapGet_tokenToCode {token : String} (hdash : '-' ∉ token.toList) (hlength : token.toList.length ≤ 3) :
    mapGet tokenToCode token = mapGet codeToCode token := by
  have hzip : (languages.zip languageNames).map Prod.fst = languages := by rfl
  have hentries : ∀ entries : List (LanguageEntry × String × List String), entries ⊆ languages.zip languageNames →
      mapGet (entries.flatMap fun (l, name, names) =>
        (l.code, l.code) :: ((l.codes.filter fun spelling => !spelling.toList.contains '-').map (·, l.code) ++
          ((name.toLower :: names).filter fun name => !isPhrase name).map (·, l.code))) token =
        mapGet ((entries.map Prod.fst).flatMap fun l =>
          (l.code, l.code) :: l.codes.map fun spelling => (spelling, l.code)) token := by
    intro entries hentries
    induction entries with
    | nil => rfl
    | cons e entries ih =>
      obtain ⟨hfirst, hrest⟩ := List.cons_subset.1 hentries
      have hspellings := mem_spellings hdash hlength hfirst
      rw [List.flatMap_cons, List.map_cons, List.flatMap_cons, mapGet_append, mapGet_append, ih hrest]
      congr 1
      obtain ⟨l, name, names⟩ := e
      dsimp only
      rw [← List.map_append, ← List.map_cons (f := (·, l.code)), ← List.map_cons (f := (·, l.code)),
        mapGet_map_const, mapGet_map_const]
      exact if_congr hspellings rfl rfl
  rw [tokenToCode, hentries _ (List.Subset.refl _), hzip, codeToCode]

theorem codes_tokens {token code : String} (hcode : mapGet codeToCode token = some code)
    (hdash : '-' ∉ token.toList) : mapGet tokenToCode token = some code := by
  obtain ⟨-, -, -, -, -, hbrazil | hlength⟩ := code_spec hcode
  · rw [hbrazil] at hdash
    exact absurd (by decide) hdash
  · rw [mapGet_tokenToCode hdash hlength, hcode]

section Installed

variable {rt : Runtime} {found : SubtitleTags} {token code : String} {spec : SidecarSpec}

theorem LowersAscii.small (hlower : LowersAscii rt) (hascii : ∀ c ∈ token.toList, c.toNat < 128)
    (hsmall : token.toList.map Char.toLower = token.toList) : rt.toLowerCase token = token := by
  apply String.toList_inj.1
  rw [hlower token hascii]
  exact String.toList_map.trans hsmall

theorem LowersAscii.empty (hlower : LowersAscii rt) : rt.toLowerCase "" = "" := hlower.small (by simp) (by simp)

theorem scanTags_forced (hlower : LowersAscii rt) (found : SubtitleTags) (before : List String) :
    scanTags rt found ("forced" :: before) = scanTags rt { found with forced := true } before := by
  rw [scanTags, hlower.small (by simp) (by simp), if_neg (by decide), if_pos rfl]

theorem scanTags_sdh (hlower : LowersAscii rt) (found : SubtitleTags) (before : List String) :
    scanTags rt found ("sdh" :: before) = scanTags rt { found with sdh := true } before := by
  rw [scanTags, hlower.small (by simp) (by simp), if_neg (by decide), if_neg (by decide), if_pos (.inl rfl)]

theorem scanTags_hi (hi : rt.toLowerCase token = "hi") (found : SubtitleTags) (before : List String) :
    scanTags rt found (token :: before) = scanTags rt { found with sdh := true } before := by
  rw [scanTags, hi, if_neg (by decide), if_neg (by decide), if_pos (.inr (.inl rfl))]

theorem scanTags_tags (hlower : LowersAscii rt) (spec : SidecarSpec) (before : List String) :
    scanTags rt noTags ((tags spec).reverse ++ before) =
      scanTags rt ⟨"und", spec.forced, spec.sdh⟩ (spec.language :: before) := by
  obtain ⟨language, forced, sdh, format⟩ := spec
  cases forced <;> cases sdh <;> simp [tags, scanTags_forced hlower, scanTags_sdh hlower, noTags]

theorem lt_of_isAlpha {c : Char} (h : c.isAlpha = true) : c.toNat < 128 := by
  change (decide ('A'.val ≤ c.val ∧ c.val ≤ 'Z'.val) || (decide ('a'.val ≤ c.val) && decide (c.val ≤ 'z'.val))) =
    true at h
  simp only [Bool.or_eq_true, Bool.and_eq_true, decide_eq_true_eq, UInt32.le_iff_toNat_le] at h
  have htoNat : c.toNat = c.val.toNat := rfl
  have hZ : 'Z'.val.toNat = 90 := rfl
  have hz : 'z'.val.toNat = 122 := rfl
  omega

theorem letter_spec {c : Char} (h : c.isAlpha = true) : isTagSeparator c = false ∧ c.toLower ≠ '-' ∧
    WhiteSpace.isWhiteSpace c.toLower = false ∧ c.toLower.toLower = c.toLower ∧ c.toLower.toNat < 128 := by
  have hall : ∀ n < 128, (Char.ofNat n).isAlpha = true → isTagSeparator (Char.ofNat n) = false ∧
      (Char.ofNat n).toLower ≠ '-' ∧ WhiteSpace.isWhiteSpace (Char.ofNat n).toLower = false ∧
        (Char.ofNat n).toLower.toLower = (Char.ofNat n).toLower ∧ (Char.ofNat n).toLower.toNat < 128 := by decide
  have hspec := hall c.toNat (lt_of_isAlpha h)
  rw [Char.ofNat_toNat] at hspec
  exact hspec h

/-- Letters in small ones. -/
theorem toLower_spec (hlower : LowersAscii rt) (h : ∀ c ∈ token.toList, c.isAlpha = true) :
    '-' ∉ (rt.toLowerCase token).toList ∧ WhiteSpace.trim (rt.toLowerCase token) = rt.toLowerCase token ∧
      rt.toLowerCase (rt.toLowerCase token) = rt.toLowerCase token := by
  have htext : (rt.toLowerCase token).toList = token.toList.map Char.toLower := by
    rw [hlower token fun c hc => lt_of_isAlpha (h c hc)]
    exact String.toList_map
  have hwhite : ∀ c ∈ token.toList.map Char.toLower, WhiteSpace.isWhiteSpace c = false :=
    List.forall_mem_map.2 fun c hc => (letter_spec (h c hc)).2.2.1
  refine ⟨?_, ?_, hlower.small ?_ ?_⟩
  · rw [htext, List.mem_map]
    rintro ⟨c, hc, hdash⟩
    exact (letter_spec (h c hc)).2.1 hdash
  · rw [WhiteSpace.trim, htext, (WhiteSpace.trimmed_eq_self fun c hc => hwhite c (List.mem_of_mem_head? hc)).2 fun hends => ?_,
      ← htext, String.ofList_toList]
    rw [WhiteSpace.EndsInWhiteSpace, Option.any_eq_true] at hends
    obtain ⟨c, hlast, hspace⟩ := hends
    rw [hwhite c (List.mem_of_getLast? hlast)] at hspace
    cases hspace
  · rw [htext]
    exact List.forall_mem_map.2 fun c hc => (letter_spec (h c hc)).2.2.2.2
  · rw [htext, List.map_map]
    exact List.map_congr_left fun c hc => (letter_spec (h c hc)).2.2.2.1

theorem scanTags_code (hlower : LowersAscii rt) (hletters : ∀ c ∈ token.toList, c.isAlpha = true)
    (hcode : mapGet codeToCode (rt.toLowerCase token) = some code) (hhi : rt.toLowerCase token ≠ "hi")
    (hund : found.language = "und") (before : List String) :
    scanTags rt found (token :: before) = scanTags rt { found with language := code } before := by
  obtain ⟨-, hforced, hsdh, hcc, hempty, -⟩ := code_spec hcode
  obtain ⟨hdash, htrim, hsmall⟩ := toLower_spec hlower hletters
  have hlanguage : languageFromToken rt (rt.toLowerCase token) = some code := by
    rw [languageFromToken, htrim, hsmall, codes_tokens hcode hdash]
  rw [scanTags, if_neg hempty, if_neg hforced, if_neg (by simp [hsdh, hhi, hcc]), hlanguage]
  dsimp only
  rw [if_pos hund]

theorem letters_tags (hne : spec.language ≠ "") (hletters : ∀ c ∈ spec.language.toList, c.isAlpha = true) :
    ∀ word ∈ tags spec, word ≠ "" ∧ ∀ c ∈ word.toList, c.isAlpha = true := by
  intro word hword
  rw [tags, List.mem_cons, List.mem_append] at hword
  rcases hword with rfl | hforced | hsdh
  · exact ⟨hne, hletters⟩
  · split_ifs at hforced
    · rw [List.mem_singleton.1 hforced]
      exact ⟨by decide, List.all_eq_true.1 (by decide)⟩
    · cases hforced
  · split_ifs at hsdh
    · rw [List.mem_singleton.1 hsdh]
      exact ⟨by decide, List.all_eq_true.1 (by decide)⟩
    · cases hsdh

theorem parts_installed (base : String) (hne : spec.language ≠ "")
    (hletters : ∀ c ∈ spec.language.toList, c.isAlpha = true) :
    (parts isTagSeparator (".".intercalate (base :: tags spec)).toList).map String.ofList =
      (parts isTagSeparator base.toList).map String.ofList ++ tags spec := by
  have hsegments : ∀ segment ∈ (tags spec).map String.toList, segment ≠ [] ∧ Free isTagSeparator segment := by
    refine List.forall_mem_map.2 fun word hword => ?_
    obtain ⟨hne, halpha⟩ := letters_tags hne hletters word hword
    exact ⟨fun hnil => hne (String.toList_eq_nil_iff.1 hnil), fun c hc => (letter_spec (halpha c hc)).1⟩
  rw [String.toList_intercalate, List.map_cons, show ".".toList = ['.'] from rfl, intercalate_cons,
    parts_append_joined rfl hsegments, List.map_append, List.map_map]
  simp

theorem language_ne (hlower : LowersAscii rt) (hcode : mapGet codeToCode (rt.toLowerCase token) = some code) :
    token ≠ "" := by
  rintro rfl
  rw [hlower.empty] at hcode
  exact (code_spec hcode).2.2.2.2.1 rfl

theorem tags_installed (hlower : LowersAscii rt) (hletters : ∀ c ∈ spec.language.toList, c.isAlpha = true)
    (hcode : mapGet codeToCode (rt.toLowerCase spec.language) = some code) (base : String) :
    subtitleTagsFromName rt (".".intercalate (base :: tags spec)) =
      overlay (if rt.toLowerCase spec.language = "hi" then ⟨"und", spec.forced, true⟩
        else ⟨code, spec.forced, spec.sdh⟩) (subtitleTagsFromName rt base) := by
  rw [subtitleTagsFromName_eq hlower.empty, subtitleTagsFromName_eq hlower.empty,
    parts_installed base (language_ne hlower hcode) hletters, List.reverse_append, scanTags_tags hlower, ← scanTags_eq]
  split_ifs with hhi
  · exact scanTags_hi hhi _ _
  · exact scanTags_code hlower hletters hcode hhi rfl _

/-- The name of a file without its extension. -/
def stem (path : String) : String := basenameWithout path (extname path)

theorem no_slash_component (path : List Char) : '/' ∉ component path := by
  intro hslash
  simpa using List.mem_rtakeWhile_imp hslash

theorem no_slash_basenameWithout (path suffix : String) : '/' ∉ (basenameWithout path suffix).toList := by
  have hcomponent := no_slash_component path.toList
  unfold basenameWithout
  dsimp only
  split_ifs
  · simp
  · rw [String.toList_ofList]
    exact fun hslash => hcomponent (List.mem_of_mem_take hslash)
  · rwa [String.toList_ofList]

theorem no_slash_installed (hne : spec.language ≠ "") (hletters : ∀ c ∈ spec.language.toList, c.isAlpha = true)
    (videoPath : String) : '/' ∉ (".".intercalate (stem videoPath :: tags spec)).toList := by
  have hfree : ∀ segment ∈ (stem videoPath :: tags spec).map String.toList, Free (· = '/') segment := by
    refine List.forall_mem_map.2 fun word hword c hc => decide_eq_false ?_
    rintro rfl
    rcases List.mem_cons.1 hword with hstem | hword
    · rw [hstem] at hc
      exact no_slash_basenameWithout _ _ hc
    · exact absurd ((letters_tags hne hletters word hword).2 _ hc) (by decide)
  rw [String.toList_intercalate]
  exact fun hslash => of_decide_eq_false (free_intercalate (by decide) hfree _ hslash) rfl

theorem name_of_long {front after : List Char} (hlong : 2 ≤ front.length) (hfront : '/' ∉ front)
    (hafter : '/' ∉ after) : CanonicalPath.Name (front ++ '.' :: after) := by
  have hlength : 2 < (front ++ '.' :: after).length := by
    rw [List.length_append, List.length_cons]
    omega
  refine ⟨fun h => by simp at h, fun hslash => ?_, fun h => ?_, fun h => ?_⟩
  · rcases List.mem_append.1 hslash with hslash | hslash
    · exact hfront hslash
    · exact hafter (List.mem_of_ne_of_mem (by decide) hslash)
  · rw [h] at hlength
    exact absurd hlength (by decide)
  · rw [h] at hlength
    exact absurd hlength (by decide)

/-- The installer puts the tags between the title and the format. -/
theorem stem_sidecarPath (videoPath : String) (hne : spec.language ≠ "")
    (hletters : ∀ c ∈ spec.language.toList, c.isAlpha = true) (hformat : extension spec.format ≠ "")
    (hfree : ∀ c ∈ (extension spec.format).toList, c ≠ '.' ∧ c ≠ '/') :
    stem (sidecarPath videoPath spec) = ".".intercalate (stem videoPath :: tags spec) := by
  have hafter : (extension spec.format).toList ≠ [] := fun hnil => hformat (String.toList_eq_nil_iff.1 hnil)
  have hlong : 2 ≤ (".".intercalate (stem videoPath :: tags spec)).toList.length := by
    have hpos := List.length_pos_of_ne_nil fun hnil => hne (String.toList_eq_nil_iff.1 hnil)
    rw [String.toList_intercalate, List.map_cons, tags, List.map_cons, show ".".toList = ['.'] from rfl,
      intercalate_cons, joined_cons, List.length_append, List.length_cons, List.length_append]
    omega
  have hname := name_of_long hlong (no_slash_installed hne hletters videoPath) fun hslash => (hfree _ hslash).2 rfl
  have htext : (".".intercalate (stem videoPath :: tags spec) ++ "." ++ extension spec.format).toList =
      (".".intercalate (stem videoPath :: tags spec)).toList ++ '.' :: (extension spec.format).toList := by
    simp
  have hcomponent : component (sidecarPath videoPath spec).toList =
      (".".intercalate (stem videoPath :: tags spec)).toList ++ '.' :: (extension spec.format).toList :=
    component_join (.inl htext) hname
  have hfront : (".".intercalate (stem videoPath :: tags spec)).toList ≠ [] := by
    intro hnil
    rw [hnil] at hlong
    exact absurd hlong (by decide)
  rw [stem, basenameWithout_extname hcomponent hfront hafter fun hdot => (hfree _ hdot).1 rfl, String.ofList_toList]

end Installed

/-- The name of an installed subtitle says its language and its flags, and what its title ends with; `hi`
is the flag. -/
theorem tags_sidecarPath (rt : Runtime) (hlower : LowersAscii rt) (videoPath : String) (spec : SidecarSpec)
    (code : String) (hletters : ∀ c ∈ spec.language.toList, c.isAlpha = true)
    (hcode : mapGet codeToCode (rt.toLowerCase spec.language) = some code) (hformat : extension spec.format ≠ "")
    (hfree : ∀ c ∈ (extension spec.format).toList, c ≠ '.' ∧ c ≠ '/') :
    let title := subtitleTagsFromName rt (stem videoPath)
    subtitleTagsFromName rt (stem (sidecarPath videoPath spec)) =
      if rt.toLowerCase spec.language = "hi" then ⟨title.language, spec.forced || title.forced, true⟩
      else ⟨code, spec.forced || title.forced, spec.sdh || title.sdh⟩ := by
  intro title
  have hund : code ≠ "und" := (code_spec hcode).1
  rw [stem_sidecarPath videoPath (language_ne hlower hcode) hletters hformat hfree,
    tags_installed hlower hletters hcode]
  split_ifs
  · rw [overlay, if_pos rfl, Bool.true_or]
  · rw [overlay, if_neg hund]

/-- `film` is a word of the title. -/
theorem film_unnamed : ∀ e ∈ languages.zip languageNames,
    e.2.1.toList.map Char.toLower ≠ ['f', 'i', 'l', 'm'] ∧ ∀ name ∈ e.2.2, name ≠ "film" := by
  simp only [languages, languageNames, List.zip_cons_cons, List.zip_nil_left, List.forall_mem_cons, List.not_mem_nil,
    false_imp_iff, implies_true, and_true, String.reduceEq, String.reduceToList, List.map_cons, List.map_nil,
    Char.reduceToLower, ne_eq, List.cons.injEq, Char.reduceEq, not_false_eq_true, and_false, reduceCtorEq]

theorem film_not_token (code : String) : ("film", code) ∉ tokenToCode := by
  intro hfilm
  obtain ⟨e, he, hfilm⟩ := List.mem_flatMap.1 hfilm
  have hspelling := fun h => (spelling_spec e.1 (List.of_mem_zip he).1).2 "film" h
  obtain ⟨hfirst, hrest⟩ := film_unnamed e he
  have hlong : "film" ∉ e.1.code :: e.1.codes := fun h => absurd (hspelling h).2.2.2.2 (by simp)
  rw [List.mem_cons, List.mem_append, List.mem_map, List.mem_map] at hfilm
  rcases hfilm with hcode | ⟨spelling, hcodes, hcode⟩ | ⟨name, hname, hcode⟩
  · exact hlong (List.mem_cons.2 (.inl (Prod.mk.inj hcode).1))
  · rw [(Prod.mk.inj hcode).1] at hcodes
    exact hlong (List.mem_cons_of_mem _ (List.mem_of_mem_filter hcodes))
  · rw [(Prod.mk.inj hcode).1] at hname
    rcases List.mem_cons.1 (List.mem_of_mem_filter hname) with hname | hname
    · apply hfirst
      have htext : e.2.1.toLower.toList = e.2.1.toList.map Char.toLower := String.toList_map
      rw [← htext, ← hname]
      simp
    · exact hrest _ hname rfl

theorem title_film : subtitleTagsFromName Runtime.ascii (stem "/media/Film.mkv") = noTags := by
  have htokens : tagTokens (stem "/media/Film.mkv") = ["Film"] := by decide +kernel
  have hsmall : Runtime.ascii.toLowerCase "Film" = "film" := by decide +kernel
  have hread : Runtime.ascii.toLowerCase (WhiteSpace.trim "film") = "film" := by decide +kernel
  have hword : languageFromToken Runtime.ascii "film" = none := by
    rw [languageFromToken, hread, Option.eq_none_iff_forall_not_mem]
    exact fun code hcode => film_not_token code (mem_of_mapGet hcode)
  rw [subtitleTagsFromName, htokens, subtitleTagsFromTokens, List.reverse_singleton, scanTags, hsmall,
    if_neg (by decide), if_neg (by decide), if_neg (by decide), hword]

theorem tags_film : subtitleTagsFromName Runtime.ascii
    (stem (sidecarPath "/media/Film.mkv" ⟨"SPA", true, false, ".srt"⟩)) = ⟨"es", true, false⟩ := by
  have htags := tags_sidecarPath Runtime.ascii (fun _ _ => rfl) "/media/Film.mkv" ⟨"SPA", true, false, ".srt"⟩ "es"
    (List.all_eq_true.1 (by decide)) (by decide +kernel) (by decide) (by simp [extension])
  dsimp only at htags
  rw [title_film, if_neg (by decide +kernel)] at htags
  exact htags

/-- Hindi is not read back. -/
theorem hindi_is_flag : ¬ ∀ (videoPath : String) (spec : SidecarSpec) (code : String),
    mapGet codeToCode (Runtime.ascii.toLowerCase spec.language) = some code →
    subtitleTagsFromName Runtime.ascii (stem (sidecarPath videoPath spec)) = ⟨code, spec.forced, spec.sdh⟩ := by
  intro h
  have hletters : ∀ c ∈ "hi".toList, c.isAlpha = true := by simp
  have hcode : mapGet codeToCode (Runtime.ascii.toLowerCase "hi") = some "hi" := by decide +kernel
  have hread := h "/media/Film.mkv" ⟨"hi", false, false, "srt"⟩ "hi" hcode
  rw [stem_sidecarPath _ (by decide) hletters (by decide) (by simp [extension]),
    tags_installed (fun _ _ => rfl) hletters hcode, if_pos (by decide +kernel)] at hread
  have hflag := congrArg SubtitleTags.sdh hread
  cases hflag

end UltraTorrent.Subtitles.SidecarTags
