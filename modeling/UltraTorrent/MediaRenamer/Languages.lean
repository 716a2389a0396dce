import UltraTorrent.Library.EcmaScript
import UltraTorrent.Library.WhiteSpace

/-! The one language table, and the language a subtitle's name carries. -/
namespace UltraTorrent.MediaRenamer.Languages

open Library.EcmaScript

structure LanguageEntry where
  /-- The code of two letters that every spelling comes down to. -/
  code : String
  codes : List String

/-- The display names are not used here. -/
def languages : List LanguageEntry :=
  [⟨"en", ["eng"]⟩, ⟨"es", ["spa"]⟩, ⟨"fr", ["fre", "fra"]⟩, ⟨"de", ["ger", "deu"]⟩, ⟨"it", ["ita"]⟩,
    ⟨"pt", ["por", "pob", "pt-br"]⟩, ⟨"nl", ["dut", "nld"]⟩, ⟨"ja", ["jpn"]⟩, ⟨"ko", ["kor"]⟩,
    ⟨"zh", ["chi", "zho"]⟩, ⟨"ru", ["rus"]⟩, ⟨"ar", ["ara"]⟩, ⟨"pl", ["pol"]⟩, ⟨"sv", ["swe"]⟩,
    ⟨"da", ["dan"]⟩, ⟨"no", ["nor", "nob", "nno"]⟩, ⟨"fi", ["fin"]⟩, ⟨"hi", ["hin"]⟩, ⟨"tr", ["tur"]⟩,
    ⟨"el", ["gre", "ell"]⟩, ⟨"he", ["heb", "iw"]⟩, ⟨"hu", ["hun"]⟩, ⟨"cs", ["cze", "ces"]⟩,
    ⟨"sk", ["slo", "slk"]⟩, ⟨"ro", ["rum", "ron"]⟩, ⟨"bg", ["bul"]⟩, ⟨"hr", ["hrv", "scr"]⟩,
    ⟨"sr", ["srp", "scc"]⟩, ⟨"sl", ["slv"]⟩, ⟨"bs", ["bos"]⟩, ⟨"mk", ["mac", "mkd"]⟩,
    ⟨"sq", ["alb", "sqi"]⟩, ⟨"th", ["tha"]⟩, ⟨"id", ["ind", "in"]⟩, ⟨"ms", ["may", "msa"]⟩,
    ⟨"vi", ["vie"]⟩, ⟨"tl", ["tgl", "fil"]⟩, ⟨"ta", ["tam"]⟩, ⟨"te", ["tel"]⟩, ⟨"ml", ["mal"]⟩,
    ⟨"kn", ["kan"]⟩, ⟨"mr", ["mar"]⟩, ⟨"pa", ["pan"]⟩, ⟨"bn", ["ben"]⟩, ⟨"si", ["sin"]⟩,
    ⟨"ne", ["nep"]⟩, ⟨"ur", ["urd"]⟩, ⟨"fa", ["per", "fas"]⟩, ⟨"uk", ["ukr"]⟩, ⟨"be", ["bel"]⟩,
    ⟨"et", ["est"]⟩, ⟨"lv", ["lav"]⟩, ⟨"lt", ["lit"]⟩, ⟨"is", ["ice", "isl"]⟩, ⟨"ca", ["cat"]⟩,
    ⟨"gl", ["glg"]⟩, ⟨"eu", ["baq", "eus"]⟩, ⟨"ka", ["geo", "kat"]⟩, ⟨"hy", ["arm", "hye"]⟩,
    ⟨"az", ["aze"]⟩, ⟨"kk", ["kaz"]⟩, ⟨"mn", ["mon"]⟩, ⟨"km", ["khm"]⟩, ⟨"lo", ["lao"]⟩,
    ⟨"my", ["bur", "mya"]⟩, ⟨"af", ["afr"]⟩, ⟨"sw", ["swa"]⟩, ⟨"ga", ["gle"]⟩, ⟨"cy", ["wel", "cym"]⟩,
    ⟨"mt", ["mlt"]⟩, ⟨"eo", ["epo"]⟩, ⟨"la", ["lat"]⟩, ⟨"yi", ["yid"]⟩]

/-- Each spelling and the code it comes down to. -/
def codeToCode : List (String × String) :=
  languages.flatMap fun l => (l.code, l.code) :: l.codes.map fun spelling => (spelling, l.code)

/-- An unknown code stays what it is, in lower case. -/
def normalizeLanguageCode (rt : Runtime) (code : String) : String :=
  let c := rt.toLowerCase (Library.WhiteSpace.trim code)
  (mapGet codeToCode c).getD c

def langFlags : List String := [".forced", ".sdh", ".cc"]

/-- `/^\.([a-z]{2,3})(\.(forced|sdh|cc))?$/i`, and the letters. -/
def langTagAt : List Char → Option (List Char)
  | '.' :: text =>
    let tag := text.takeWhile Char.isAlpha
    let after := text.dropWhile Char.isAlpha
    if (tag.length = 2 ∨ tag.length = 3) ∧
        (after = [] ∨ langFlags.contains (.ofList (after.map Char.toLower))) then some tag
    else none
  | _ => none

/-- The tag at the end of a name: `LANG_TAG.exec(name)?.[1]`. -/
def langTag : List Char → Option (List Char)
  | [] => none
  | c :: text => (langTagAt (c :: text)).or (langTag text)

def langNames : List (String × String) :=
  [("arabic", "ara"), ("bulgarian", "bul"), ("chinese", "chi"), ("croatian", "hrv"), ("czech", "cze"),
    ("danish", "dan"), ("dutch", "dut"), ("english", "eng"), ("filipino", "fil"), ("finnish", "fin"),
    ("french", "fre"), ("german", "ger"), ("greek", "gre"), ("hebrew", "heb"), ("hindi", "hin"),
    ("hungarian", "hun"), ("indonesian", "ind"), ("italian", "ita"), ("japanese", "jpn"),
    ("korean", "kor"), ("malay", "may"), ("norwegian", "nor"), ("polish", "pol"), ("portuguese", "por"),
    ("romanian", "rum"), ("russian", "rus"), ("spanish", "spa"), ("swedish", "swe"), ("thai", "tha"),
    ("turkish", "tur"), ("ukrainian", "ukr"), ("vietnamese", "vie")]

/-- What a bare name may be and mean a language. -/
def langCodes : List String :=
  langNames.map (·.2) ++
    ["ar", "bg", "cs", "da", "de", "el", "en", "es", "fi", "fr", "he", "hi", "hr", "hu", "id", "it", "ja",
      "ko", "ms", "nl", "no", "pl", "pt", "ro", "ru", "sv", "th", "tl", "tr", "uk", "vi", "zh", "eng",
      "spa", "por", "chi", "sdh"]

def subtitleLangTag (rt : Runtime) (stemNoExt : String) : Option String :=
  match langTag stemNoExt.toList with
  | some tag => some (.ofList (tag.map Char.toLower))
  | none =>
    let lower := (rt.toLowerCase stemNoExt).toList
    let afterIndex :=
      if lower.takeWhile Char.isDigit = [] then lower
      else (lower.dropWhile Char.isDigit).dropWhile fun c =>
        Library.WhiteSpace.isWhiteSpace c || c = '.' || c = '_' || c = '-'
    let word := String.ofList (afterIndex.filter fun c => 'a' ≤ c && c ≤ 'z')
    if word = "" then none
    else (langNames.lookup word).or (if langCodes.contains word then some word else none)

end UltraTorrent.MediaRenamer.Languages
