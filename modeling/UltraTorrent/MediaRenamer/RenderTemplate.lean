import UltraTorrent.Library.EcmaScript
import UltraTorrent.Library.RegExp
import UltraTorrent.Library.Replacement
import UltraTorrent.Library.WhiteSpace

/-! Names from templates: tokens are filled in, the text is cut at its slashes, and every part is made
fit for a file system. -/
namespace UltraTorrent.MediaRenamer.RenderTemplate

open Library.Replacement Library.WhiteSpace
open Library.RegExp (isWord)

/-- What a template's tokens stand for, as text; `none` for undefined and null. -/
abbrev TemplateTokens := String → Option String

/-! ### Segments -/

def isControl (c : Char) : Bool := c.toNat ≤ 0x1f || (0x7f ≤ c.toNat && c.toNat ≤ 0x9f)

def isIllegal (c : Char) : Bool := ['\\', '/', ':', '*', '?', '"', '<', '>', '|'].contains c

/-- `/\s+/`. -/
def spaces : Matcher Char Unit
  | [] => none
  | c :: text => if isWhiteSpace c then some ((), text.dropWhile isWhiteSpace) else none

/-- `/\s*-\s*(ending)$/`. -/
def danglingDash (ending : List Char → Bool) : Matcher Char (List Char) := fun text =>
  match text.dropWhile isWhiteSpace with
  | '-' :: more =>
    let last := more.dropWhile isWhiteSpace
    if ending last then some (last, []) else none
  | _ => none

/-- `/\s+(ending)$/`. -/
def straySpace (ending : List Char → Bool) : Matcher Char (List Char) := fun text =>
  (spaces text).bind fun found => if ending found.2 then some (found.2, []) else none

/-- `/^\.\w+$/`. -/
def isWordExtension : List Char → Bool
  | '.' :: word => word ≠ [] && word.all isWord
  | _ => false

/-- `/^(\.[A-Za-z0-9]+)+$/`: a subtitle carries its language before the extension. -/
def isCompoundExtension : List Char → Bool
  | '.' :: rest => (rest.splitOn '.').all fun part => part ≠ [] && part.all Char.isAlphanum
  | _ => false

/-- Control characters go, illegal ones become spaces, and what that leaves at an extension or at
either end is tidied. -/
def sanitizeSegment (input : List Char) : List Char :=
  let s := input.filter (!isControl ·)
  let s := s.map fun c => if isIllegal c then ' ' else c
  let s := replaceAll spaces (fun _ => [' ']) s
  let s := replaceFirst (danglingDash isCompoundExtension) id s
  let s := replaceFirst (straySpace isCompoundExtension) id s
  trimmed (s.rdropWhile fun c => c = ' ' || c = '.')

/-- `/\s*-\s*-\s*/`. -/
def doubledDash : Matcher Char Unit := fun text =>
  match text.dropWhile isWhiteSpace with
  | '-' :: more =>
    match more.dropWhile isWhiteSpace with
    | '-' :: rest => some ((), rest.dropWhile isWhiteSpace)
    | _ => none
  | _ => none

/-- `/\s+-\s*$/`. -/
def trailingDash : Matcher Char Unit := fun text =>
  (spaces text).bind fun found =>
    match found.2 with
    | '-' :: more => if more.all isWhiteSpace then some ((), []) else none
    | _ => none

/-- The separators that missing tokens leave behind. -/
def tidySeparators (seg : List Char) : List Char :=
  let s := replaceAll doubledDash (fun _ => [' ', '-', ' ']) seg
  let s := replaceFirst (danglingDash isWordExtension) id s
  let s := replaceFirst (straySpace isWordExtension) id s
  replaceAll trailingDash (fun _ => []) s

/-! ### Tokens -/

/-- What stands between the question mark and the brace that closes the part: braces may open and
close in it once. -/
def innerText : Bool → List Char → Option (List Char × List Char)
  | _, [] => none
  | nested, c :: text =>
    if c = '\x7b' then
      if nested then none else (innerText true text).map fun found => (c :: found.1, found.2)
    else if c = '\x7d' then
      if nested then (innerText false text).map fun found => (c :: found.1, found.2) else some ([], text)
    else (innerText nested text).map fun found => (c :: found.1, found.2)

/-- `/\{(\w+)\?([^{}]*(?:\{[^{}]*\}[^{}]*)*)\}/`. -/
def conditional : Matcher Char (List Char × List Char)
  | '\x7b' :: text =>
    match text.takeWhile isWord, text.dropWhile isWord with
    | c :: name, '?' :: more => (innerText false more).map fun found => ((c :: name, found.1), found.2)
    | _, _ => none
  | _ => none

/-- A token of the template: its name as written, and the width it is padded to. -/
structure Token where
  rawName : List Char
  width : Option ℕ
  deriving DecidableEq

def isNameChar (c : Char) : Bool := isWord c || c = ' '

/-- `/\{([\w ]+?)(?::(\d+))?\}/`. -/
def token : Matcher Char Token
  | '\x7b' :: text =>
    match text.takeWhile isNameChar, text.dropWhile isNameChar with
    | c :: name, '\x7d' :: rest => some (⟨c :: name, none⟩, rest)
    | c :: name, ':' :: more =>
      match more.takeWhile Char.isDigit, more.dropWhile Char.isDigit with
      | d :: digits, '\x7d' :: rest => some (⟨c :: name, some (d :: digits).length⟩, rest)
      | _, _ => none
    | _, _ => none
  | _ => none

def Token.name (t : Token) : String := .ofList (trimmed t.rawName)

/-- The template alone makes directories, never a value. -/
def neutralizeSeparators (value : List Char) : List Char :=
  value.map fun c => if c = '\\' || c = '/' then ' ' else c

/-- `String(value).padStart(width, '0')`. -/
def pad (value : String) (width : ℕ) : List Char :=
  List.replicate (width - (Library.EcmaScript.Runtime.codeUnits value).length) '0' ++ value.toList

/-- The optional parts whose name has a value. -/
def expandConditionals (present : String → Bool) (template : List Char) : List Char :=
  replaceAll conditional (fun part => if present (.ofList part.1) then part.2 else []) template

def present (tokens : TemplateTokens) (name : String) : Bool := (tokens name).any (· ≠ "")

def substitute (tokens : TemplateTokens) (t : Token) : List Char :=
  match tokens t.name with
  | none => []
  | some value =>
    if value = "" then []
    else
      match t.width with
      | some width => pad value width
      | none => neutralizeSeparators value.toList

/-- The text before it is cut into segments. -/
def filledIn (template : String) (tokens : TemplateTokens) : List Char :=
  replaceAll token (substitute tokens) (expandConditionals (present tokens) template.toList)

def renderedSegments (template : String) (tokens : TemplateTokens) : List (List Char) :=
  (((filledIn template tokens).splitOn '/').map fun seg => sanitizeSegment (tidySeparators seg)).filter
    (· ≠ [])

def renderTemplate (template : String) (tokens : TemplateTokens) : String :=
  .ofList (['/'].intercalate (renderedSegments template tokens))

end UltraTorrent.MediaRenamer.RenderTemplate
