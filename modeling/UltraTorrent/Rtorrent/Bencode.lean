import Mathlib.Data.List.Infix
import UltraTorrent.Library.Fallible

/-! The reader that finds the byte range of a torrent's `info` dictionary. The position it
reads from is threaded through every call, and the recursion runs on a budget because
nothing in the reader itself bounds it. -/
namespace UltraTorrent.Rtorrent.Bencode

open Library.Fuel

abbrev Buffer := List UInt8

/-- A decoded value. Integers the text does not give are NaN, here `none`. A dictionary
lists its latest entry first, with the range of the value; a key stays in bytes because the
only key ever looked up is ASCII. -/
inductive Node where
  | int (value : Option ℤ)
  | bytes (content : Buffer)
  | list (out : List Node)
  | dict (out : List (Buffer × Node × ℕ × ℕ))

variable (buf : Buffer)

/-- `String.fromCharCode` of the byte read; past the end that is the null character. -/
def byte (pos : ℕ) : Char := Char.ofNat (buf[pos]?.getD 0).toNat

/-- `buf.indexOf(byte, start)`, `none` for -1. -/
def indexOf (b : UInt8) (start : ℕ) : Option ℕ :=
  ((buf.drop start).idxOf? b).map (start + ·)

/-- `buf.toString('ascii', start, stop)`: the top bit of every byte is dropped. -/
def ascii (start stop : ℕ) : List Char :=
  ((buf.take stop).drop start).map fun b => Char.ofNat (b.toNat % 128)

def isBlank (c : Char) : Bool := c ∈ [' ', '\t', '\n', '\x0b', '\x0c', '\r']

/-- `parseInt(text, 10)`: leading blanks, a sign, then the digits there are; `none` for NaN.
Large values are not rounded. -/
def parseInt (text : List Char) : Option ℤ :=
  let body := text.dropWhile isBlank
  let (negative, digits) := match body with
    | '-' :: rest => (true, rest)
    | '+' :: rest => (false, rest)
    | rest => (false, rest)
  match digits.takeWhile Char.isDigit with
  | [] => none
  | run =>
    let magnitude : ℤ := run.foldl (fun n c => 10 * n + (c.toNat - '0'.toNat : ℕ)) 0
    some (if negative then -magnitude else magnitude)

/-- Without a closing `e` the text is empty and the position becomes `-1 + 1`. -/
def readInt (pos : ℕ) : Node × ℕ :=
  match indexOf buf (UInt8.ofNat 'e'.toNat) (pos + 1) with
  | some stop => (.int (parseInt (ascii buf (pos + 1) stop)), stop + 1)
  | none => (.int (parseInt []), 0)

def readString (pos : ℕ) : Outcome String (Buffer × ℕ) :=
  match indexOf buf (UInt8.ofNat ':'.toNat) pos with
  | none => .thrown "Invalid bencode: missing string length delimiter"
  | some colon =>
    let start := colon + 1
    match parseInt (ascii buf pos colon) with
    | none => .thrown "Invalid bencode: string length out of bounds"
    | some len =>
      if len < 0 ∨ buf.length < start + len then
        .thrown "Invalid bencode: string length out of bounds"
      else
        let stop := start + len.toNat
        .ok ((buf.take stop).drop start, stop)

mutual

def decode : ℕ → ℕ → Outcome String (Node × ℕ)
  | 0, _ => .timeout
  | fuel + 1, pos =>
    let c := byte buf pos
    if c = 'i' then .ok (readInt buf pos)
    else if c = 'l' then do
      let (out, next) ← readList fuel pos
      .ok (.list out, next)
    else if c = 'd' then do
      let (out, next) ← readDict fuel pos
      .ok (.dict out, next)
    else if '0' ≤ c ∧ c ≤ '9' then do
      let (content, next) ← readString buf pos
      .ok (.bytes content, next)
    else .thrown ("Invalid bencode at offset " ++ toString pos)
termination_by structural fuel => fuel

def readList : ℕ → ℕ → Outcome String (List Node × ℕ)
  | 0, _ => .timeout
  | fuel + 1, pos => do
    let (out, close) ← listLoop fuel (pos + 1) []
    .ok (out, close + 1)
termination_by structural fuel => fuel

/-- The loop of `readList`, up to the closing `e`. -/
def listLoop : ℕ → ℕ → List Node → Outcome String (List Node × ℕ)
  | 0, _, _ => .timeout
  | fuel + 1, pos, out =>
    if byte buf pos = 'e' then .ok (out, pos)
    else do
      let (value, next) ← decode fuel pos
      listLoop fuel next (out ++ [value])
termination_by structural fuel => fuel

def readDict : ℕ → ℕ → Outcome String (List (Buffer × Node × ℕ × ℕ) × ℕ)
  | 0, _ => .timeout
  | fuel + 1, pos => do
    let (out, close) ← dictLoop fuel (pos + 1) []
    .ok (out, close + 1)
termination_by structural fuel => fuel

/-- The loop of `readDict`, up to the closing `e`. -/
def dictLoop : ℕ → ℕ → List (Buffer × Node × ℕ × ℕ) →
    Outcome String (List (Buffer × Node × ℕ × ℕ) × ℕ)
  | 0, _, _ => .timeout
  | fuel + 1, pos, out =>
    if byte buf pos = 'e' then .ok (out, pos)
    else do
      let (key, start) ← readString buf pos
      let (value, stop) ← decode fuel start
      dictLoop fuel stop ((key, value, start, stop) :: out)
termination_by structural fuel => fuel

end

/-- The bytes of a string literal. -/
def ofText (text : String) : Buffer := text.toList.map fun c => UInt8.ofNat c.toNat

/-- `sha1` gives the digest in hexadecimal. -/
def infoHashFromTorrent (sha1 : Buffer → String) (fuel : ℕ) : Outcome String String := do
  let (root, _) ← readDict buf fuel 0
  match root.lookup (ofText "info") with
  | none => .thrown "Torrent file missing info dictionary"
  | some (_, start, stop) => .ok (sha1 ((buf.take stop).drop start)).toLower

end UltraTorrent.Rtorrent.Bencode
