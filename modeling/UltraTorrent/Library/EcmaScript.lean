import Mathlib.Algebra.Order.Round
import Mathlib.Data.Int.ConditionallyCompleteOrder
import Mathlib.Data.List.Infix
import Mathlib.Data.Rat.Floor
import Mathlib.Tactic.Linarith

/-! The part of ECMAScript the modelled services compute with: numbers with their
infinities and NaN, values as they come out of parsed documents, maps, and the optional
nullable property. Finite numbers are exact rationals, so rounding to binary64 is not
modelled; `Math.round` is Mathlib's `round`, which also takes halves up. What depends on
Unicode tables, time zones, regular expressions or number formatting is a field of
`Runtime` and every result holds for all of them. -/
namespace UltraTorrent.Library.EcmaScript

/-- Milliseconds since the epoch. -/
abbrev Instant := ℤ

inductive Numeric where
  | nan
  | negInf
  | fin (q : ℚ)
  | posInf
  deriving DecidableEq

namespace Numeric

def isFinite : Numeric → Bool
  | .fin _ => true
  | _ => false

/-- `===` on numbers: NaN equals nothing. -/
def eq : Numeric → Numeric → Bool
  | .nan, _ => false
  | a, b => a = b

def lt : Numeric → Numeric → Bool
  | .nan, _ | _, .nan => false
  | .fin a, .fin b => a < b
  | .negInf, b => b ≠ .negInf
  | _, .negInf => false
  | .posInf, _ => false
  | .fin _, .posInf => true

def le : Numeric → Numeric → Bool
  | .nan, _ | _, .nan => false
  | a, b => a = b || lt a b

@[simp] theorem eq_fin (a b : ℚ) : eq (.fin a) (.fin b) = decide (a = b) := by simp [eq]

@[simp] theorem lt_fin (a b : ℚ) : lt (.fin a) (.fin b) = decide (a < b) := rfl

@[simp] theorem le_fin (a b : ℚ) : le (.fin a) (.fin b) = decide (a ≤ b) := by
  simp [le, lt, le_iff_eq_or_lt]

end Numeric

inductive Value where
  | undefined
  | null
  | bool (b : Bool)
  | number (n : Numeric)
  | string (s : String)
  | date (ms : Instant)
  | array (elements : List Value)
  | object (fields : List (String × Value))

namespace Value

def isNullish : Value → Bool
  | .undefined | .null => true
  | _ => false

/-- `===`. Dates, arrays and objects are compared by reference, and the two sides of the
comparisons modelled here never share one. -/
def strictEq : Value → Value → Bool
  | .undefined, .undefined | .null, .null => true
  | .bool a, .bool b => a = b
  | .number a, .number b => a.eq b
  | .string a, .string b => a = b
  | _, _ => false

/-- `x[key]` on an object, `undefined` where the key is missing. -/
def get (key : String) : Value → Value
  | .object fields => (fields.lookup key).getD .undefined
  | _ => .undefined

def ofOption {α : Type*} (f : α → Value) : Option α → Value
  | none => .undefined
  | some a => f a

end Value

/-- `new Date(ms)` drops the fraction. The range a date can hold is not modelled. -/
def newDate (ms : ℚ) : Instant := if 0 ≤ ms then ⌊ms⌋ else ⌈ms⌉

theorem newDate_int (ms : ℤ) : newDate ms = ms := by
  unfold newDate
  split_ifs with h
  · exact Int.floor_intCast ms
  · exact Int.ceil_intCast ms

theorem newDate_mono : Monotone newDate := by
  intro a b hab
  unfold newDate
  split_ifs with ha hb hb
  · exact Int.floor_le_floor hab
  · exact absurd (ha.trans hab) hb
  · have hceil : ⌈a⌉ ≤ 0 := Int.ceil_le.2 (by rw [Int.cast_zero]; exact (not_le.1 ha).le)
    exact hceil.trans (Int.floor_nonneg.2 hb)
  · exact Int.ceil_le_ceil hab

theorem round_mono : Monotone (round : ℚ → ℤ) := by
  intro a b hab
  rw [round_eq, round_eq]
  exact Int.floor_le_floor (by linarith)

/-! ### Maps -/

section Map

variable {α : Type*}

/-- `new Map(pairs).get(key)`: of two pairs with one key the later one stays. -/
def mapGet (pairs : List (String × α)) (key : String) : Option α := pairs.reverse.lookup key

theorem mem_of_mapGet {pairs : List (String × α)} {key : String} {a : α}
    (h : mapGet pairs key = some a) : (key, a) ∈ pairs := by
  rw [mapGet, List.lookup_eq_some_iff] at h
  obtain ⟨pre, post, hsplit, -⟩ := h
  rw [← List.mem_reverse, hsplit]
  exact List.mem_append_right _ List.mem_cons_self

theorem isSome_mapGet {pairs : List (String × α)} {key : String} {a : α} (h : (key, a) ∈ pairs) :
    (mapGet pairs key).isSome = true := by
  rw [mapGet, List.lookup_isSome_iff]
  exact ⟨(key, a), List.mem_reverse.2 h, beq_self_eq_true key⟩

theorem mapGet_append (front after : List (String × α)) (key : String) :
    mapGet (front ++ after) key = (mapGet after key).or (mapGet front key) := by
  rw [mapGet, List.reverse_append, List.lookup_append]
  rfl

theorem mapGet_map_const (keys : List String) (a : α) (key : String) :
    mapGet (keys.map (·, a)) key = if key ∈ keys then some a else none := by
  split_ifs with hkey
  · obtain ⟨b, hb⟩ := Option.isSome_iff_exists.1 (isSome_mapGet (List.mem_map_of_mem (f := (·, a)) hkey))
    obtain ⟨_, -, heq⟩ := List.mem_map.1 (mem_of_mapGet hb)
    have hvalue : a = b := congrArg Prod.snd heq
    rw [hb, hvalue]
  · refine Option.eq_none_iff_forall_not_mem.2 fun b hb => hkey ?_
    obtain ⟨other, hother, heq⟩ := List.mem_map.1 (mem_of_mapGet hb)
    have hsame : other = key := congrArg Prod.fst heq
    rwa [hsame] at hother

end Map

/-! ### The host -/

/-- What the host supplies for strings and objects. -/
structure Runtime where
  numberOfString : String → Numeric
  numberOfObject : Value → Numeric
  stringOfNumber : Numeric → String
  stringOfObject : Value → String
  toLowerCase : String → String
  toUpperCase : String → String
  trim : String → String
  localeCompare : String → String → ℤ
  /-- `new RegExp(pattern, 'i').test(subject)`, `none` when the pattern does not compile. -/
  regexTest : String → String → Option Bool
  toISOString : Instant → String
  /-- `Intl.DateTimeFormat('en-US', ...).formatToParts` for the weekday, the hour and the
  minute in a time zone, `none` when the zone is not recognised. -/
  formatToParts : Instant → String → Option (List (String × String))
  jsonStringify : Value → String

namespace Runtime

/-- The clock of the zone `UTC`; the epoch was a Thursday. -/
def utcParts (ms : Instant) : List (String × String) :=
  let minutes := ms / 60000
  let days := ["Thu", "Fri", "Sat", "Sun", "Mon", "Tue", "Wed"]
  [("weekday", (days[(minutes / 1440 % 7).toNat]?).getD ""),
   ("hour", toString (minutes / 60 % 24)), ("minute", toString (minutes % 60))]

/-- A host that knows decimal digits, the ASCII letters, the zone `UTC` and patterns
without metacharacters. -/
def ascii : Runtime where
  numberOfString s := if s = "" then .fin 0 else (s.toNat?.map fun n => .fin n).getD .nan
  numberOfObject _ := .nan
  stringOfNumber
    | .nan => "NaN"
    | .negInf => "-Infinity"
    | .posInf => "Infinity"
    | .fin q => toString q
  stringOfObject _ := "[object Object]"
  toLowerCase := String.toLower
  toUpperCase := String.toUpper
  trim s := .ofList
    ((s.toList.dropWhile Char.isWhitespace).reverse.dropWhile Char.isWhitespace).reverse
  localeCompare a b := if a = b then 0 else if a < b then -1 else 1
  regexTest pattern subject :=
    some (subject.toLower.toList.tails.any pattern.toLower.toList.isPrefixOf)
  toISOString ms := toString ms
  formatToParts ms zone := if zone = "UTC" then some (utcParts ms) else none
  jsonStringify
    | .null => "null"
    | .bool b => if b then "true" else "false"
    | .number (.fin q) => toString q
    | .string s => "\"" ++ s ++ "\""
    | _ => "null"

variable (rt : Runtime)

/-- `Number(x)`. -/
def number : Value → Numeric
  | .undefined => .nan
  | .null => .fin 0
  | .bool b => .fin (if b then 1 else 0)
  | .number n => n
  | .string s => rt.numberOfString s
  | .date ms => .fin ms
  | v => rt.numberOfObject v

/-- `String(x)`. -/
def string : Value → String
  | .undefined => "undefined"
  | .null => "null"
  | .bool b => if b then "true" else "false"
  | .number n => rt.stringOfNumber n
  | .string s => s
  | v => rt.stringOfObject v

/-- The UTF-16 code units of a string, by which strings are ordered. -/
def codeUnits (s : String) : List ℕ :=
  s.toList.flatMap fun c =>
    if c.toNat < 0x10000 then [c.toNat]
    else [0xD800 + (c.toNat - 0x10000) / 0x400, 0xDC00 + (c.toNat - 0x10000) % 0x400]

/-- `a > b`: strings by their code units, anything else as numbers. -/
def gt : Value → Value → Bool
  | .string s, .string t => codeUnits t < codeUnits s
  | a, b => (rt.number b).lt (rt.number a)

@[simp] theorem number_number (n : Numeric) : rt.number (.number n) = n := rfl

theorem ascii_localeCompare {a b : String} : ascii.localeCompare a b ≤ 0 ↔ a ≤ b := by
  simp only [ascii]
  split_ifs with heq hlt
  · simp [heq]
  · simpa using (String.le_total a b).resolve_right (String.not_le.2 hlt)
  · refine ⟨fun h => absurd h (by decide), fun h => ?_⟩
    exact absurd (String.le_antisymm h (String.not_lt.1 hlt)) heq

end Runtime

/-- An optional nullable property: left out, set to `null`, or set to a value. -/
inductive Setting (α : Type*) where
  | absent
  | null
  | value (a : α)
  deriving DecidableEq

namespace Setting

variable {α β : Type*}

/-- `x !== undefined`. -/
def isSupplied : Setting α → Bool
  | .absent => false
  | _ => true

/-- `x ?? null`. -/
def orNull : Setting α → Option α
  | .value a => some a
  | _ => none

/-- A nullable column read back as a property: never left out. -/
def ofNullable : Option α → Setting α
  | none => .null
  | some a => .value a

/-- `column ?? undefined`. -/
def orUndefined : Option α → Setting α
  | none => .absent
  | some a => .value a

@[simp] theorem isSupplied_ofNullable (o : Option α) : (ofNullable o).isSupplied = true := by
  cases o <;> rfl

@[simp] theorem orNull_ofNullable (o : Option α) : (ofNullable o).orNull = o := by
  cases o <;> rfl

end Setting
end UltraTorrent.Library.EcmaScript
