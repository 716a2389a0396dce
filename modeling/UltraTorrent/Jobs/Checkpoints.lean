import Mathlib.Data.List.Infix
import Mathlib.Data.Rat.Init
import Mathlib.Tactic.Common

/-! A checkpoint, from `saveCheckpoint` to `loadCheckpoint`. It is stored as `redact` leaves it: what
hangs under a key that looks like a secret is replaced, and what is too deep or too long is cut. A
resumed job sees its own value again just when there is nothing in it to replace and nothing to
cut. -/
namespace UltraTorrent.Jobs.Checkpoints

/-! ### Values -/

/-- A string, by its UTF-16 units. -/
abbrev Text := List UInt16

/-- The units of a literal; those written here are in the basic plane. -/
def text (literal : String) : Text := literal.toList.map fun c => c.toNat.toUInt16

inductive Json where
  | null
  | bool (b : Bool)
  | number (q : ℚ)
  | string (s : Text)
  | array (elements : List Json)
  | object (fields : List (Text × Json))

/-! ### Redaction -/

/-- A pattern `a[_-]?b`. -/
def hyphenated (a b : String) : List String := [a ++ b, a ++ "_" ++ b, a ++ "-" ++ b]

/-- What `SECRET_KEY_PATTERN` looks for. -/
def secretKeys : List String :=
  ["pass", "password", "secret", "token"] ++ hyphenated "api" "key" ++
  ["apikey", "authorization", "auth", "credential", "cookie", "session", "bearer"] ++
  hyphenated "private" "key" ++ hyphenated "encryption" "key" ++ hyphenated "access" "key" ++
  hyphenated "refresh" "token" ++ hyphenated "client" "secret" ++
  ["salt", "hash", "otp", "totp", "mfa", "pin", "signature"]

/-- The flag `i` of a pattern without the flag `u`: no letter outside ASCII matches one inside. -/
def lowerUnit (u : UInt16) : UInt16 := if 65 ≤ u ∧ u ≤ 90 then u + 32 else u

/-- `SECRET_KEY_PATTERN.test(key)`. -/
def isSecretKey (key : Text) : Bool :=
  secretKeys.any fun word => (key.map lowerUnit).tails.any (text word).isPrefixOf

def maxDepth : ℕ := 6
def maxString : ℕ := 2000
def maxArray : ℕ := 200

def redacted : Json := .string (text "[redacted]")
def truncated : Json := .string (text "[truncated]")
def ellipsis : Text := text "…"

/-- The element that stands for the last `n` of an array. -/
def more (n : ℕ) : Json := .string (text "…(+" ++ text (toString n) ++ text " more)")

/-- An assignment to `out.__proto__` makes no property. -/
def proto : Text := text "__proto__"

/-- What is left of a value that is not nullish, at some depth. -/
def bounded (depth : ℕ) (value : Json) : Json := if maxDepth ≤ depth then truncated else value

/-- What `redact` pushes after the first `n` elements of an array. -/
def beyond (n : ℕ) (elements : List Json) : List Json :=
  if n < elements.length then [more (elements.length - n)] else []

mutual

def redact (depth : ℕ) : Json → Json
  | .null => .null
  | .bool b => bounded depth (.bool b)
  | .number q => bounded depth (.number q)
  | .string s =>
    bounded depth (.string (if maxString < s.length then s.take maxString ++ ellipsis else s))
  | .array elements =>
    bounded depth (.array (redactElements depth maxArray elements ++ beyond maxArray elements))
  | .object fields => bounded depth (.object (redactFields depth fields))

/-- The slice of the first `n` elements, each redacted. -/
def redactElements (depth : ℕ) : ℕ → List Json → List Json
  | 0, _ | _, [] => []
  | n + 1, value :: rest => redact (depth + 1) value :: redactElements depth n rest

/-- `Object.entries` gives every key once, so that each assignment adds a property. -/
def redactFields (depth : ℕ) : List (Text × Json) → List (Text × Json)
  | [] => []
  | (key, value) :: rest =>
    let out := redactFields depth rest
    if key = proto then out
    else (key, if isSecretKey key then redacted else redact (depth + 1) value) :: out

end

/-! ### The column -/

/-- The checkpoint of a job: its two columns in `platform_jobs`. -/
structure CheckpointColumns where
  checkpoint : Option Json
  checkpointVersion : Option ℤ

/-- The update of a row that is not there throws. An increment leaves a null as it is. -/
def saveCheckpoint (jobId : ℕ) (checkpoint : Json) (jobs : List CheckpointColumns) :
    Option (List CheckpointColumns) :=
  if jobId < jobs.length then
    some (jobs.modify jobId fun row =>
      { checkpoint := some (redact 0 checkpoint)
        checkpointVersion := row.checkpointVersion.map (· + 1) })
  else none

/-- A null, of the column or stored in it, is loaded as `undefined`. -/
def loadCheckpoint (jobId : ℕ) (jobs : List CheckpointColumns) : Option Json :=
  match (jobs[jobId]?).bind (·.checkpoint) with
  | none | some .null => none
  | some checkpoint => some checkpoint

/-- The jobs after a series of saves; one that throws changes nothing. -/
def afterSaves (jobs : List CheckpointColumns) (saves : List (ℕ × Json)) : List CheckpointColumns :=
  saves.foldl (fun jobs save => (saveCheckpoint save.1 save.2 jobs).getD jobs) jobs

/-! ### What is kept -/

mutual

/-- Nothing in the value, found at some depth, is replaced or cut. -/
def Plain (depth : ℕ) : Json → Prop
  | .null => True
  | .bool _ | .number _ => depth < maxDepth
  | .string s =>
    if depth < maxDepth then s.drop maxString = [] ∨ s.drop maxString = ellipsis
    else s = text "[truncated]"
  | .array elements => depth < maxDepth ∧ PlainElements depth maxArray elements
  | .object fields => depth < maxDepth ∧ PlainFields depth fields

/-- After the first `n` elements there is nothing, or the mark for one. -/
def PlainElements (depth : ℕ) : ℕ → List Json → Prop
  | 0, rest => rest = [] ∨ rest = [more 1]
  | _, [] => True
  | n + 1, value :: rest => Plain (depth + 1) value ∧ PlainElements depth n rest

def PlainFields (depth : ℕ) : List (Text × Json) → Prop
  | [] => True
  | (key, value) :: rest =>
    key ≠ proto ∧ (if isSecretKey key then value = redacted else Plain (depth + 1) value) ∧
      PlainFields depth rest

end

variable {depth n : ℕ} {s : Text} {value out : Json} {elements rest : List Json}

theorem bounded_eq_iff :
    bounded depth value = out ↔ if depth < maxDepth then value = out else out = truncated := by
  unfold bounded
  split_ifs with h h' h'
  · exact absurd h (Nat.not_le.2 h')
  · exact eq_comm
  · exact Iff.rfl
  · exact absurd (Nat.not_lt.1 h') h

/-- A string is kept when at most an ellipsis lies beyond the bound. -/
theorem cut_eq_iff :
    (if maxString < s.length then s.take maxString ++ ellipsis else s) = s ↔
      s.drop maxString = [] ∨ s.drop maxString = ellipsis := by
  split_ifs with h
  · have hdrop : s.drop maxString ≠ [] := by
      rw [Ne, List.drop_eq_nil_iff, Nat.not_le]
      exact h
    nth_rewrite 2 [← List.take_append_drop maxString s]
    rw [List.append_cancel_left_eq]
    exact ⟨fun hkept => .inr hkept.symm, fun hkept => (hkept.resolve_left hdrop).symm⟩
  · have hdrop : s.drop maxString = [] := List.drop_eq_nil_iff.2 (Nat.not_lt.1 h)
    exact ⟨fun _ => .inl hdrop, fun _ => rfl⟩

theorem beyond_zero : beyond 0 rest = rest ↔ rest = [] ∨ rest = [more 1] := by
  match rest with
  | [] => exact ⟨fun _ => .inl rfl, fun _ => rfl⟩
  | [value] =>
    constructor
    · intro h
      exact .inr h.symm
    · intro h
      exact (h.resolve_left (List.cons_ne_nil _ _)).symm
  | value :: other :: rest =>
    constructor <;> intro h
    · exact absurd (congrArg List.length h) (by simp [beyond])
    · rcases h with h | h <;> cases h

theorem beyond_succ : beyond (n + 1) (value :: rest) = beyond n rest := by
  simp [beyond]

theorem length_redactFields_le (depth : ℕ) : (fields : List (Text × Json)) →
    (redactFields depth fields).length ≤ fields.length
  | [] => Nat.le_refl 0
  | (key, value) :: rest => by
    have hrest := length_redactFields_le depth rest
    rw [redactFields]
    split_ifs <;> simp only [List.length_cons] <;> omega

mutual

theorem redact_eq_iff (depth : ℕ) : (value : Json) → (redact depth value = value ↔ Plain depth value)
  | .null => by simp only [redact, Plain]
  | .bool b => by
    rw [redact, Plain, bounded_eq_iff]
    split_ifs with h <;> simp [h, truncated]
  | .number q => by
    rw [redact, Plain, bounded_eq_iff]
    split_ifs with h <;> simp [h, truncated]
  | .string s => by
    rw [redact, Plain, bounded_eq_iff, Json.string.injEq, truncated, Json.string.injEq, cut_eq_iff]
  | .array elements => by
    rw [redact, Plain, bounded_eq_iff, Json.array.injEq, redactElements_eq_iff depth maxArray elements]
    split_ifs with h <;> simp [h, truncated]
  | .object fields => by
    rw [redact, Plain, bounded_eq_iff, Json.object.injEq, redactFields_eq_iff depth fields]
    split_ifs with h <;> simp [h, truncated]

theorem redactElements_eq_iff (depth : ℕ) : (n : ℕ) → (elements : List Json) →
    (redactElements depth n elements ++ beyond n elements = elements ↔
      PlainElements depth n elements)
  | 0, rest => by
    rw [redactElements, PlainElements, List.nil_append, beyond_zero]
  | n + 1, [] => by simp [redactElements, PlainElements, beyond]
  | n + 1, value :: rest => by
    rw [redactElements, PlainElements, beyond_succ, List.cons_append, List.cons.injEq,
      redact_eq_iff (depth + 1) value, redactElements_eq_iff depth n rest]

theorem redactFields_eq_iff (depth : ℕ) : (fields : List (Text × Json)) →
    (redactFields depth fields = fields ↔ PlainFields depth fields)
  | [] => by simp only [redactFields, PlainFields]
  | (key, value) :: rest => by
    rw [redactFields, PlainFields]
    by_cases hproto : key = proto
    · rw [if_pos hproto]
      refine ⟨fun h => ?_, fun h => absurd hproto h.1⟩
      have hlength := length_redactFields_le depth rest
      rw [h, List.length_cons] at hlength
      omega
    · rw [if_neg hproto, List.cons.injEq, Prod.mk.injEq, redactFields_eq_iff depth rest]
      simp only [ne_eq, hproto, not_false_eq_true, true_and]
      split_ifs
      · rw [eq_comm]
      · rw [redact_eq_iff (depth + 1) value]

end

/-! ### Runs -/

variable {jobs jobs' : List CheckpointColumns} {jobId : ℕ} {checkpoint : Json}

theorem saveCheckpoint_of_lt (hjob : jobId < jobs.length) :
    saveCheckpoint jobId checkpoint jobs = some (jobs.modify jobId fun row =>
      { checkpoint := some (redact 0 checkpoint)
        checkpointVersion := row.checkpointVersion.map (· + 1) }) := if_pos hjob

theorem getElem?_saveCheckpoint_of_ne {other : ℕ} (hother : other ≠ jobId) :
    ((saveCheckpoint other checkpoint jobs).getD jobs)[jobId]? = jobs[jobId]? := by
  unfold saveCheckpoint
  split_ifs
  · rw [Option.getD_some, List.getElem?_modify]
    simp only [hother, if_false]
    exact id_map _
  · rfl

theorem getElem?_afterSaves_of_ne {saves : List (ℕ × Json)} (hsaves : ∀ save ∈ saves, save.1 ≠ jobId) :
    (afterSaves jobs saves)[jobId]? = jobs[jobId]? := by
  induction saves generalizing jobs with
  | nil => rfl
  | cons save saves ih =>
    rw [List.forall_mem_cons] at hsaves
    exact (ih hsaves.2).trans (getElem?_saveCheckpoint_of_ne hsaves.1)

theorem column_afterSaves {saves : List (ℕ × Json)} (hjob : jobId < jobs.length)
    (hsaves : ∀ save ∈ saves, save.1 ≠ jobId) :
    ((afterSaves jobs ((jobId, checkpoint) :: saves))[jobId]?).bind (·.checkpoint) =
      some (redact 0 checkpoint) := by
  rw [afterSaves, List.foldl_cons, ← afterSaves, getElem?_afterSaves_of_ne hsaves,
    saveCheckpoint_of_lt hjob, Option.getD_some, List.getElem?_modify, List.getElem?_eq_getElem hjob, Option.map_eq_map, Option.map_some,
    if_pos rfl, Option.bind_some]

theorem loadCheckpoint_eq_iff {stored : Json}
    (hstored : (jobs[jobId]?).bind (·.checkpoint) = some stored) :
    loadCheckpoint jobId jobs = some value ↔ stored = value ∧ value ≠ .null := by
  rw [loadCheckpoint, hstored]
  cases stored with
  | null => exact ⟨nofun, fun h => absurd h.1.symm h.2⟩
  | _ =>
    refine ⟨fun h => ?_, fun h => congrArg some h.1⟩
    cases h
    exact ⟨rfl, nofun⟩

/-- What a handler in steps saves. -/
def step : Json := .object [(text "step", .number 1)]

theorem plain_step : Plain 0 step := by
  have hkey : isSecretKey (text "step") = false := by decide
  have hproto : text "step" ≠ proto := by decide
  simp [step, Plain, PlainFields, hkey, hproto, maxDepth]

/-- What the back catalogue of a series saves after its first 202 episodes. -/
def doneIds : Json :=
  .object [(text "doneIds", .array ((List.range 202).map fun id => .string (text (toString id))))]

theorem length_le_of_plainElements (h : PlainElements depth n elements) :
    elements.length ≤ n + 1 := by
  induction n generalizing elements with
  | zero =>
    rw [PlainElements] at h
    rcases h with rfl | rfl <;> simp
  | succ n ih =>
    cases elements with
    | nil => exact Nat.zero_le _
    | cons value rest =>
      rw [PlainElements] at h
      exact Nat.succ_le_succ (ih h.2)

end UltraTorrent.Jobs.Checkpoints
