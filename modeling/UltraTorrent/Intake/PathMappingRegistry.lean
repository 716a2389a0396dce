import UltraTorrent.Intake.PathMapping
import UltraTorrent.Library.Fallible
import UltraTorrent.Library.Interleaving
import UltraTorrent.Library.Table
import UltraTorrent.Library.WhiteSpace

/-! The registry of path mappings, which translates by the rules in its cache. A write drops the cache
when it is done, but a translation that read the rows before the write may still fill it. As long as no
cache is filled with rows older than a write that has returned, none is translated by. -/
namespace UltraTorrent.Intake.PathMappingRegistry

open Library Library.Interleaving Library.WhiteSpace PathMapping
open Library.Fallible (bind_eq_ok)

/-- A row of `path_mapping_rules`. -/
structure Row where
  id : String
  space : PathSpace
  fromPrefix : Text
  toPrefix : Text
  scopeId : Option String
  priority : ℤ
  isEnabled : Bool
  deriving DecidableEq

/-- The rows in the order they were created. -/
abbrev Rows := Table Row (·.id)

def PATH_SPACES : List (String × PathSpace) :=
  [("canonical", .canonical), ("host", .host), ("container", .container), ("provider", .provider),
    ("media_server", .mediaServer)]

def spaceName : PathSpace → String
  | .canonical => "canonical"
  | .host => "host"
  | .container => "container"
  | .provider => "provider"
  | .mediaServer => "media_server"

def assertPrefix (label : String) (value : Text) : Except String Unit :=
  if trimmed value = [] then .error (label ++ " is required.")
  else if (trimmed value).head? ≠ some '/' then .error (label ++ " must be an absolute path.")
  else .ok ()

/-- The space of a rule that can mean something. -/
def assertValid (space : String) (fromPrefix toPrefix : Text) : Except String PathSpace :=
  match PATH_SPACES.lookup space with
  | none => .error ("Unknown path space \"" ++ space ++ "\".")
  | some known =>
    if known = .canonical then .error "The canonical space is the source; it cannot be a target."
    else do
      assertPrefix "fromPrefix" fromPrefix
      assertPrefix "toPrefix" toPrefix
      if trimmed fromPrefix = trimmed toPrefix then .error "A mapping that changes nothing has no effect."
      else .ok known

structure CreateInput where
  space : String
  fromPrefix : Text
  toPrefix : Text
  scopeId : Option String
  priority : Option ℤ
  isEnabled : Option Bool
  deriving DecidableEq

/-- The columns a request changes; a scope may be changed to none. -/
structure UpdateInput where
  space : Option String
  fromPrefix : Option Text
  toPrefix : Option Text
  scopeId : Option (Option String)
  priority : Option ℤ
  isEnabled : Option Bool
  deriving DecidableEq

def createData (id : String) (input : CreateInput) : Except String Row := do
  let space ← assertValid input.space input.fromPrefix input.toPrefix
  return {
    id, space
    fromPrefix := trimmed input.fromPrefix
    toPrefix := trimmed input.toPrefix
    scopeId := (input.scopeId.map trim).filter (· ≠ "")
    priority := input.priority.getD 0
    isEnabled := input.isEnabled.getD true }

/-- The change that a request makes to a row, judged by the rule it would make of the row that was read. -/
def updateData (current : Row) (input : UpdateInput) : Except String (Row → Row) := do
  let merged ← assertValid (input.space.getD (spaceName current.space))
    (input.fromPrefix.getD current.fromPrefix) (input.toPrefix.getD current.toPrefix)
  return fun row => { row with
    space := if input.space.isSome then merged else row.space
    fromPrefix := input.fromPrefix.getD row.fromPrefix
    toPrefix := input.toPrefix.getD row.toPrefix
    scopeId := input.scopeId.getD row.scopeId
    priority := input.priority.getD row.priority
    isEnabled := input.isEnabled.getD row.isEnabled }

/-- The rules as `findMany` answers with them: by priority, then by age. -/
def rulesOf (rows : Rows) : List PathMappingRule :=
  (rows.rows.mergeSort fun a b => b.priority ≤ a.priority).map fun r =>
    ⟨r.id, r.space, r.fromPrefix, r.toPrefix, r.scopeId, r.priority, r.isEnabled⟩

/-! ### The registry and its callers -/

structure Snapshot where
  rules : List PathMappingRule
  /-- How many writes had been made when the rows were read. -/
  asOf : ℕ

structure Store where
  rows : Rows
  /-- What the rows were before each write, the first one first. -/
  past : List Rows
  /-- The latest write that has returned, by its number. -/
  settled : ℕ
  cache : Option Snapshot

def Store.writes (s : Store) : ℕ := s.past.length

def Store.rowsAt (s : Store) (n : ℕ) : Option Rows := (s.past ++ [s.rows])[n]?

def Store.write (s : Store) (rows : Rows) : Store := { s with rows, past := s.past ++ [s.rows] }

inductive Query where
  | toSpace (canonical : Text) (space : PathSpace) (scopeId : Option String)
  | fromSpace (path : Text) (space : PathSpace) (scopeId : Option String)

def translate : Query → List PathMappingRule → Text
  | .toSpace canonical space scopeId, rules => toSpace canonical space rules scopeId
  | .fromSpace path space scopeId, rules => fromSpace path space rules scopeId

/-- Where a call stands. A translation remembers which write had returned last when it began. -/
inductive Call where
  | idle
  | reading (query : Query) (since : ℕ)
  | filling (query : Query) (since : ℕ) (snapshot : Snapshot)
  | translated (query : Query) (since : ℕ) (answer : Text)
  | creating (row : Row)
  | finding (id : String) (input : UpdateInput)
  | updating (id : String) (f : Row → Row) (hf : ∀ row, (f row).id = row.id)
  | removing (id : String)
  /-- The write has been made and the cache is still there. -/
  | written (number : ℕ)
  | returned
  | failed (message : String)

/-- What a call is asked to do, that its query is answered, or that it is rejected. -/
inductive Event where
  | translate (query : Query)
  | create (id : String) (input : CreateInput)
  | update (id : String) (input : UpdateInput)
  | remove (id : String)
  | answered
  | rejected (message : String)

theorem updateData_id {current : Row} {input : UpdateInput} {f : Row → Row}
    (h : updateData current input = .ok f) (row : Row) : (f row).id = row.id := by
  obtain ⟨merged, -, hf⟩ := bind_eq_ok.1 h
  cases hf
  rfl

def act (s : Store) : Call → Event → Option (Store × Call)
  | .idle, .translate query => match s.cache with
    | some snapshot => some (s, .translated query s.settled (translate query snapshot.rules))
    | none => some (s, .reading query s.settled)
  | .idle, .create id input => match createData id input with
    | .error message => some (s, .failed message)
    | .ok row => some (s, .creating row)
  | .idle, .update id input => some (s, .finding id input)
  | .idle, .remove id => some (s, .removing id)
  | .reading query since, .answered => some (s, .filling query since ⟨rulesOf s.rows, s.writes⟩)
  | .filling query since snapshot, .answered =>
    some ({ s with cache := some snapshot }, .translated query since (translate query snapshot.rules))
  | .creating row, .answered => match s.rows.insert [row] with
    | none => some (s, .failed "Unique constraint failed")
    | some rows => some (s.write rows, .written (s.writes + 1))
  | .finding id input, .answered => match s.rows.find id with
    | none => some (s, .failed "Path mapping rule not found.")
    | some current => match h : updateData current input with
      | .error message => some (s, .failed message)
      | .ok f => some (s, .updating id f (updateData_id h))
  | .updating id f hf, .answered => match s.rows.find id with
    | none => some (s, .failed "Record to update not found.")
    | some _ => some (s.write (s.rows.updateAt id f hf), .written (s.writes + 1))
  | .removing id, .answered => match s.rows.find id with
    | none => some (s, .failed "Record to delete does not exist.")
    | some _ => some (s.write (s.rows.erase id), .written (s.writes + 1))
  -- the cache is dropped and the write returns, with nothing in between
  | .written number, .answered => some ({ s with cache := none, settled := max s.settled number }, .returned)
  | .reading _ _, .rejected message => some (s, .failed message)
  | .creating _, .rejected message => some (s, .failed message)
  | .finding _ _, .rejected message => some (s, .failed message)
  | .updating _ _ _, .rejected message => some (s, .failed message)
  | .removing _, .rejected message => some (s, .failed message)
  | .written _, .rejected message => some (s, .failed message)
  | _, _ => none

/-- A registry that has just been built, over any rows. -/
def start (ι : Type*) (rows : Rows) : Config ι Store Call := ⟨⟨rows, [], 0, none⟩, fun _ => .idle⟩

/-- A translation that is done used the rules as they were after the last write that had returned before
it began, or after a later one. -/
def Reflects (s : Store) : Call → Prop
  | .translated query since answer =>
    ∃ n rows, since ≤ n ∧ s.rowsAt n = some rows ∧ answer = translate query (rulesOf rows)
  | _ => True

/-- No write has returned since the rows were read that the cache is about to be filled with. -/
def FillsInTime (s : Store) : Call → Prop
  | .filling _ _ snapshot => s.settled ≤ snapshot.asOf
  | _ => True

instance (s : Store) (k : Call) : Decidable (FillsInTime s k) := by
  cases k <;> unfold FillsInTime <;> infer_instance

variable {ι : Type*} [DecidableEq ι] {s s' : Store} {k k' : Call} {event : Event} {rows rows' : Rows} {n : ℕ}

/-- What is known of a snapshot: the rules are those of the rows at the time. -/
def Snapshot.Of (snapshot : Snapshot) (s : Store) : Prop :=
  ∃ rows, s.rowsAt snapshot.asOf = some rows ∧ snapshot.rules = rulesOf rows

theorem rowsAt_writes (s : Store) : s.rowsAt s.writes = some s.rows := by
  rw [Store.rowsAt, Store.writes, List.getElem?_append_right (Nat.le_refl _), Nat.sub_self]
  rfl

theorem writes_write (s : Store) (rows : Rows) : (s.write rows).writes = s.writes + 1 := by
  rw [Store.writes, Store.write, List.length_append]
  rfl

/-- A write does not change the past. -/
theorem rowsAt_write (h : s.rowsAt n = some rows) : (s.write rows').rowsAt n = some rows := by
  rw [Store.rowsAt] at h ⊢
  rw [Store.write, List.getElem?_append_left (List.getElem?_eq_some_iff.1 h).1, h]

/-- The store: the cache holds rules as they were after the last write that returned, or later. -/
def Fresh (s : Store) : Prop :=
  s.settled ≤ s.writes ∧ ∀ snapshot ∈ s.cache, s.settled ≤ snapshot.asOf ∧ snapshot.Of s

/-- Each call: what it has read is no older than the write that had returned when it began. -/
def Sound (s : Store) : Call → Prop
  | .reading _ since => since ≤ s.settled
  | .filling _ since snapshot => since ≤ snapshot.asOf ∧ snapshot.Of s
  | .written number => number ≤ s.writes
  | k => Reflects s k

/-- Everything a step can do. What a call waits for to write, or why it failed, says nothing of what it
has read. -/
inductive Effect (s : Store) : Call → Store → Call → Prop
  | hit {query : Query} {snapshot : Snapshot} : snapshot ∈ s.cache →
      Effect s .idle s (.translated query s.settled (translate query snapshot.rules))
  | missed {query : Query} : Effect s .idle s (.reading query s.settled)
  | read {query : Query} {since : ℕ} :
      Effect s (.reading query since) s (.filling query since ⟨rulesOf s.rows, s.writes⟩)
  | filled {query : Query} {since : ℕ} {snapshot : Snapshot} : Effect s (.filling query since snapshot)
      { s with cache := some snapshot } (.translated query since (translate query snapshot.rules))
  | quiet {k k' : Call} : (∀ t, Sound t k') → Effect s k s k'
  | written {k : Call} (rows : Rows) : Effect s k (s.write rows) (.written (s.writes + 1))
  | returned {number : ℕ} : Effect s (.written number)
      { s with cache := none, settled := max s.settled number } .returned

theorem effect_act (h : act s k event = some (s', k')) : Effect s k s' k' := by
  unfold act at h
  split at h
  · -- a translation begins, with a cache or without one
    split at h <;> cases h
    next hcache => exact .hit hcache
    · exact .missed
  · split at h <;> cases h <;> exact .quiet fun _ => trivial
  · cases h; exact .quiet fun _ => trivial
  · cases h; exact .quiet fun _ => trivial
  · cases h; exact .read
  · cases h; exact .filled
  · split at h <;> cases h
    · exact .quiet fun _ => trivial
    · exact .written _
  · split at h
    · cases h; exact .quiet fun _ => trivial
    · split at h <;> cases h <;> exact .quiet fun _ => trivial
  · split at h <;> cases h
    · exact .quiet fun _ => trivial
    · exact .written _
  · split at h <;> cases h
    · exact .quiet fun _ => trivial
    · exact .written _
  · cases h; exact .returned
  -- every query may be rejected
  · cases h; exact .quiet fun _ => trivial
  · cases h; exact .quiet fun _ => trivial
  · cases h; exact .quiet fun _ => trivial
  · cases h; exact .quiet fun _ => trivial
  · cases h; exact .quiet fun _ => trivial
  · cases h; exact .quiet fun _ => trivial
  · cases h

theorem Snapshot.Of.effect {snapshot : Snapshot} (h : snapshot.Of s) (heffect : Effect s k s' k') :
    snapshot.Of s' := by
  obtain ⟨rows, hrows, hrules⟩ := h
  refine ⟨rows, ?_, hrules⟩
  cases heffect with
  | written => exact rowsAt_write hrows
  | _ => exact hrows

theorem writes_effect (heffect : Effect s k s' k') : s.writes ≤ s'.writes := by
  cases heffect with
  | written rows => exact writes_write s rows ▸ Nat.le_succ _
  | _ => exact Nat.le_refl _

theorem settled_effect (heffect : Effect s k s' k') : s.settled ≤ s'.settled := by
  cases heffect with
  | returned => exact Nat.le_max_left _ _
  | _ => exact Nat.le_refl _

/-- No step of another call makes what a call has read any older. -/
theorem Sound.other {l : Call} (h : Sound s l) (heffect : Effect s k s' k') : Sound s' l := by
  cases l with
  | reading => exact Nat.le_trans h (settled_effect heffect)
  | filling => exact ⟨h.1, h.2.effect heffect⟩
  | written => exact Nat.le_trans h (writes_effect heffect)
  | translated query since answer =>
    obtain ⟨n, rows, hn, hrows, hanswer⟩ := h
    have hof : Snapshot.Of ⟨rulesOf rows, n⟩ s := ⟨rows, hrows, rfl⟩
    obtain ⟨rows', hrows', hrules⟩ := hof.effect heffect
    exact ⟨n, rows', hn, hrows', hrules ▸ hanswer⟩
  | _ => trivial

theorem Sound.own (h : Sound s k) (hfresh : Fresh s) (heffect : Effect s k s' k') : Sound s' k' := by
  cases heffect with
  | hit hsnapshot =>
    obtain ⟨hle, rows, hrows, hrules⟩ := hfresh.2 _ hsnapshot
    exact ⟨_, rows, hle, hrows, congrArg _ hrules⟩
  | missed => exact Nat.le_refl _
  | read => exact ⟨Nat.le_trans h hfresh.1, s.rows, rowsAt_writes s, rfl⟩
  | filled =>
    obtain ⟨hle, rows, hrows, hrules⟩ := h
    exact ⟨_, rows, hle, hrows, congrArg _ hrules⟩
  | quiet hquiet => exact hquiet s
  | written rows => exact Nat.le_of_eq (writes_write s rows).symm
  | returned => trivial

theorem Fresh.effect (h : Fresh s) (hsound : Sound s k) (hintime : FillsInTime s k)
    (heffect : Effect s k s' k') : Fresh s' := by
  obtain ⟨hsettled, hcache⟩ := h
  cases heffect with
  | filled =>
    refine ⟨hsettled, fun snapshot hsnapshot => ?_⟩
    obtain rfl := Option.mem_some_iff.1 hsnapshot
    exact ⟨hintime, hsound.2⟩
  | written rows =>
    refine ⟨?_, fun snapshot hsnapshot => ?_⟩
    · rw [writes_write]
      exact Nat.le_succ_of_le hsettled
    · exact (hcache snapshot hsnapshot).imp_right fun hof => hof.effect (.written (k := k) rows)
  | returned => exact ⟨Nat.max_le.2 ⟨hsettled, hsound⟩, nofun⟩
  | _ => exact ⟨hsettled, hcache⟩

/-- While every fill is in time, every translation reflects the writes that had returned when it began. -/
theorem reflects (c : Config ι Store Call) (h : Run act (alone FillsInTime) (start ι rows) c) (i : ι) :
    Reflects c.store (c.call i) := by
  have hstart : Inv Fresh Sound (fun _ _ => True) (start ι rows) := by
    refine ⟨⟨Nat.le_refl 0, ?_⟩, fun _ => ?_, fun _ _ _ => trivial⟩
    · exact fun snapshot hsnapshot => absurd hsnapshot (Option.not_mem_none snapshot)
    · exact True.intro
  have hinv : Inv Fresh Sound (fun _ _ => True) c := by
    refine h.inv (fun _ _ _ => trivial) hstart ?_ ?_
    · intro s k event s' k' hfresh hsound hintime hact
      exact ⟨hfresh.effect hsound hintime (effect_act hact), hsound.own hfresh (effect_act hact)⟩
    · intro s k event s' k' l _ _ hsound _ _ hact
      exact ⟨hsound.other (effect_act hact), trivial⟩
  have hsound := hinv.call i
  cases hk : c.call i with
  | translated => rwa [hk] at hsound
  | _ => trivial

/-- What the operator finds missing. -/
def mediaRule : CreateInput := ⟨"host", "/media".toList, "/mnt/media".toList, none, none, none⟩

def showOnHost : Query := .toSpace "/media/Show".toList .host none

/-- The first call translates after the second has created the rule. -/
theorem reflects_created : ∃ c : Config ℕ Store Call,
    c.call 0 = .translated showOnHost 1 "/mnt/media/Show".toList ∧ Reflects c.store (c.call 0) := by
  obtain ⟨c, hrun, hc⟩ := run_of_exec_any act (alone FillsInTime) (start ℕ ⟨[], List.nodup_nil⟩)
    [(1, .create "a" mediaRule), (1, .answered), (1, .answered), (0, .translate showOnHost), (0, .answered),
      (0, .answered)]
    (fun c => match c.call 0 with
      | .translated (.toSpace path .host none) 1 answer =>
        path = "/media/Show".toList ∧ answer = "/mnt/media/Show".toList
      | _ => false)
    (by decide +kernel)
  refine ⟨c, ?_, reflects c hrun 0⟩
  split at hc
  next hcall =>
    obtain ⟨rfl, rfl⟩ := of_decide_eq_true hc
    exact hcall
  · cases hc

/-- Every write had returned when a translation began, and it is not by the rules as they are now. -/
def outdated (s : Store) : Call → Bool
  | .translated query since answer => s.writes ≤ since ∧ answer ≠ translate query (rulesOf s.rows)
  | _ => false

theorem not_reflects (h : outdated s k = true) : ¬ Reflects s k := by
  cases k with
  | translated query since answer =>
    rintro ⟨n, rows, hn, hrows, hanswer⟩
    obtain ⟨hle, hne⟩ := of_decide_eq_true h
    have hlt : n < s.writes + 1 := by
      have hlength := (List.getElem?_eq_some_iff.1 hrows).1
      rwa [List.length_append] at hlength
    obtain rfl : n = s.writes := by omega
    obtain rfl := Option.some.inj ((rowsAt_writes s).symm.trans hrows)
    exact hne hanswer
  | _ => cases h

/-- The rule is created while the first call is waiting for the rows, of which there were none. -/
theorem not_reflects_created :
    ¬ ∀ c : Config ℕ Store Call, Run act (fun _ _ => True) (start ℕ ⟨[], List.nodup_nil⟩) c →
      ∀ i, Reflects c.store (c.call i) := by
  intro h
  obtain ⟨c, hrun, hc⟩ := run_of_exec_any act (fun _ _ => True) (start ℕ ⟨[], List.nodup_nil⟩)
    [(0, .translate showOnHost), (0, .answered), (1, .create "a" mediaRule), (1, .answered), (1, .answered),
      (0, .answered), (2, .translate showOnHost)]
    (fun c => outdated c.store (c.call 2)) (by decide +kernel)
  exact not_reflects hc (h c hrun 2)

end UltraTorrent.Intake.PathMappingRegistry
