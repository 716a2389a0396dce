import UltraTorrent.Files.HeldItems

/-! The trash of the file manager: a deleted item is moved into a directory of its own storage
root and recorded in a row, from which it is restored or purged. -/
namespace UltraTorrent.Files.Trash

open Library Library.EcmaScript Library.FileTree Library.HoldingArea
open FileOps ResolvedPaths HeldItems

def trashDirName : String := ".ultratorrent-trash"

structure TrashItem where
  id : String
  /-- Relative to the storage root. -/
  originalPath : Path
  trashPath : Path
  storageRoot : Path
  deletedAt : Instant
  deriving DecidableEq

structure Store (β : Type*) where
  entries : Volume (Node β)
  rows : Table TrashItem TrashItem.id

inductive Failure where
  | refused (message : String)
  | failed
  deriving DecidableEq

variable {β : Type*}

/-- What a call answers, and what it leaves. -/
abbrev Outcome (β : Type*) := Except Failure Unit × Store β

section

variable (rt : Runtime) (hardRoots : List Path) (c : Circumstances β)

def defaultTrashRetentionDays : ℚ := 30

/-- The retention window from the setting as stored, `none` where it cannot be read. -/
def retentionDays (raw : Option Value) : ℚ :=
  match raw with
  | none | some .undefined | some .null | some (.string "") => defaultTrashRetentionDays
  | some raw =>
    match rt.number raw with
    | .fin n => if n < 0 then defaultTrashRetentionDays else n
    | _ => defaultTrashRetentionDays

def trashDir (storageRoot : Path) : Path := storageRoot ++ [trashDirName]

/-- The record of an item, under a name that no two items share. -/
def trashedItem (storageRoot abs : Path) : TrashItem where
  id := c.uuid.val
  originalPath := relativeToRoot storageRoot abs
  trashPath := slot trashDirName storageRoot (holdingName c.uuid.val (abs.getLastD ""))
  storageRoot := storageRoot
  deletedAt := c.now

/-- Moves an item into its root's trash, and then records it. -/
def moveToTrash (s : Store β) (boundary : List Path) (abs : Path) : Outcome β :=
  match assertDeletable boundary abs with
  | .error message => (.error (.refused message), s)
  | .ok () =>
    if isInside trashDirName boundary abs then (.error (.refused "Item is already in the trash"), s)
    else match rootFor boundary abs with
      | none => (.error (.refused "Item is outside the allowed roots"), s)
      | some storageRoot =>
        if !pathExists c s.entries abs then (.error (.refused "Item not found"), s)
        else if c.fails .makeHoldingDirectory then (.error .failed, s)
        else
          let entries := mkdir s.entries (trashDir storageRoot)
          let row := trashedItem c storageRoot abs
          let (moved, entries) := moveRecursive c entries abs row.trashPath false
          if !moved then (.error .failed, { s with entries })
          else if c.fails .insertRow then (.error .failed, { s with entries })
          else match s.rows.insert [row] with
            | none => (.error .failed, { s with entries })
            | some rows => (.ok (), ⟨entries, rows⟩)

/-- Where an item goes back to: below the root it was recorded with, if that is configured. -/
def resolveOriginal (row : TrashItem) : Except String Path :=
  if !rootIsConfigured hardRoots row.storageRoot then
    .error "The storage root this item was trashed from is no longer configured; restore it by hand."
  else .ok (row.storageRoot ++ row.originalPath)

def deleteRow (s : Store β) (id : String) : Outcome β :=
  if c.fails (.deleteRow id) then (.error .failed, s)
  else (.ok (), { s with rows := s.rows.erase id })

def restore (s : Store β) (id : String) (overwrite : Bool) : Outcome β :=
  if c.fails .read then (.error .failed, s)
  else match s.rows.find id with
    | none => (.error (.refused "Trash item not found"), s)
    | some row =>
      match resolveOriginal hardRoots row with
      | .error message => (.error (.refused message), s)
      | .ok dest =>
        if !pathExists c s.entries row.trashPath then
          -- the dangling record is dropped; that this fails is not minded
          (.error (.refused "Trashed payload no longer exists on disk"), (deleteRow c s id).2)
        else if !overwrite && pathExists c s.entries dest then
          (.error (.refused "An item already exists at the original location"), s)
        else
          let (removed, entries) :=
            if overwrite && pathExists c s.entries dest then rm c .removeOccupant s.entries dest
            else (true, s.entries)
          if !removed then (.error .failed, { s with entries })
          else
            let (moved, entries) := moveRecursive c entries row.trashPath dest overwrite
            if !moved then (.error .failed, { s with entries })
            else deleteRow c { s with entries } id

/-- Only inside the trash directory of the recorded root, and only while that is configured. -/
def payloadIsRemovable (row : TrashItem) : Bool :=
  rootIsConfigured hardRoots row.storageRoot &&
    (trashDir row.storageRoot).isPrefixOf row.trashPath && row.trashPath ≠ trashDir row.storageRoot

def removePayload (entries : Volume (Node β)) (row : TrashItem) : Bool × Volume (Node β) :=
  if payloadIsRemovable hardRoots row then rm c (.removePayload row.id) entries row.trashPath
  else (true, entries)

def removeItem (s : Store β) (row : TrashItem) : Outcome β :=
  let (removed, entries) := removePayload hardRoots c s.entries row
  if !removed then (.error .failed, { s with entries })
  else deleteRow c { s with entries } row.id

def purge (s : Store β) (id : String) : Outcome β :=
  if c.fails .read then (.error .failed, s)
  else match s.rows.find id with
    | none => (.error (.refused "Trash item not found"), s)
    | some row => removeItem hardRoots c s row

/-- A payload that cannot be removed is passed over, and its row goes with the others. -/
def empty (s : Store β) : Outcome β :=
  if c.fails .read then (.error .failed, s)
  else
    let entries := s.rows.rows.foldl (fun entries row => (removePayload hardRoots c entries row).2) s.entries
    if c.fails .deleteRows then (.error .failed, { s with entries })
    else (.ok (), ⟨entries, s.rows.clear⟩)

def cutoff (raw : Option Value) : Instant :=
  newDate (c.now - max 0 (retentionDays rt raw) * 86400000)

/-- One that cannot be removed does not stop the rest. -/
def pruneExpired (s : Store β) (raw : Option Value) : Outcome β :=
  if c.fails .read then (.error .failed, s)
  else
    let due := s.rows.rows.filter fun row => row.deletedAt ≤ cutoff rt c raw
    (.ok (), due.foldl (fun s row => (removeItem hardRoots c s row).2) s)

/-- The hard roots, or the narrowed root inside them. -/
structure Boundary (hardRoots : List Path) where
  roots : List Path
  within : ∀ root ∈ roots, rootIsConfigured hardRoots root = true

inductive Call (hardRoots : List Path) where
  | moveToTrash (boundary : Boundary hardRoots) (abs : Path)
  | restore (id : String) (overwrite : Bool)
  | purge (id : String)
  | empty
  | pruneExpired (retention : Option Value)

def perform (s : Store β) : Call hardRoots → Outcome β
  | .moveToTrash boundary abs => moveToTrash c s boundary.roots abs
  | .restore id overwrite => restore hardRoots c s id overwrite
  | .purge id => purge hardRoots c s id
  | .empty => empty hardRoots c s
  | .pruneExpired retention => pruneExpired rt hardRoots c s retention

end

end UltraTorrent.Files.Trash

/-! What the trash loses when a call fails half-way, over whole sequences of calls. -/
namespace UltraTorrent.Files.TrashRuns

open Library Library.EcmaScript Library.FileTree Library.HoldingArea
open FileOps ResolvedPaths HeldItems Trash

variable {β : Type*} {hardRoots : List Path} {c : Circumstances β} {s : Store β}
  {boundary : Boundary hardRoots} {abs storageRoot : Path}

/-! ### What a call can do -/

/-- What a call has made sure of before it moves anything. -/
structure Admitted (s : Store β) (boundary : List Path) (abs storageRoot : Path) : Prop where
  root_mem : storageRoot ∈ boundary
  root_prefix : storageRoot <+: abs
  root_ne : abs ≠ storageRoot
  standing : (s.entries abs).isSome

theorem mem_of_rootFor {roots : List Path} (h : rootFor roots abs = some storageRoot) :
    storageRoot ∈ roots ∧ storageRoot <+: abs := by
  have hcontains := List.find?_some h
  simp only [contains, Bool.or_eq_true, decide_eq_true_eq, Bool.and_eq_true,
    List.isPrefixOf_iff_prefix] at hcontains
  refine ⟨List.mem_of_find?_eq_some h, ?_⟩
  rcases hcontains with rfl | ⟨-, hprefix⟩
  · exact List.prefix_refl _
  · exact hprefix

theorem not_mem_of_assertDeletable {roots : List Path} (h : assertDeletable roots abs = .ok ()) :
    abs ∉ roots := by
  unfold assertDeletable at h
  split_ifs at h with hnil hroots hsystem
  simpa using hroots

inductive MoveToTrash (c : Circumstances β) (s : Store β) (boundary : List Path) (abs : Path) :
    Outcome β → Prop
  | refused (failure : Failure) : MoveToTrash c s boundary abs (.error failure, s)
  | unmoved {storageRoot : Path} {entries : Volume (Node β)} : Admitted s boundary abs storageRoot →
      MoveFailed c (mkdir s.entries (trashDir storageRoot)) abs (trashedItem c storageRoot abs).trashPath
        false entries →
      MoveToTrash c s boundary abs (.error .failed, ⟨entries, s.rows⟩)
  | unrecorded {storageRoot : Path} {entries : Volume (Node β)} : Admitted s boundary abs storageRoot →
      c.fault = some .insertRow ∨ s.rows.insert [trashedItem c storageRoot abs] = none →
      MoveToTrash c s boundary abs (.error .failed, ⟨entries, s.rows⟩)
  | done {storageRoot : Path} {rows : Table TrashItem TrashItem.id} :
      Admitted s boundary abs storageRoot → s.rows.insert [trashedItem c storageRoot abs] = some rows →
      MoveToTrash c s boundary abs (.ok (), ⟨rename
        (mkdir (mkdir s.entries (trashDir storageRoot)) (trashedItem c storageRoot abs).trashPath.dropLast)
        abs (trashedItem c storageRoot abs).trashPath, rows⟩)

theorem Admitted.apart (h : Admitted s boundary.roots abs storageRoot) (habs : trashDirName ∉ abs) :
    Apart abs (trashedItem c storageRoot abs).trashPath := by
  refine ⟨fun hbelow => ?_, fun hbelow => ?_⟩
  · obtain ⟨rest, rfl⟩ := h.root_prefix
    have hslot : storageRoot ++ rest <+:
        storageRoot ++ [trashDirName, holdingName c.uuid.val ((storageRoot ++ rest).getLastD "")] := hbelow
    rw [List.prefix_append_right_inj] at hslot
    cases rest with
    | nil => exact h.root_ne (List.append_nil _)
    | cons name rest =>
      rw [List.cons_prefix_cons] at hslot
      exact habs (by rw [hslot.1]; simp)
  · refine habs (hbelow.subset ?_)
    simp [trashedItem, slot]

variable (c s boundary) in
theorem moveToTrash_spec (habs : trashDirName ∉ abs) :
    MoveToTrash c s boundary.roots abs (moveToTrash c s boundary.roots abs) := by
  unfold moveToTrash
  cases hdeletable : assertDeletable boundary.roots abs with
  | error message => exact .refused _
  | ok _ =>
    by_cases hinside : isInside trashDirName boundary.roots abs = true
    · simpa only [if_pos hinside] using .refused _
    · simp only [if_neg hinside]
      cases hroot : rootFor boundary.roots abs with
      | none => exact .refused _
      | some storageRoot =>
        obtain ⟨hmem, hprefix⟩ := mem_of_rootFor hroot
        by_cases hexists : pathExists c s.entries abs = true
        · have hadmitted : Admitted s boundary.roots abs storageRoot :=
            { root_mem := hmem
              root_prefix := hprefix
              root_ne := fun heq => not_mem_of_assertDeletable hdeletable (heq ▸ hmem)
              standing := (Bool.and_eq_true_iff.1 hexists).2 }
          by_cases hmkdir : c.fails .makeHoldingDirectory = true
          · simpa [hexists, hmkdir] using .refused _
          · simp only [hexists, hmkdir, Bool.not_true, Bool.false_eq_true, if_false]
            cases hmoved : (moveRecursive c (mkdir s.entries (trashDir storageRoot)) abs
              (trashedItem c storageRoot abs).trashPath false).1 with
            | false =>
              exact .unmoved hadmitted (moveRecursive_failed hmoved)
            | true =>
              rw [moveRecursive_ok (hadmitted.apart habs) hmoved]
              by_cases hinsert : c.fails .insertRow = true
              · simpa [hinsert] using .unrecorded hadmitted (.inl (of_decide_eq_true hinsert))
              · simp only [hinsert, Bool.not_true, Bool.false_eq_true, if_false]
                cases hrows : s.rows.insert [trashedItem c storageRoot abs] with
                | none => exact .unrecorded hadmitted (.inr hrows)
                | some rows => exact .done hadmitted hrows
        · simpa [hexists] using .refused _

/-! ### A move into the trash -/

def place (row : TrashItem) : Place where
  id := row.id
  heldPath := row.trashPath
  storageRoot := row.storageRoot
  originalPath := row.originalPath

/-- Every row can be restored from, so every row counts on its payload. -/
abbrev Sound (hardRoots : List Path) (s : Store β) (deposited : String → Volume (Node β)) : Prop :=
  Intact trashDirName hardRoots place (fun _ => True) s.entries s.rows.rows deposited

theorem isReserved_trashDirName : IsReserved trashDirName := by
  unfold IsReserved
  decide

/-- When a move into the trash loses nothing, whatever else fails in it. -/
structure MoveKeeps (c : Circumstances β) (s : Store β) (abs : Path) : Prop where
  fresh : ∀ row ∈ s.rows.rows, row.id ≠ c.uuid.val
  /-- It is not, and is not in, the trash directory of any root. -/
  outside : trashDirName ∉ abs
  /-- Nothing trashed from a root inside it is held there. -/
  alone : ∀ row ∈ s.rows.rows, ¬ abs <+: row.trashPath
  /-- The row is written after the move. -/
  recorded : c.fault ≠ some .insertRow
  /-- A copy that fails is not cleared away. -/
  copied : c.crossing = true → c.fault = some .copy → c.leftover [] = none
  /-- Nor is one whose source cannot be removed. -/
  removed : c.crossing = true → c.fault ≠ some .removeSource

namespace Admitted

variable (h : Admitted s boundary.roots abs storageRoot) (habs : trashDirName ∉ abs)

include h habs

theorem root_outside : trashDirName ∉ storageRoot := not_mem_of_prefix habs h.root_prefix

theorem wellSited : (place (trashedItem c storageRoot abs)).WellSited trashDirName hardRoots := by
  obtain ⟨rest, hrest⟩ := h.root_prefix
  have horiginal : relativeToRoot storageRoot abs = rest := by
    rw [relativeToRoot, ← hrest, List.drop_left]
  refine ⟨c.uuid.property, boundary.within _ h.root_mem, h.root_outside habs, ?_, ?_, _, rfl⟩
  · show trashDirName ∉ relativeToRoot storageRoot abs
    rw [horiginal]
    exact fun hmem => habs (hrest ▸ List.mem_append_right _ hmem)
  · show relativeToRoot storageRoot abs ≠ []
    rw [horiginal]
    rintro rfl
    exact h.root_ne (by rw [← hrest, List.append_nil])

theorem not_prefix_trashDir : ¬ abs <+: trashDir storageRoot := by
  intro hprefix
  rcases List.prefix_concat_iff.1 hprefix with heq | hroot
  · exact habs (heq ▸ by simp)
  · exact h.root_ne (hroot.eq_of_length_le h.root_prefix.length_le)

end Admitted

theorem trashedItem_dropLast :
    (trashedItem c storageRoot abs).trashPath.dropLast = trashDir storageRoot := dropLast_slot

theorem below_prepared (habs : trashDirName ∉ abs) (hadmitted : Admitted s boundary.roots abs storageRoot) :
    below (mkdir s.entries (trashDir storageRoot)) abs = below s.entries abs ∧
    below (mkdir (mkdir s.entries (trashDir storageRoot))
      (trashedItem c storageRoot abs).trashPath.dropLast) abs = below s.entries abs := by
  have hnot := hadmitted.not_prefix_trashDir habs
  have hfirst : below (mkdir s.entries (trashDir storageRoot)) abs = below s.entries abs := below_mkdirs hnot
  refine ⟨hfirst, (below_mkdirs ?_).trans hfirst⟩
  rwa [trashedItem_dropLast]

section Moving

variable {deposited : String → Volume (Node β)} (h : Sound hardRoots s deposited)
  (hkeeps : MoveKeeps c s abs) (hadmitted : Admitted s boundary.roots abs storageRoot)

include h hkeeps hadmitted

/-- The directories a move makes first. -/
theorem sound_prepared : Sound hardRoots ⟨mkdir s.entries (trashDir storageRoot), s.rows⟩ deposited ∧
    Sound hardRoots ⟨mkdir (mkdir s.entries (trashDir storageRoot))
      (trashedItem c storageRoot abs).trashPath.dropLast, s.rows⟩ deposited := by
  have harea : ∀ q, q <+: trashDir storageRoot → ¬ IsEntry trashDirName q := fun q hq =>
    not_isEntry_of_prefix_area (hadmitted.root_outside hkeeps.outside) hq
  have hfirst := h.mkdir harea fun _ => .directory
  refine ⟨hfirst, hfirst.mkdir ?_ fun _ => .directory⟩
  rw [trashedItem_dropLast]
  exact harea

omit hadmitted in
theorem below_abs_isEntry {q : Path} (hq : IsEntry trashDirName q) : below s.entries abs q = none := by
  refine h.accounted.below_of_not_prefix ?_ hq
  intro p hp
  obtain ⟨row, hrow, rfl⟩ := List.mem_map.1 hp
  exact hkeeps.alone row hrow

theorem moveFailed_sound {entries : Volume (Node β)}
    (hfailed : MoveFailed c (mkdir s.entries (trashDir storageRoot)) abs
      (trashedItem c storageRoot abs).trashPath false entries) :
    Sound hardRoots ⟨entries, s.rows⟩ deposited ∧ below entries abs = below s.entries abs := by
  obtain ⟨hfirst, hsecond⟩ := sound_prepared h hkeeps hadmitted
  obtain ⟨hbelowFirst, hbelowSecond⟩ := below_prepared (c := c) hkeeps.outside hadmitted
  have hsited := (hadmitted.wellSited hkeeps.outside (c := c)).sited isReserved_trashDirName
  cases hfailed with
  | untouched => exact ⟨hfirst, hbelowFirst⟩
  | prepared => exact ⟨hsecond, hbelowSecond⟩
  | partly hcrossing hfault =>
    refine ⟨hsecond.of_frame (hsecond.accounted.graft_hollow hsited ?_ ?_) ?_, ?_⟩
    · intro q hq
      rw [hbelowSecond]
      exact partOf_of_none (below_abs_isEntry h hkeeps hq)
    · unfold partOf
      rw [hkeeps.copied hcrossing hfault, ite_self]
    · intro row hrow
      refine below_graft ?_
      exact hsited.apart ((h.sited row hrow).sited isReserved_trashDirName)
        ((hadmitted.wellSited hkeeps.outside).heldPath_ne (h.sited row hrow) (hkeeps.fresh row hrow).symm)
    · rw [below_graft (hadmitted.apart hkeeps.outside).symm, hbelowSecond]
  | doubled hcrossing hfault => exact absurd hfault (hkeeps.removed hcrossing)

/-- A move that succeeds has put it under its row. -/
theorem done_sound {rows : Table TrashItem TrashItem.id}
    (hinsert : s.rows.insert [trashedItem c storageRoot abs] = some rows) :
    Sound hardRoots ⟨rename (mkdir (mkdir s.entries (trashDir storageRoot))
        (trashedItem c storageRoot abs).trashPath.dropLast) abs (trashedItem c storageRoot abs).trashPath, rows⟩
      (Function.update deposited c.uuid.val (below s.entries abs)) := by
  obtain ⟨-, hsecond⟩ := sound_prepared h hkeeps hadmitted
  obtain ⟨-, hbelow⟩ := below_prepared (c := c) hkeeps.outside hadmitted
  have hremoved := hsecond.remove hkeeps.outside hkeeps.alone
  have hstanding : below s.entries abs [] ≠ none := by
    rw [below, List.append_nil, ← Option.isSome_iff_ne_none]
    exact hadmitted.standing
  have hadmit := hremoved.enter isReserved_trashDirName (hadmitted.wellSited hkeeps.outside (c := c))
    hkeeps.fresh (fun q hq => below_abs_isEntry h hkeeps hq) hstanding
  unfold Sound rename
  rw [Table.rows_of_insert hinsert, hbelow]
  exact hadmit

end Moving

theorem MoveKeeps.not_unrecorded (hkeeps : MoveKeeps c s abs)
    (h : c.fault = some .insertRow ∨ s.rows.insert [trashedItem c storageRoot abs] = none) : False := by
  rcases h with hfault | hinsert
  · exact hkeeps.recorded hfault
  · have hsome := Table.insert_singleton_isSome (t := s.rows) (a := trashedItem c storageRoot abs)
      hkeeps.fresh
    rw [hinsert] at hsome
    cases hsome

theorem moveToTrash_sound {deposited : String → Volume (Node β)} (h : Sound hardRoots s deposited)
    (hkeeps : MoveKeeps c s abs) :
    Sound hardRoots (moveToTrash c s boundary.roots abs).2
      (Function.update deposited c.uuid.val (below s.entries abs)) := by
  have hforget : ∀ {entries : Volume (Node β)}, Sound hardRoots ⟨entries, s.rows⟩ deposited →
      Sound hardRoots ⟨entries, s.rows⟩ (Function.update deposited c.uuid.val (below s.entries abs)) :=
    fun hsound => hsound.of_deposited fun row hrow => Function.update_of_ne (hkeeps.fresh row hrow) _ _
  generalize houtcome : moveToTrash c s boundary.roots abs = outcome
  have hspec := houtcome ▸ moveToTrash_spec c s boundary hkeeps.outside
  cases hspec with
  | refused => exact hforget h
  | unmoved hadmitted hfailed => exact hforget (moveFailed_sound h hkeeps hadmitted hfailed).1
  | unrecorded hadmitted hnot => exact (hkeeps.not_unrecorded hnot).elim
  | done hadmitted hinsert => exact done_sound h hkeeps hadmitted hinsert

/-! ### A removal from the trash -/

/-- When a removal leaves the rows and the disk in agreement: the row goes with the payload, and a payload
that cannot be removed is a file, which is then whole. -/
structure RemovalKeeps (c : Circumstances β) (s : Store β) (row : TrashItem) : Prop where
  recorded : c.fault ≠ some (.deleteRow row.id)
  whole : c.fault = some (.removePayload row.id) → IsLeaf s.entries row.trashPath

section Removing

variable {deposited : String → Volume (Node β)} {row : TrashItem} (h : Sound hardRoots s deposited)
  (hrow : row ∈ s.rows.rows)

include h hrow

theorem payloadIsRemovable_of_sound : payloadIsRemovable hardRoots row = true := by
  have hsited := h.sited row hrow
  obtain ⟨base, hbase⟩ := hsited.heldPath_eq
  have hpath : row.trashPath = trashDir row.storageRoot ++ [holdingName row.id base] := by
    rw [show row.trashPath = (place row).heldPath from rfl, hbase, slot, trashDir, List.append_assoc]
    rfl
  have hconfigured : rootIsConfigured hardRoots row.storageRoot = true := hsited.configured
  simp [payloadIsRemovable, hconfigured, hpath]

/-- A payload and its row leave together. -/
theorem sound_retired :
    Sound hardRoots ⟨remove s.entries row.trashPath, s.rows.erase row.id⟩ deposited := by
  refine h.retire hrow (Table.erase_sublist.map _) ?_ ?_
  · intro r hr
    obtain ⟨hr, hid⟩ := Table.mem_erase.1 hr
    exact ⟨r, hr, rfl, fun _ => ⟨trivial, fun heq => hid (heq ▸ rfl)⟩⟩
  · intro old hold hne
    exact List.mem_map_of_mem (f := fun row => (place row).heldPath)
      (Table.mem_erase.2 ⟨hold, fun hid => hne (s.rows.eq_of_key hold hrow hid)⟩)

theorem removeItem_cases (hkeeps : RemovalKeeps c s row) :
    (removeItem hardRoots c s row).2 = ⟨remove s.entries row.trashPath, s.rows.erase row.id⟩ ∨
      (removeItem hardRoots c s row).2 = s := by
  unfold removeItem removePayload
  rw [if_pos (payloadIsRemovable_of_sound h hrow)]
  cases hrm : (rm c (.removePayload row.id) s.entries row.trashPath).1 with
  | true =>
    have hdelete : c.fails (.deleteRow row.id) = false := decide_eq_false hkeeps.recorded
    simp [hrm, (rm_ok hrm).2, deleteRow, hdelete]
  | false =>
    obtain ⟨hfails, hentries⟩ := rm_failed hrm
    refine .inr ?_
    simp [hrm, hentries, prune_of_isLeaf (hkeeps.whole (of_decide_eq_true hfails))]

theorem removeItem_sound (hkeeps : RemovalKeeps c s row) :
    Sound hardRoots (removeItem hardRoots c s row).2 deposited := by
  rcases removeItem_cases h hrow hkeeps with heq | heq
  · rw [heq]
    exact sound_retired h hrow
  · rwa [heq]

end Removing

theorem sweep_sound {deposited : String → Volume (Node β)} (due : List TrashItem)
    (h : Sound hardRoots s deposited) (hdue : ∀ row ∈ due, row ∈ s.rows.rows) (hnodup : due.Nodup)
    (hkeeps : ∀ row ∈ due, RemovalKeeps c s row) :
    Sound hardRoots (due.foldl (fun s row => (removeItem hardRoots c s row).2) s) deposited ∧
      ∀ row ∈ (due.foldl (fun s row => (removeItem hardRoots c s row).2) s).rows.rows, row ∈ s.rows.rows := by
  induction due generalizing s with
  | nil => exact ⟨h, fun _ hrow => hrow⟩
  | cons row due ih =>
    rw [List.forall_mem_cons] at hdue hkeeps
    obtain ⟨hfresh, hnodup⟩ := List.nodup_cons.1 hnodup
    rw [List.foldl_cons]
    have hsound := removeItem_sound h hdue.1 hkeeps.1
    rcases removeItem_cases h hdue.1 hkeeps.1 with heq | heq
    · rw [heq] at hsound ⊢
      have hrest := ih hsound ?_ hnodup fun other hother => ⟨(hkeeps.2 other hother).recorded, fun hfault => ?_⟩
      · exact ⟨hrest.1, fun r hr => (Table.mem_erase.1 (hrest.2 r hr)).1⟩
      · intro other hother
        refine Table.mem_erase.2 ⟨hdue.2 other hother, fun hid => hfresh ?_⟩
        rwa [← s.rows.eq_of_key (hdue.2 other hother) hdue.1 hid]
      · intro q hq hne
        show (if row.trashPath <+: q then none else s.entries q) = none
        rw [(hkeeps.2 other hother).whole hfault q hq hne, ite_self]
    · rw [heq]
      exact ih h hdue.2 hnodup hkeeps.2

theorem emptied_sound {deposited : String → Volume (Node β)} {entries : Volume (Node β)} (rows : List TrashItem)
    (h : Intact trashDirName hardRoots place (fun _ => True) entries rows deposited)
    (hremovable : ∀ row ∈ rows, payloadIsRemovable hardRoots row = true)
    (hkeeps : ∀ row ∈ rows, c.fault ≠ some (.removePayload row.id)) :
    Intact trashDirName hardRoots place (fun _ => True)
      (rows.foldl (fun entries row => (removePayload hardRoots c entries row).2) entries) [] deposited := by
  induction rows generalizing entries with
  | nil => exact h
  | cons row rows ih =>
    rw [List.forall_mem_cons] at hremovable hkeeps
    have hremoved : (removePayload hardRoots c entries row).2 = remove entries row.trashPath := by
      have hfails : c.fails (.removePayload row.id) = false := decide_eq_false hkeeps.1
      simp [removePayload, hremovable.1, rm, hfails]
    have hnodup : row.trashPath ∉ rows.map fun row => (place row).heldPath :=
      (List.nodup_cons.1 h.accounted.nodup).1
    rw [List.foldl_cons, hremoved]
    refine ih (h.retire List.mem_cons_self (List.sublist_cons_self _ _) ?_ ?_) hremovable.2 hkeeps.2
    · intro r hr
      exact ⟨r, List.mem_cons_of_mem _ hr, rfl, fun _ => ⟨trivial, fun heq =>
        hnodup (heq ▸ List.mem_map_of_mem (f := fun row => (place row).heldPath) hr)⟩⟩
    · rintro old (_ | ⟨_, hold⟩) hne
      · exact absurd rfl hne
      · exact List.mem_map_of_mem (f := fun row => (place row).heldPath) hold

/-! ### A restore -/

/-- When a restore loses nothing, whatever else fails in it. -/
structure RestoreKeeps (c : Circumstances β) (s : Store β) (row : TrashItem) : Prop where
  /-- What is in the trash is seen there. -/
  seen : c.unseen row.trashPath = false
  /-- What is overwritten has no trash of its own below it. -/
  alone : ∀ other ∈ s.rows.rows, ¬ (place row).original <+: other.trashPath
  /-- The row is deleted after the move. -/
  recorded : c.fault ≠ some (.deleteRow row.id)
  /-- A copy is made whose source cannot be removed. -/
  removed : c.crossing = true → c.fault ≠ some .removeSource

/-- The disk once what stood at the destination has been overwritten, where it is to be. -/
def Cleared (entries : Volume (Node β)) (dest : Path) (cleared : Volume (Node β)) : Prop :=
  cleared = entries ∨ cleared = remove entries dest

inductive Restore (c : Circumstances β) (s : Store β) (row : TrashItem) (overwrite : Bool) : Outcome β → Prop
  | refused (failure : Failure) : Restore c s row overwrite (.error failure, s)
  | occupied : Restore c s row overwrite
      (.error .failed, ⟨prune s.entries (place row).original c.remains, s.rows⟩)
  | unmoved {cleared entries : Volume (Node β)} : Cleared s.entries (place row).original cleared →
      MoveFailed c cleared row.trashPath (place row).original overwrite entries →
      Restore c s row overwrite (.error .failed, ⟨entries, s.rows⟩)
  | done {cleared : Volume (Node β)} : Cleared s.entries (place row).original cleared →
      Restore c s row overwrite (.ok (), ⟨rename (mkdir cleared (place row).original.dropLast)
        row.trashPath (place row).original, s.rows.erase row.id⟩)

section Restoring

variable {deposited : String → Volume (Node β)} {row : TrashItem} (overwrite : Bool) (h : Sound hardRoots s deposited)
  (hrow : row ∈ s.rows.rows) (hkeeps : RestoreKeeps c s row)

include h hrow hkeeps

theorem original_apart : ∀ other ∈ s.rows.rows, Apart (place row).original (place other).heldPath :=
  fun _ hother => h.heldPath_apart ((h.sited row hrow).not_mem_original) hkeeps.alone hother

theorem restore_spec : Restore c s row overwrite (restore hardRoots c s row.id overwrite) := by
  have hstands : pathExists c s.entries row.trashPath = true := by
    rw [pathExists, hkeeps.seen, Bool.not_false, Bool.true_and]
    exact h.isSome hrow trivial
  have hconfigured : rootIsConfigured hardRoots row.storageRoot = true := (h.sited row hrow).configured
  have hdest : resolveOriginal hardRoots row = .ok (place row).original := by
    rw [resolveOriginal, hconfigured]
    rfl
  have hrecorded : c.fails (.deleteRow row.id) = false := decide_eq_false hkeeps.recorded
  have happart := original_apart h hrow hkeeps row hrow
  have hmove : ∀ {cleared : Volume (Node β)}, Cleared s.entries (place row).original cleared →
      Restore c s row overwrite
        (if !(moveRecursive c cleared row.trashPath (place row).original overwrite).1 then
          (.error .failed, { s with entries :=
            (moveRecursive c cleared row.trashPath (place row).original overwrite).2 })
        else deleteRow c { s with entries :=
          (moveRecursive c cleared row.trashPath (place row).original overwrite).2 } row.id) := by
    intro cleared hcleared
    cases hmoved : (moveRecursive c cleared row.trashPath (place row).original overwrite).1 with
    | false => exact .unmoved hcleared (moveRecursive_failed hmoved)
    | true =>
      have hrename : (moveRecursive c cleared row.trashPath (place row).original overwrite).2 =
          rename (mkdir cleared (place row).original.dropLast) row.trashPath (place row).original :=
        moveRecursive_ok happart.symm hmoved
      rw [hrename, deleteRow, hrecorded]
      exact .done hcleared
  unfold restore
  by_cases hread : c.fails .read = true
  · simpa [hread] using .refused _
  · simp only [hread, Bool.false_eq_true, if_false, Table.find_key hrow, hdest, hstands, Bool.not_true]
    by_cases hconflict : (!overwrite && pathExists c s.entries (place row).original) = true
    · simpa only [hconflict, if_true] using .refused _
    · simp only [hconflict, Bool.false_eq_true, if_false]
      by_cases hover : (overwrite && pathExists c s.entries (place row).original) = true
      · simp only [hover, if_true]
        cases hrm : (rm c .removeOccupant s.entries (place row).original).1 with
        | false =>
          rw [(rm_failed hrm).2]
          exact .occupied
        | true =>
          rw [(rm_ok hrm).2]
          exact hmove (.inr rfl)
      · simp only [hover, Bool.false_eq_true, if_false]
        exact hmove (.inl rfl)

/-- The disk as the move back meets it, and as it is when the directories above have been made. -/
theorem sound_cleared {cleared : Volume (Node β)} (hcleared : Cleared s.entries (place row).original cleared) :
    Sound hardRoots ⟨cleared, s.rows⟩ deposited ∧
      Sound hardRoots ⟨mkdir cleared (place row).original.dropLast, s.rows⟩ deposited := by
  have houtside : trashDirName ∉ (place row).original := (h.sited row hrow).not_mem_original
  have hsound : Sound hardRoots ⟨cleared, s.rows⟩ deposited := by
    rcases hcleared with rfl | rfl
    · exact h
    · exact h.remove houtside hkeeps.alone
  exact ⟨hsound, hsound.mkdir (fun q hq => not_isEntry_of_prefix houtside (hq.trans (List.dropLast_prefix _)))
    fun _ => .directory⟩

theorem restore_sound : Sound hardRoots (restore hardRoots c s row.id overwrite).2 deposited := by
  have houtside : trashDirName ∉ (place row).original := (h.sited row hrow).not_mem_original
  generalize houtcome : restore hardRoots c s row.id overwrite = outcome
  have hspec := houtcome ▸ restore_spec overwrite h hrow hkeeps
  cases hspec with
  | refused => exact h
  | occupied => exact h.prune houtside hkeeps.alone _
  | unmoved hcleared hfailed =>
    obtain ⟨hsound, hprepared⟩ := sound_cleared h hrow hkeeps hcleared
    cases hfailed with
    | untouched => exact hsound
    | prepared => exact hprepared
    | partly =>
      exact hprepared.graft houtside hkeeps.alone fun q hq =>
        partOf_of_none (hprepared.accounted.below_slot (Intact.mem_slots hrow) hq)
    | doubled hcrossing hfault => exact absurd hfault (hkeeps.removed hcrossing)
  | done hcleared =>
    obtain ⟨-, hprepared⟩ := sound_cleared h hrow hkeeps hcleared
    exact (sound_retired hprepared hrow).graft houtside
      (fun other hother => hkeeps.alone other (Table.mem_erase.1 hother).1)
      fun q hq => hprepared.accounted.below_slot (Intact.mem_slots hrow) hq

theorem restore_returns : (restore hardRoots c s row.id overwrite).1 = .ok () ∧
      below (restore hardRoots c s row.id overwrite).2.entries (place row).original = deposited row.id ∧
      (restore hardRoots c s row.id overwrite).2.rows = s.rows.erase row.id ∨
    (∃ failure, (restore hardRoots c s row.id overwrite).1 = .error failure) ∧
      (restore hardRoots c s row.id overwrite).2.rows = s.rows := by
  generalize houtcome : restore hardRoots c s row.id overwrite = outcome
  have hspec := houtcome ▸ restore_spec overwrite h hrow hkeeps
  cases hspec with
  | done hcleared =>
    refine .inl ⟨rfl, ?_, rfl⟩
    rw [below_rename_target]
    exact (sound_cleared h hrow hkeeps hcleared).2.held row hrow trivial
  | _ => exact .inr ⟨⟨_, rfl⟩, rfl⟩

end Restoring

/-! ### Runs -/

/-- Where an item was, and what it was, when it was last trashed under an id. -/
abbrev Origins (β : Type*) := String → Path × Volume (Node β)

def deposit (c : Circumstances β) (s : Store β) (origins : Origins β) : Call hardRoots → Origins β
  | .moveToTrash _ abs => Function.update origins c.uuid.val (abs, below s.entries abs)
  | _ => origins

variable (rt : Runtime)

/-- When a call loses nothing, whatever else fails in it. -/
def Keeps (c : Circumstances β) (s : Store β) : Call hardRoots → Prop
  | .moveToTrash _ abs => MoveKeeps c s abs
  | .restore id _ => ∀ row ∈ s.rows.rows, row.id = id → RestoreKeeps c s row
  | .purge id => ∀ row ∈ s.rows.rows, row.id = id → RemovalKeeps c s row
  | .empty => c.fault ≠ some .deleteRows ∧ ∀ row ∈ s.rows.rows, c.fault ≠ some (.removePayload row.id)
  | .pruneExpired retention =>
    ∀ row ∈ s.rows.rows, row.deletedAt ≤ cutoff rt c retention → RemovalKeeps c s row

/-- The rows name all that is in the trash, and every one has its item as it was. -/
structure Kept (hardRoots : List Path) (s : Store β) (origins : Origins β) : Prop where
  sound : Sound hardRoots s fun id => (origins id).2
  home : ∀ row ∈ s.rows.rows, (place row).original = (origins row.id).1

variable {rt} {origins : Origins β}

theorem kept_empty {entries : Volume (Node β)} (hempty : ∀ p, IsEntry trashDirName p → entries p = none) :
    Kept hardRoots ⟨entries, ⟨[], List.nodup_nil⟩⟩ origins where
  sound := ⟨nofun, ⟨nofun, List.nodup_nil, fun p hp hne => absurd (hempty p hp) hne⟩, nofun, nofun⟩
  home := nofun

theorem Kept.moveToTrash (h : Kept hardRoots s origins) (hkeeps : MoveKeeps c s abs) :
    Kept hardRoots (moveToTrash c s boundary.roots abs).2
      (Function.update origins c.uuid.val (abs, below s.entries abs)) := by
  refine ⟨?_, ?_⟩
  · have hsecond : (fun id => (Function.update origins c.uuid.val (abs, below s.entries abs) id).2) =
        Function.update (fun id => (origins id).2) c.uuid.val (below s.entries abs) := by
      funext id
      exact Function.apply_update (fun _ (origin : Path × Volume (Node β)) => origin.2) origins _ _ id
    rw [hsecond]
    exact moveToTrash_sound h.sound hkeeps
  · have hold : ∀ row ∈ s.rows.rows, (place row).original =
        (Function.update origins c.uuid.val (abs, below s.entries abs) row.id).1 := fun row hrow => by
      rw [Function.update_of_ne (hkeeps.fresh row hrow), h.home row hrow]
    generalize houtcome : Trash.moveToTrash c s boundary.roots abs = outcome
    have hspec := houtcome ▸ moveToTrash_spec c s boundary hkeeps.outside
    cases hspec with
    | refused | unmoved | unrecorded => exact hold
    | @done storageRoot rows hadmitted hinsert =>
      rw [Table.rows_of_insert hinsert]
      intro row hrow
      rcases List.mem_append.1 hrow with hrow | hrow
      · exact hold row hrow
      · obtain ⟨rest, hrest⟩ := hadmitted.root_prefix
        rw [List.mem_singleton.1 hrow]
        show storageRoot ++ relativeToRoot storageRoot abs = (Function.update origins c.uuid.val _ c.uuid.val).1
        rw [Function.update_self, relativeToRoot, ← hrest, List.drop_left]

theorem Kept.restore {id : String} {overwrite : Bool} (h : Kept hardRoots s origins)
    (hkeeps : ∀ row ∈ s.rows.rows, row.id = id → RestoreKeeps c s row) :
    Kept hardRoots (restore hardRoots c s id overwrite).2 origins := by
  cases hfind : s.rows.find id with
  | none =>
    have hsame : (Trash.restore hardRoots c s id overwrite).2 = s := by
      unfold Trash.restore
      rw [hfind]
      split_ifs <;> rfl
    rwa [hsame]
  | some row =>
    obtain ⟨hrow, rfl⟩ := Table.find_eq_some.1 hfind
    refine ⟨restore_sound _ h.sound hrow (hkeeps row hrow rfl), fun other hother => h.home other ?_⟩
    rcases restore_returns overwrite h.sound hrow (hkeeps row hrow rfl) with ⟨-, -, hrows⟩ | ⟨-, hrows⟩
    · rw [hrows] at hother
      exact (Table.mem_erase.1 hother).1
    · rwa [hrows] at hother

theorem Kept.purge {id : String} (h : Kept hardRoots s origins)
    (hkeeps : ∀ row ∈ s.rows.rows, row.id = id → RemovalKeeps c s row) :
    Kept hardRoots (purge hardRoots c s id).2 origins := by
  unfold Trash.purge
  split_ifs
  · exact h
  cases hfind : s.rows.find id with
  | none => exact h
  | some row =>
    obtain ⟨hrow, rfl⟩ := Table.find_eq_some.1 hfind
    refine ⟨removeItem_sound h.sound hrow (hkeeps row hrow rfl), fun other hother => h.home other ?_⟩
    rcases removeItem_cases h.sound hrow (hkeeps row hrow rfl) with heq | heq
    · rw [heq] at hother
      exact (Table.mem_erase.1 hother).1
    · rwa [heq] at hother

theorem Kept.empty (h : Kept hardRoots s origins) (hkeeps : c.fault ≠ some .deleteRows ∧
    ∀ row ∈ s.rows.rows, c.fault ≠ some (.removePayload row.id)) :
    Kept hardRoots (empty hardRoots c s).2 origins := by
  unfold Trash.empty
  split_ifs with hread hrows
  · exact h
  · exact absurd (of_decide_eq_true hrows) hkeeps.1
  · exact ⟨emptied_sound _ h.sound (fun row hrow => payloadIsRemovable_of_sound h.sound hrow) hkeeps.2, nofun⟩

theorem Kept.pruneExpired {retention : Option Value} (h : Kept hardRoots s origins)
    (hkeeps : ∀ row ∈ s.rows.rows, row.deletedAt ≤ cutoff rt c retention → RemovalKeeps c s row) :
    Kept hardRoots (pruneExpired rt hardRoots c s retention).2 origins := by
  unfold Trash.pruneExpired
  split_ifs
  · exact h
  have hswept := sweep_sound (c := c) (s.rows.rows.filter fun row => row.deletedAt ≤ cutoff rt c retention)
    h.sound (fun row hrow => (List.mem_filter.1 hrow).1) ((List.Nodup.of_map _ s.rows.nodup).filter _)
    fun row hrow => hkeeps row (List.mem_filter.1 hrow).1 (of_decide_eq_true (List.mem_filter.1 hrow).2)
  exact ⟨hswept.1, fun row hrow => h.home row (hswept.2 row hrow)⟩

theorem Kept.perform {call : Call hardRoots} (h : Kept hardRoots s origins) (hkeeps : Keeps rt c s call) :
    Kept hardRoots (perform rt hardRoots c s call).2 (deposit c s origins call) := by
  cases call with
  | moveToTrash boundary abs => exact h.moveToTrash hkeeps
  | restore id overwrite => exact h.restore hkeeps
  | purge id => exact h.purge hkeeps
  | empty => exact h.empty hkeeps
  | pruneExpired retention => exact h.pruneExpired hkeeps

variable (hardRoots rt) in
/-- Runs from an empty trash, however items are trashed, restored, purged and swept and whatever fails in it, while
every call keeps to its condition. -/
inductive Reached : Store β → Origins β → Prop
  | start {entries : Volume (Node β)} (origins : Origins β) :
      (∀ p, IsEntry trashDirName p → entries p = none) → Reached ⟨entries, ⟨[], List.nodup_nil⟩⟩ origins
  | call {s : Store β} {origins : Origins β} (c : Circumstances β) (call : Call hardRoots) : Reached s origins →
      Keeps rt c s call → Reached (perform rt hardRoots c s call).2 (deposit c s origins call)

theorem kept_of_reached (h : Reached hardRoots rt s origins) : Kept hardRoots s origins := by
  induction h with
  | start origins hempty => exact kept_empty hempty
  | call c call _ hkeeps ih => exact ih.perform hkeeps

def film : Path := ["data", "film.mkv"]

def library : Volume (Node Unit) := fun p => if p = film then some (.file ()) else none

def first : Circumstances Unit := { uuid := ⟨"a1", by decide⟩ }

def dataRoot : Boundary [["data"]] := ⟨[["data"]], by decide⟩

def trashed : Store Unit := (perform .ascii [["data"]] first ⟨library, ⟨[], List.nodup_nil⟩⟩ (.moveToTrash dataRoot film)).2

theorem first_keeps : MoveKeeps first ⟨library, ⟨[], List.nodup_nil⟩⟩ film :=
  ⟨nofun, by decide, nofun, nofun, nofun, nofun⟩

theorem reached_library (origins : Origins Unit) :
    Reached [["data"]] .ascii ⟨library, ⟨[], List.nodup_nil⟩⟩ origins := by
  refine .start origins fun p hp => if_neg ?_
  rintro rfl
  exact absurd hp.mem (by decide)

theorem reached_trashed (origins : Origins Unit) : Reached [["data"]] .ascii trashed
    (Function.update origins "a1" (film, below library film)) :=
  .call first (.moveToTrash dataRoot film) (reached_library origins) first_keeps

end UltraTorrent.Files.TrashRuns
