import UltraTorrent.Library.EcmaScript
import UltraTorrent.Library.FileTree
import UltraTorrent.Files.PathSafety
import UltraTorrent.Library.HoldingArea
import UltraTorrent.Library.Table

/-! The file operations a soft deletion is made of, and what they leave when one of them fails. -/
namespace UltraTorrent.Files.FileOps

open Library.EcmaScript Library.FileTree

inductive Node (β : Type*) where
  | file (content : β)
  | directory
  deriving DecidableEq

/-- What `randomUUID` returns is hexadecimal digits and hyphens. -/
def Uuid : Type := { text : String // text.toList.all fun ch => ch.isAlphanum || ch = '-' }

/-- The name an item is held under, which no two items share. -/
def holdingName (uuid base : String) : String := uuid ++ "__" ++ base

/-- The calls of the file system and of the database that a soft deletion makes. -/
inductive Site where
  | read
  | makeHoldingDirectory
  | makeDirectory
  | rename
  | copy
  | removeSource
  | removeOccupant
  | removePayload (id : String)
  | insertRow
  | deleteRow (id : String)
  | deleteRows
  | updateRow (id : String)
  | updateRows
  | evaluate (id : String)
  deriving DecidableEq

/-- What one call of a service is met with. -/
structure Circumstances (β : Type*) where
  /-- The call that fails. -/
  fault : Option Site := none
  /-- Source and target are on different devices. -/
  crossing : Bool := false
  /-- What is there and cannot be read, or is a link that leads nowhere. -/
  unseen : Path → Bool := fun _ => false
  /-- What a copy that fails has put at its target. -/
  leftover : Volume (Node β) := fun _ => none
  /-- What a removal that fails has not got to. -/
  remains : Path → Bool := fun _ => true
  uuid : Uuid := ⟨"", rfl⟩
  now : Instant := 0

variable {β : Type*} (c : Circumstances β)

def Circumstances.fails (site : Site) : Bool := c.fault = some site

def pathExists (entries : Volume (Node β)) (p : Path) : Bool := !c.unseen p && (entries p).isSome

def mkdir (entries : Volume (Node β)) (p : Path) : Volume (Node β) :=
  mkdirs entries p fun _ => .directory

/-- `rm` with all below it; it may stop half-way. -/
def rm (site : Site) (entries : Volume (Node β)) (p : Path) : Bool × Volume (Node β) :=
  if c.fails site then (false, prune entries p c.remains) else (true, remove entries p)

/-- A rename, or across devices a copy and then a removal. -/
def moveRecursive (entries : Volume (Node β)) (source target : Path) (overwrite : Bool) :
    Bool × Volume (Node β) :=
  if c.fails .makeDirectory then (false, entries)
  else
    let entries := mkdir entries target.dropLast
    if c.fails .rename || (entries source).isNone then (false, entries)
    else if !c.crossing then (true, rename entries source target)
    else if !overwrite && (entries target).isSome then (false, entries)
    else if c.fails .copy then (false, graft entries target (partOf (below entries source) c.leftover))
    else rm c .removeSource (graft entries target (below entries source)) source

variable {c} {entries : Volume (Node β)} {source target p : Path} {overwrite : Bool}

theorem rm_ok {site : Site} (h : (rm c site entries p).1 = true) :
    c.fails site = false ∧ (rm c site entries p).2 = remove entries p := by
  unfold rm at h ⊢
  cases hfails : c.fails site with
  | true => simp [hfails] at h
  | false => simp

theorem rm_failed {site : Site} (h : (rm c site entries p).1 = false) :
    c.fails site = true ∧ (rm c site entries p).2 = prune entries p c.remains := by
  unfold rm at h ⊢
  cases hfails : c.fails site with
  | true => simp
  | false => simp [hfails] at h

/-- A move that succeeds is a rename. -/
theorem moveRecursive_ok (hapart : Apart source target)
    (h : (moveRecursive c entries source target overwrite).1 = true) :
    (moveRecursive c entries source target overwrite).2 =
      rename (mkdir entries target.dropLast) source target := by
  unfold moveRecursive at h ⊢
  dsimp only at h ⊢
  split_ifs at h ⊢ with hmkdir hrename hcrossing hoccupied hcopy
  · rfl
  · rw [(rm_ok h).2, remove_graft hapart]
    rfl

/-- What a move that fails leaves, and why it failed. -/
inductive MoveFailed (c : Circumstances β) (entries : Volume (Node β)) (source target : Path)
    (overwrite : Bool) : Volume (Node β) → Prop
  | untouched : c.fault = some .makeDirectory → MoveFailed c entries source target overwrite entries
  | prepared : c.fault = some .rename ∨ mkdir entries target.dropLast source = none ∨
      overwrite = false ∧ mkdir entries target.dropLast target ≠ none →
      MoveFailed c entries source target overwrite (mkdir entries target.dropLast)
  | partly : c.crossing = true → c.fault = some .copy →
      (overwrite = false → mkdir entries target.dropLast target = none) →
      MoveFailed c entries source target overwrite (graft (mkdir entries target.dropLast) target
        (partOf (below (mkdir entries target.dropLast) source) c.leftover))
  | doubled : c.crossing = true → c.fault = some .removeSource →
      (overwrite = false → mkdir entries target.dropLast target = none) →
      MoveFailed c entries source target overwrite
        (prune (graft (mkdir entries target.dropLast) target
          (below (mkdir entries target.dropLast) source)) source c.remains)

theorem moveRecursive_failed (h : (moveRecursive c entries source target overwrite).1 = false) :
    MoveFailed c entries source target overwrite
      (moveRecursive c entries source target overwrite).2 := by
  unfold moveRecursive at h ⊢
  dsimp only at h ⊢
  split_ifs at h ⊢ with hmkdir hrename hcrossing hoccupied hcopy
  · exact .untouched (of_decide_eq_true hmkdir)
  · simp only [Bool.or_eq_true, Option.isNone_iff_eq_none] at hrename
    exact .prepared (hrename.imp of_decide_eq_true .inl)
  · simp only [Bool.and_eq_true, Bool.not_eq_true', Option.isSome_iff_ne_none] at hoccupied
    exact .prepared (.inr (.inr hoccupied))
  all_goals
    have hfree : overwrite = false → mkdir entries target.dropLast target = none := by
      simpa using hoccupied
  · exact .partly (by simpa using hcrossing) (of_decide_eq_true hcopy) hfree
  · obtain ⟨hfails, heq⟩ := rm_failed h
    rw [heq]
    exact .doubled (by simpa using hcrossing) (of_decide_eq_true hfails) hfree

end UltraTorrent.Files.FileOps

/-! What the trash and the quarantine share: rows that say where an item is held and where it
came from, and what a change of the disk or of the rows leaves of that. -/
namespace UltraTorrent.Files.HeldItems

open Library Library.FileTree Library.HoldingArea
open FileOps ResolvedPaths

structure Place where
  id : String
  heldPath : Path
  storageRoot : Path
  /-- Relative to the storage root. -/
  originalPath : Path

/-- The recorded root, and the recorded path below it. -/
def Place.original (place : Place) : Path := place.storageRoot ++ place.originalPath

structure Place.WellSited (dir : String) (hardRoots : List Path) (place : Place) : Prop where
  plain : place.id.toList.all (fun ch => ch.isAlphanum || ch = '-') = true
  configured : rootIsConfigured hardRoots place.storageRoot = true
  root_outside : dir ∉ place.storageRoot
  original_outside : dir ∉ place.originalPath
  original_ne : place.originalPath ≠ []
  heldPath_eq : ∃ base, place.heldPath = slot dir place.storageRoot (holdingName place.id base)

/-- A name that starts with a dot, as no held item's does. -/
def IsReserved (dir : String) : Prop := dir.toList.head? = some '.'

variable {dir : String} {hardRoots : List Path} {place : Place}

theorem takeWhile_holdingName {id : String} (base : String)
    (hplain : id.toList.all (fun ch => ch.isAlphanum || ch = '-') = true) :
    (holdingName id base).toList.takeWhile (· ≠ '_') = id.toList := by
  have hall : ∀ ch ∈ id.toList, (ch ≠ '_' : Bool) = true := by
    intro ch hch
    refine decide_eq_true fun heq => ?_
    subst heq
    exact absurd (List.all_eq_true.1 hplain '_' hch) (by decide)
  have happend : (holdingName id base).toList = id.toList ++ '_' :: '_' :: base.toList := by
    simp [holdingName]
  rw [happend, List.takeWhile_append_of_pos hall]
  simp

theorem holdingName_ne (hdir : IsReserved dir) {id base : String}
    (hplain : id.toList.all (fun ch => ch.isAlphanum || ch = '-') = true) : holdingName id base ≠ dir := by
  rintro rfl
  unfold IsReserved holdingName at hdir
  cases hid : id.toList with
  | nil => simp [hid] at hdir
  | cons ch rest =>
    simp only [String.toList_append, hid, List.cons_append, List.head?_cons, Option.some.injEq] at hdir
    subst hdir
    have hdot := List.all_eq_true.1 hplain '.' (hid ▸ List.mem_cons_self)
    exact absurd hdot (by decide)

namespace Place.WellSited

variable (h : place.WellSited dir hardRoots)

include h

theorem sited (hdir : IsReserved dir) : Sited dir place.heldPath := by
  obtain ⟨base, hbase⟩ := h.heldPath_eq
  exact ⟨_, _, h.root_outside, holdingName_ne hdir h.plain, hbase⟩

theorem not_mem_original : dir ∉ place.original := by
  unfold Place.original
  rw [List.mem_append]
  exact fun hmem => hmem.elim h.root_outside h.original_outside

/-- Two items are held apart unless they are one. -/
theorem heldPath_ne {other : Place} (hother : other.WellSited dir hardRoots)
    (hid : place.id ≠ other.id) : place.heldPath ≠ other.heldPath := by
  obtain ⟨base, hbase⟩ := h.heldPath_eq
  obtain ⟨base', hbase'⟩ := hother.heldPath_eq
  intro heq
  rw [hbase, hbase'] at heq
  have hnames := (List.append_inj' heq rfl).2
  simp only [List.cons.injEq, and_true, true_and] at hnames
  refine hid (String.toList_inj.1 ?_)
  rw [← takeWhile_holdingName base h.plain, hnames, takeWhile_holdingName base' hother.plain]

end Place.WellSited

/-! ### What the rows say and what the disk has -/

/-- Every entry of a holding area has a row, and of the rows those that are `live` have what
was put there. -/
structure Intact {α ν : Type*} (dir : String) (hardRoots : List Path) (place : α → Place)
    (live : α → Prop) (entries : Volume ν) (rows : List α) (deposited : String → Volume ν) : Prop where
  sited : ∀ row ∈ rows, (place row).WellSited dir hardRoots
  accounted : Accounted dir entries (rows.map fun row => (place row).heldPath)
  held : ∀ row ∈ rows, live row → below entries (place row).heldPath = deposited (place row).id
  standing : ∀ row ∈ rows, live row → deposited (place row).id [] ≠ none

namespace Intact

variable {α ν : Type*} {place : α → Place} {live : α → Prop} {entries entries' s : Volume ν}
  {rows rows' : List α} {deposited : String → Volume ν} {row row' : α} {p root : Path}
  (h : Intact dir hardRoots place live entries rows deposited)

theorem mem_slots (hrow : row ∈ rows) :
    (place row).heldPath ∈ rows.map fun row => (place row).heldPath := List.mem_map_of_mem hrow

include h

theorem isSome (hrow : row ∈ rows) (hlive : live row) : (entries (place row).heldPath).isSome := by
  rw [Option.isSome_iff_ne_none]
  have hstanding := h.standing row hrow hlive
  rw [← h.held row hrow hlive, below, List.append_nil] at hstanding
  exact hstanding

theorem eq_of_heldPath (hrow : row ∈ rows) (hrow' : row' ∈ rows)
    (heq : (place row).heldPath = (place row').heldPath) : row = row' :=
  List.inj_on_of_nodup_map h.accounted.nodup hrow hrow' heq

theorem apart (hrow : row ∈ rows) (hrow' : row' ∈ rows) (hne : row ≠ row') :
    Apart (place row).heldPath (place row').heldPath :=
  h.accounted.apart (mem_slots hrow) (mem_slots hrow') fun heq =>
    hne (h.eq_of_heldPath hrow hrow' heq)

theorem heldPath_apart (hp : dir ∉ p) (habove : ∀ row ∈ rows, ¬ p <+: (place row).heldPath)
    (hrow : row ∈ rows) : Apart p (place row).heldPath :=
  (h.accounted.sited _ (mem_slots hrow)).apart_of_not_mem hp (habove row hrow)

/-- A change that leaves what is held alone and puts nothing into a holding area. -/
theorem of_frame (haccounted : Accounted dir entries' (rows.map fun row => (place row).heldPath))
    (hframe : ∀ row ∈ rows, below entries' (place row).heldPath = below entries (place row).heldPath) :
    Intact dir hardRoots place live entries' rows deposited where
  sited := h.sited
  accounted := haccounted
  held row hrow hlive := (hframe row hrow).trans (h.held row hrow hlive)
  standing := h.standing

theorem of_deposited {deposited' : String → Volume ν}
    (heq : ∀ row ∈ rows, deposited' (place row).id = deposited (place row).id) :
    Intact dir hardRoots place live entries rows deposited' where
  sited := h.sited
  accounted := h.accounted
  held row hrow hlive := (h.held row hrow hlive).trans (heq row hrow).symm
  standing row hrow hlive := by
    rw [heq row hrow]
    exact h.standing row hrow hlive

theorem mkdir (hp : ∀ q, q <+: p → ¬ IsEntry dir q) (nodes : Path → ν) :
    Intact dir hardRoots place live (mkdirs entries p nodes) rows deposited :=
  h.of_frame (h.accounted.mkdirs hp nodes) fun _ hrow =>
    below_mkdirs fun hprefix => hp _ hprefix (h.accounted.sited _ (mem_slots hrow)).isEntry

section Ordinary

variable (hp : dir ∉ p) (habove : ∀ row ∈ rows, ¬ p <+: (place row).heldPath)

include hp habove

theorem remove : Intact dir hardRoots place live (remove entries p) rows deposited :=
  h.of_frame (h.accounted.remove p) fun _ hrow => below_remove (h.heldPath_apart hp habove hrow)

theorem prune (remains : Path → Bool) :
    Intact dir hardRoots place live (prune entries p remains) rows deposited :=
  h.of_frame (h.accounted.prune p remains) fun _ hrow =>
    below_prune (h.heldPath_apart hp habove hrow)

theorem graft (hs : ∀ q, IsEntry dir q → s q = none) :
    Intact dir hardRoots place live (graft entries p s) rows deposited :=
  h.of_frame (h.accounted.graft_out hp hs) fun _ hrow =>
    below_graft (h.heldPath_apart hp habove hrow)

end Ordinary

theorem retire (hrow : row ∈ rows)
    (hsub : (rows'.map fun row => (place row).heldPath).Sublist (rows.map fun row => (place row).heldPath))
    (hkept : ∀ r ∈ rows', ∃ old ∈ rows, place r = place old ∧ (live r → live old ∧ old ≠ row))
    (hgone : ∀ old ∈ rows, old ≠ row → (place old).heldPath ∈ rows'.map fun row => (place row).heldPath) :
    Intact dir hardRoots place live (FileTree.remove entries (place row).heldPath) rows' deposited where
  sited r hr := by
    obtain ⟨old, hold, hplace, -⟩ := hkept r hr
    rw [hplace]
    exact h.sited old hold
  accounted := by
    refine (h.accounted.remove (place row).heldPath).release hsub fun q hq hq' => ?_
    obtain ⟨old, hold, rfl⟩ := List.mem_map.1 hq
    by_cases heq : old = row
    · rw [heq]
      exact if_pos (List.prefix_refl _)
    · exact absurd (hgone old hold heq) hq'
  held r hr hlive := by
    obtain ⟨old, hold, hplace, himp⟩ := hkept r hr
    obtain ⟨hliveOld, hne⟩ := himp hlive
    rw [hplace, below_remove (h.apart hrow hold hne.symm)]
    exact h.held old hold hliveOld
  standing r hr hlive := by
    obtain ⟨old, hold, hplace, himp⟩ := hkept r hr
    rw [hplace]
    exact h.standing old hold (himp hlive).1

theorem enter (hdir : IsReserved dir) (hsited : (place row).WellSited dir hardRoots)
    (hnew : ∀ old ∈ rows, (place old).id ≠ (place row).id) (hs : ∀ q, IsEntry dir q → s q = none)
    (hsome : s [] ≠ none) :
    Intact dir hardRoots place live (FileTree.graft entries (place row).heldPath s) (rows ++ [row])
      (Function.update deposited (place row).id s) := by
  have hne : ∀ old ∈ rows, (place old).heldPath ≠ (place row).heldPath := fun old hold =>
    (h.sited old hold).heldPath_ne hsited (hnew old hold)
  have hslots : ((rows ++ [row]).map fun row => (place row).heldPath) =
      (rows.map fun row => (place row).heldPath) ++ [(place row).heldPath] := by
    rw [List.map_append, List.map_singleton]
  refine ⟨?_, ?_, ?_, ?_⟩
  · intro r hr
    rcases List.mem_append.1 hr with hold | hlast
    · exact h.sited r hold
    · rwa [List.mem_singleton.1 hlast]
  · rw [hslots]
    refine (h.accounted.reserve (hsited.sited hdir) ?_).graft_in (by simp) hs
    intro hmem
    obtain ⟨old, hold, heq⟩ := List.mem_map.1 hmem
    exact hne old hold heq
  · intro r hr hlive
    rcases List.mem_append.1 hr with hold | hlast
    · have happart : Apart (place row).heldPath (place r).heldPath :=
        (hsited.sited hdir).apart ((h.sited r hold).sited hdir) (hne r hold).symm
      rw [below_graft happart, Function.update_of_ne (hnew r hold)]
      exact h.held r hold hlive
    · rw [List.mem_singleton.1 hlast, below_graft_self, Function.update_self]
  · intro r hr hlive
    rcases List.mem_append.1 hr with hold | hlast
    · rw [Function.update_of_ne (hnew r hold)]
      exact h.standing r hold hlive
    · rw [List.mem_singleton.1 hlast, Function.update_self]
      exact hsome

end Intact

end UltraTorrent.Files.HeldItems
