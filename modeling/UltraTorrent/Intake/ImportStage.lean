import UltraTorrent.Library.EcmaScript
import UltraTorrent.Library.FileTree
import UltraTorrent.Library.CanonicalPath
import UltraTorrent.Library.Text
import UltraTorrent.Library.Interleaving

/-! How one file is put into a library: the strategy that is chosen, and the name that whatever
stands in the way is moved to. -/
namespace UltraTorrent.Intake.Placement

open Library Library.EcmaScript Library.FileTree

/-! ### Files -/

@[ext] structure FileId where
  device : ℕ
  inode : ℕ
  deriving DecidableEq

/-- A path reaches its entry through directories, not through links to directories. -/
inductive Entry where
  | file (id : FileId)
  | directory (id : FileId)
  | symlink (target : Path)
  deriving DecidableEq

structure Disk (β : Type*) where
  entries : Volume Entry
  /-- `none` for a file that is not there. -/
  contents : FileId → Option β

/-- Links are followed up to a limit. -/
def follow (entries : Volume Entry) : ℕ → Path → Option FileId
  | 0, _ => none
  | n + 1, p =>
    match entries p with
    | none => none
    | some (.file id) | some (.directory id) => some id
    | some (.symlink target) => follow entries n target

/-- The paths that are looked at on the way. -/
def chain (entries : Volume Entry) : ℕ → Path → List Path
  | 0, _ => []
  | n + 1, p => p :: match entries p with
    | some (.symlink target) => chain entries n target
    | _ => []

def symlinkLimit : ℕ := 40

def stat (entries : Volume Entry) (p : Path) : Option FileId := follow entries symlinkLimit p

def statChain (entries : Volume Entry) (p : Path) : List Path := chain entries symlinkLimit p

theorem follow_congr {entries entries' : Volume Entry} {n : ℕ} {p : Path}
    (h : ∀ q ∈ chain entries n p, entries' q = entries q) :
    follow entries' n p = follow entries n p ∧ chain entries' n p = chain entries n p := by
  induction n generalizing p with
  | zero => exact ⟨rfl, rfl⟩
  | succ n ih =>
    have hp : entries' p = entries p := h p List.mem_cons_self
    rw [follow, follow, chain, chain, hp]
    cases hentry : entries p with
    | none => exact ⟨rfl, rfl⟩
    | some entry =>
      cases entry with
      | file id | directory id => exact ⟨rfl, rfl⟩
      | symlink target =>
        have htarget := ih (p := target) fun q hq => h q (by
          rw [chain, hentry]
          exact List.mem_cons_of_mem _ hq)
        exact ⟨htarget.1, congrArg (p :: ·) htarget.2⟩

/-- Nothing that is looked at on the way to a file is missing. -/
theorem isSome_of_mem_chain {entries : Volume Entry} {n : ℕ} {p q : Path} {id : FileId}
    (h : follow entries n p = some id) (hq : q ∈ chain entries n p) : (entries q).isSome = true := by
  induction n generalizing p with
  | zero => cases h
  | succ n ih =>
    rw [follow] at h
    rw [chain] at hq
    cases hentry : entries p with
    | none =>
      rw [hentry] at h
      cases h
    | some entry =>
      rw [hentry] at h hq
      rcases List.mem_cons.1 hq with rfl | hq
      · rw [hentry]
        rfl
      · cases entry with
        | file id | directory id => cases hq
        | symlink target => exact ih h hq

theorem follow_of_mem_chain {entries : Volume Entry} {n : ℕ} {p q : Path} {id : FileId}
    (hq : q ∈ chain entries n p) (hfile : entries q = some (.file id)) :
    follow entries n p = some id := by
  induction n generalizing p with
  | zero => cases hq
  | succ n ih =>
    rw [chain] at hq
    rw [follow]
    rcases List.mem_cons.1 hq with rfl | hq
    · rw [hfile]
    · cases hentry : entries p with
      | none =>
        rw [hentry] at hq
        cases hq
      | some entry =>
        rw [hentry] at hq
        cases entry with
        | file id' | directory id' => cases hq
        | symlink target => exact ih hq

theorem stat_file {entries : Volume Entry} {p : Path} {id : FileId} (h : entries p = some (.file id)) :
    stat entries p = some id := by
  rw [stat, symlinkLimit, follow, h]

theorem self_mem_statChain (entries : Volume Entry) (p : Path) : p ∈ statChain entries p :=
  List.mem_cons_self

/-! ### The strategy -/

inductive ImportStrategy where
  | auto
  | hardlink
  | reflink
  | providerRelocation
  | copy
  | move
  deriving DecidableEq

def seedingSafeStrategies : List ImportStrategy := [.hardlink, .reflink, .providerRelocation, .copy]

structure StorageCapabilities where
  sameDevice : Bool := false
  hardlink : Bool := false
  reflink : Bool := false
  providerRelocation : Bool := false

/-- Why a strategy can be chosen, `none` when the storage rules it out. -/
def availability (caps : StorageCapabilities) : ImportStrategy → Option String
  | .hardlink =>
    if caps.hardlink && caps.sameDevice then some "same device, hardlinks supported" else none
  | .reflink => if caps.reflink && caps.sameDevice then some "copy-on-write filesystem" else none
  | .providerRelocation =>
    if caps.providerRelocation then some "the download client can relocate its own data" else none
  | .copy => some "no link or relocation available"
  | .auto | .move => none

/-- An override is honoured, an inferred strategy is the first that is available. -/
def selectStrategy (caps : StorageCapabilities) (override : Option ImportStrategy)
    (requireSeeding : Bool) : ImportStrategy × String :=
  match override.filter (· ≠ .auto) with
  | some strategy => (strategy, "administrator override")
  | none =>
    (([.hardlink, .reflink, .providerRelocation, .copy].filter fun candidate =>
        !requireSeeding || seedingSafeStrategies.contains candidate).findSome? fun candidate =>
      (availability caps candidate).map fun reason => (candidate, reason)).getD (.copy, "fallback")

/-- A move is never inferred. -/
theorem selectStrategy_ne_move (caps : StorageCapabilities) {override : Option ImportStrategy}
    (requireSeeding : Bool) (h : override ≠ some .move) :
    (selectStrategy caps override requireSeeding).1 ≠ .move := by
  unfold selectStrategy
  cases hoverride : override.filter (· ≠ .auto) with
  | some strategy =>
    rintro rfl
    exact h (Option.filter_eq_some_iff.1 hoverride).1
  | none =>
    cases hfound : ([.hardlink, .reflink, .providerRelocation, .copy].filter fun candidate =>
        !requireSeeding || seedingSafeStrategies.contains candidate).findSome? fun candidate =>
      (availability caps candidate).map fun reason => (candidate, reason) with
    | none => decide
    | some chosen =>
      obtain ⟨candidate, -, hcandidate⟩ := List.exists_of_findSome?_eq_some hfound
      obtain ⟨reason, havailable, rfl⟩ := Option.map_eq_some_iff.1 hcandidate
      rintro rfl
      cases havailable

/-! ### Setting aside -/

def videoExt : List String :=
  [".mkv", ".mp4", ".avi", ".m4v", ".ts", ".m2ts", ".wmv", ".mov", ".webm"]

def pathText (p : Path) : String := "/" ++ "/".intercalate p

def basename (p : Path) : String := p.getLastD ""

/-- Everything named after a video moves with it; anything else moves alone. -/
def familyOf (rt : Runtime) (destination : Path) (entries : List String) : List String :=
  let base := basename destination
  let named := Text.stem base
  if videoExt.contains (rt.toLowerCase (Text.extension (pathText destination))) then
    entries.filter fun e =>
      e = base || PosixPath.startsWith e (named ++ ".") || PosixPath.startsWith e (named ++ "-")
  else entries.filter (· = base)

def dupName (destination : Path) (n : ℕ) (e : String) : String :=
  let named := Text.stem (basename destination)
  Text.replace e named (named ++ " [dup" ++ toString n ++ "]")

/-- The lowest number whose names are free for the whole family. -/
def dupNumber (destination : Path) (taken : String → Bool) (family : List String) : ℕ :=
  ((List.range' 2 998).find? fun n => !family.any fun e => taken (dupName destination n e)).getD 1000

/-- The renames of a directory's entries that free a destination. -/
def setAside (rt : Runtime) (destination : Path) (entries : List String) (taken : String → Bool) :
    List (String × String) :=
  let family := familyOf rt destination entries
  family.map fun e => (e, dupName destination (dupNumber destination taken family) e)

/-- The name the destination's own file gets, for the report. -/
def movedTo (destination : Path) (renames : List (String × String)) : String :=
  (renames.lookup (basename destination)).getD (basename destination)

end UltraTorrent.Intake.Placement

/-! The stage that places the files of an intake, one system call at a time. Every attempt goes
through the plan's targets in order and may end anywhere; the next one starts over. -/
namespace UltraTorrent.Intake.ImportStage

open Library Library.EcmaScript Library.FileTree Library.Interleaving Placement

structure Target where
  source : Path
  destination : Path
  deriving DecidableEq

structure ImportJob where
  strategy : Option ImportStrategy
  torrentHash : Option String
  engineId : Option String

/-- What does not change under an import: the host's strings, and the device a path is on. -/
structure Host where
  rt : Runtime
  device : Path → ℕ

/-- What an attempt reports. -/
structure Tally where
  placed : List Path := []
  skipped : List Path := []
  renamed : List (String × String) := []
  fellBack : Bool := false

structure Attempt where
  caps : StorageCapabilities
  done : List Target
  tally : Tally

/-- What is on record of the way a target was dealt with. -/
inductive Happening where
  /-- With the places of this job's own that were set aside along with it. -/
  | setAside (source target : Path) (own : List Path)
  | present (destination : Path) (existing source : FileId)
  deriving DecidableEq

structure Storage (β : Type*) where
  disk : Disk β
  /-- Where this job has put a file, whole or in part. -/
  placed : List Path
  /-- Where that file is a copy. -/
  copied : List Path
  log : List Happening

inductive Phase where
  | idle
  | quarantined (reason : String)
  | looking (a : Attempt) (todo : List Target)
  | comparing (a : Attempt) (t : Target) (rest : List Target) (existing : FileId)
      (source : Option FileId)
  | sweeping (a : Attempt) (t : Target) (rest : List Target) (renames : List (String × String))
  | preparing (a : Attempt) (t : Target) (rest : List Target)
  | relocating (a : Attempt) (t : Target) (rest : List Target)
  | placing (a : Attempt) (t : Target) (rest : List Target) (strategy : ImportStrategy)
      (fellBack : Bool)
  | copying (a : Attempt) (t : Target) (rest : List Target) (id : FileId) (fellBack : Bool)
  | closing (tally : Tally)
  | imported (tally : Tally) (message : String)

/-- `cp --reflink=always`. A clone that is refused may leave an empty file behind. -/
inductive Cloning where
  | cloned
  | refused (leavesFile : Bool)

/-- What a system call, or the process, is met with. -/
structure Answer (β : Type*) where
  /-- The call fails, or the process dies. -/
  dies : Bool := false
  caps : StorageCapabilities := {}
  /-- Files that are there and cannot be read just now. -/
  unreadable : Path → Bool := fun _ => false
  listing : List String := []
  directory : Path → FileId := fun _ => ⟨0, 0⟩
  /-- The download client moves its own data. -/
  relocates : Bool := false
  relocated : Volume Entry := fun _ => none
  inode : ℕ := 0
  cloning : Cloning := .cloned
  written : β
  /-- A copy that fails is removed again. -/
  unlinks : Bool := false

def Answer.stat {β : Type*} (answer : Answer β) (entries : Volume Entry) (p : Path) : Option FileId :=
  if answer.unreadable p then none else Placement.stat entries p

def message (tally : Tally) : String :=
  "Placed " ++ toString ((tally.placed.length : ℤ) - tally.skipped.length) ++ " file(s)"
    ++ (if tally.skipped = [] then "" else ", " ++ toString tally.skipped.length ++ " already present")
    ++ (if tally.renamed = [] then "" else "; moved aside: " ++
      ", ".intercalate (tally.renamed.map fun r => r.1 ++ " → " ++ r.2))
    ++ (if tally.fellBack then " (a strategy fell back)" else "")

def nothingToPlace : String := "The rename engine produced nothing to place"

variable {β : Type*}

def next (a : Attempt) (t : Target) (rest : List Target) (fellBack : Bool) : Phase :=
  .looking { a with
    done := a.done ++ [t]
    tally := { a.tally with
      placed := a.tally.placed ++ [t.destination]
      fellBack := a.tally.fellBack || fellBack } } rest

def skip (a : Attempt) (t : Target) (rest : List Target) : Phase :=
  .looking { a with
    done := a.done ++ [t]
    tally := { a.tally with
      placed := a.tally.placed ++ [t.destination]
      skipped := a.tally.skipped ++ [t.destination] } } rest

/-- A file of this job's is put where nothing stands. -/
def Storage.create (s : Storage β) (p : Path) (id : FileId) (content : Option β) (isCopy : Bool) :
    Storage β where
  disk :=
    { entries := put s.disk.entries p (.file id)
      contents := match content with
        | none => s.disk.contents
        | some bytes => Function.update s.disk.contents id (some bytes) }
  placed := p :: s.placed
  copied := if isCopy then p :: s.copied else s.copied
  log := s.log

/-- The part of a copy that was written is removed. -/
def Storage.discard (s : Storage β) (p : Path) (id : FileId) : Storage β where
  disk := { entries := unlink s.disk.entries p, contents := Function.update s.disk.contents id none }
  placed := s.placed.filter (· ≠ p)
  copied := s.copied.filter (· ≠ p)
  log := s.log

/-- `copyFile`, exclusively: the file is created, and then written. -/
def beginCopy (s : Storage β) (a : Attempt) (t : Target) (rest : List Target) (id : FileId)
    (written : β) (fellBack : Bool) : Option (Storage β × Phase) :=
  if (s.disk.contents id).isSome then none
  else match (Placement.stat s.disk.entries t.source).bind s.disk.contents with
    | none => some (s, .idle)
    | some _ => some (s.create t.destination id (some written) true, .copying a t rest id fellBack)

/-- `placeFile`, once the directory is there. A new file gets a number that is not in use. -/
def place (host : Host) (s : Storage β) (a : Attempt) (t : Target) (rest : List Target)
    (strategy : ImportStrategy) (fellBack : Bool) (answer : Answer β) : Option (Storage β × Phase) :=
  let id : FileId := ⟨host.device t.destination, answer.inode⟩
  if (s.disk.entries t.destination).isSome then some (s, .idle)
  else match strategy with
    | .move =>
      some ({ s with
        disk := { s.disk with entries := rename s.disk.entries t.source t.destination }
        placed := t.destination :: s.placed }, next a t rest fellBack)
    | .copy => beginCopy s a t rest id answer.written fellBack
    | .hardlink =>
      match s.disk.entries t.source with
      | some (.file source) =>
        if source.device = host.device t.destination then
          some (s.create t.destination source none false, next a t rest fellBack)
        else beginCopy s a t rest id answer.written true
      | _ => some (s, .idle)
    | .reflink =>
      match answer.cloning with
      | .refused false => beginCopy s a t rest id answer.written true
      | .refused true =>
        if (s.disk.contents id).isSome then none
        else some (s.create t.destination id (some answer.written) true, .idle)
      | .cloned =>
        if (s.disk.contents id).isSome then none
        else match (Placement.stat s.disk.entries t.source).bind s.disk.contents with
          | none => some (s, .idle)
          | some bytes => some (s.create t.destination id (some bytes) true, next a t rest fellBack)
    | .auto | .providerRelocation => some (s, .idle)

/-- Only a torrent its engine still knows can be relocated, and only by a client that moves the
data. -/
def prepared (job : ImportJob) (a : Attempt) (t : Target) (rest : List Target) (relocates : Bool) :
    Phase :=
  match (selectStrategy a.caps job.strategy true).1 with
  | .providerRelocation =>
    if job.torrentHash.all (· = "") || job.engineId.all (· = "") || !relocates then
      .placing a t rest .copy true
    else .relocating a t rest
  | strategy => .placing a t rest strategy false

/-- A file that cannot be read counts as not being there. -/
def compare (host : Host) (s : Storage β) (a : Attempt) (t : Target) (rest : List Target)
    (existing : FileId) (source : Option FileId) (answer : Answer β) : Storage β × Phase :=
  let aside : Storage β × Phase :=
    let directory := t.destination.dropLast
    let renames := setAside host.rt t.destination answer.listing fun name =>
      (answer.stat s.disk.entries (directory ++ [name])).isSome
    (s, .sweeping { a with
      tally := { a.tally with
        renamed := a.tally.renamed ++
          [(basename t.destination, movedTo t.destination renames)] } } t rest renames)
  match source with
  | none => aside
  | some id =>
    if id.inode = existing.inode then
      ({ s with log := s.log ++ [.present t.destination existing id] }, skip a t rest)
    else aside

/-- One entry of a directory is renamed. -/
def sweep (s : Storage β) (a : Attempt) (t : Target) (rest : List Target) (name newName : String)
    (renames : List (String × String)) : Storage β × Phase :=
  let source := t.destination.dropLast ++ [name]
  let target := t.destination.dropLast ++ [newName]
  if (s.disk.entries source).isSome then
    ({ s with
      disk := { s.disk with entries := rename s.disk.entries source target }
      log := s.log ++ [.setAside source target (s.placed.filter (source <+: ·))] },
      .sweeping a t rest renames)
  else (s, .idle)

/-- An attempt that ends here. -/
def fail (s : Storage β) (answer : Answer β) : Phase → Option (Storage β × Phase)
  | .copying _ t _ id _ => some (if answer.unlinks then s.discard t.destination id else s, .idle)
  | .idle | .quarantined _ | .imported _ _ => none
  | _ => some (s, .idle)

def act (host : Host) (plan : List Target) (job : ImportJob) (s : Storage β) (phase : Phase)
    (answer : Answer β) : Option (Storage β × Phase) :=
  if answer.dies then fail s answer phase
  else match phase with
    | .idle =>
      if plan = [] then some (s, .quarantined nothingToPlace)
      else some (s, .looking { caps := answer.caps, done := [], tally := {} } plan)
    | .quarantined _ | .imported _ _ => none
    | .looking a [] => some (s, .closing a.tally)
    | .looking a (t :: rest) =>
      match answer.stat s.disk.entries t.destination with
      | none => some (s, .preparing a t rest)
      | some existing =>
        some (s, .comparing a t rest existing (answer.stat s.disk.entries t.source))
    | .comparing a t rest existing source => some (compare host s a t rest existing source answer)
    | .sweeping a t rest [] => some (s, .preparing a t rest)
    | .sweeping a t rest ((name, newName) :: renames) => some (sweep s a t rest name newName renames)
    | .preparing a t rest =>
      let entries := mkdirs s.disk.entries t.destination.dropLast fun p => .directory (answer.directory p)
      some ({ s with disk := { s.disk with entries := entries } }, prepared job a t rest answer.relocates)
    | .relocating a t rest =>
      some ({ s with disk := { s.disk with entries := answer.relocated } }, next a t rest false)
    | .placing a t rest strategy fellBack => place host s a t rest strategy fellBack answer
    | .copying a t rest id fellBack =>
      match (Placement.stat s.disk.entries t.source).bind s.disk.contents with
      | none => some (s, .idle)
      | some bytes =>
        some ({ s with disk :=
          { s.disk with contents := Function.update s.disk.contents id (some bytes) } },
          next a t rest fellBack)
    | .closing tally => some (s, .imported tally (message tally))

end UltraTorrent.Intake.ImportStage
