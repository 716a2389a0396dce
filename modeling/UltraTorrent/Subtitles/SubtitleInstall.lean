import UltraTorrent.Files.PathIdentity
import UltraTorrent.Library.NodePath
import UltraTorrent.Library.Text
import UltraTorrent.Library.Utf8

/-! Installing a subtitle beside its video. A name that is taken is not written over while one of the
numbered names is free; when none is, the file under the first name is lost. -/
namespace UltraTorrent.Subtitles.SubtitleInstall

open Library Library.EcmaScript Library.NodePath Files.PathSafety
open Library.PosixPath (resolve)
open Files.PathIdentity (assertWithinHardRoots_eq_ok)

structure SidecarSpec where
  /-- A language code, or one with a region. -/
  language : String
  forced : Bool
  sdh : Bool
  format : String
  deriving DecidableEq

/-- What the name says after the title. -/
def tags (spec : SidecarSpec) : List String :=
  spec.language :: ((if spec.forced then ["forced"] else []) ++ if spec.sdh then ["sdh"] else [])

/-- The format, of which a dot in front is dropped. -/
def extension (format : String) : String :=
  if format.toList.head? = some '.' then .ofList (format.toList.drop 1) else format

def sidecarPath (videoPath : String) (spec : SidecarSpec) : String :=
  let base := basenameWithout videoPath (extname videoPath)
  join [dirname videoPath, ".".intercalate (base :: tags spec) ++ "." ++ extension spec.format]

example : sidecarPath "/media/Movie (2020).mkv" ⟨"es-PR", true, false, ".srt"⟩ =
    "/media/Movie (2020).es-PR.forced.srt" := by decide +kernel

/-- A numbered name, beside the one it is a variant of. -/
def variantPath (ideal : String) (n : ℕ) : String :=
  let ext := extname ideal
  .ofList (ideal.toList.take (ideal.length - ext.length)) ++ "." ++ toString n ++ ext

inductive Entry where
  | file (bytes : List UInt8)
  | directory
  deriving DecidableEq

abbrev Disk := String → Option Entry

def writeFile (disk : Disk) (path content : String) : Except String Disk :=
  let written := Function.update disk path (some (.file (Utf8.encode content.toList)))
  match disk path with
  | some .directory => .error "EISDIR"
  | some (.file _) => .ok written
  | none => if disk (dirname path) = some .directory then .ok written else .error "ENOENT"

structure InstallResult where
  path : String
  variant : Bool
  deriving DecidableEq

section

variable (rt : Runtime) (cwd : String) (roots : List String)

/-- The first of the numbered names that no file has. -/
def freeVariant (disk : Disk) (ideal : String) : List ℕ → Except String (Option String)
  | [] => .ok none
  | n :: rest => match assertWithinHardRoots rt cwd roots (variantPath ideal n) with
    | .error message => .error message
    | .ok candidate => if disk candidate = none then .ok (some candidate) else freeVariant disk ideal rest

/-- What a call answers, and what it leaves. -/
def install (disk : Disk) (videoPath content : String) (spec : SidecarSpec) :
    Except String InstallResult × Disk :=
  match assertWithinHardRoots rt cwd roots (sidecarPath videoPath spec) with
  | .error message => (.error message, disk)
  | .ok ideal =>
    let found := if disk ideal = none then .ok none else freeVariant rt cwd roots disk ideal (List.range' 1 99)
    match found with
    | .error message => (.error message, disk)
    | .ok found => match writeFile disk (found.getD ideal) content with
      | .error message => (.error message, disk)
      | .ok written => (.ok ⟨found.getD ideal, found.isSome⟩, written)

end

/-- Every file is as it was, and the content is in one that was not there; a call that is refused or
fails leaves nothing. -/
def KeepsBoth (disk : Disk) (content : String) (outcome : Except String InstallResult × Disk) : Prop :=
  (∀ path bytes, disk path = some (.file bytes) → outcome.2 path = some (.file bytes)) ∧
  match outcome.1 with
  | .error _ => outcome.2 = disk
  | .ok result => disk result.path = none ∧
      outcome.2 = Function.update disk result.path (some (.file (Utf8.encode content.toList)))

variable {rt : Runtime} {cwd : String} {roots : List String} {disk written : Disk}
  {ideal path content videoPath : String} {spec : SidecarSpec} {ns : List ℕ} {found : Option String}

/-- What a file is written over. -/
theorem writeFile_eq (h : writeFile disk path content = .ok written) :
    written = Function.update disk path (some (.file (Utf8.encode content.toList))) := by
  unfold writeFile at h
  split at h
  · cases h
  · exact (Except.ok.inj h).symm
  · split_ifs at h
    exact (Except.ok.inj h).symm

theorem freeVariant_eq_none : freeVariant rt cwd roots disk ideal ns = .ok none ↔
    ∀ n ∈ ns, ∃ candidate, assertWithinHardRoots rt cwd roots (variantPath ideal n) = .ok candidate ∧
      disk candidate ≠ none := by
  induction ns with
  | nil => simp [freeVariant]
  | cons n rest ih =>
    rw [List.forall_mem_cons, freeVariant]
    cases hcandidate : assertWithinHardRoots rt cwd roots (variantPath ideal n) with
    | error message => simp
    | ok candidate =>
      dsimp only
      by_cases hfree : disk candidate = none
      · rw [if_pos hfree]
        simp [hfree]
      · rw [if_neg hfree, ih]
        simp [hfree]

theorem freeVariant_eq_some (h : freeVariant rt cwd roots disk ideal ns = .ok (some path)) :
    disk path = none := by
  induction ns with
  | nil => cases h
  | cons n rest ih =>
    rw [freeVariant] at h
    split at h
    · cases h
    · split_ifs at h with hfree
      · cases h
        exact hfree
      · exact ih h

theorem keepsBoth_failed (message : String) : KeepsBoth disk content (.error message, disk) :=
  ⟨fun _ _ h => h, rfl⟩

theorem keepsBoth_written (variant : Bool) (hnone : disk path = none)
    (hwritten : written = Function.update disk path (some (.file (Utf8.encode content.toList)))) :
    KeepsBoth disk content (.ok ⟨path, variant⟩, written) := by
  refine ⟨fun other bytes hbytes => ?_, hnone, hwritten⟩
  have hne : other ≠ path := by
    rintro rfl
    rw [hnone] at hbytes
    cases hbytes
  dsimp only
  rw [hwritten, Function.update_of_ne hne, hbytes]

/-- The names that a call may choose from: where the first one is a file's, one of the numbered ones is
free, or is refused before it is looked at. -/
def HasRoom (rt : Runtime) (cwd : String) (roots : List String) (disk : Disk) (videoPath : String)
    (spec : SidecarSpec) : Prop :=
  ∀ ideal bytes, assertWithinHardRoots rt cwd roots (sidecarPath videoPath spec) = .ok ideal →
    disk ideal = some (.file bytes) → ∃ n ∈ List.range' 1 99, ∀ candidate,
      assertWithinHardRoots rt cwd roots (variantPath ideal n) = .ok candidate → disk candidate = none

theorem room_iff : (∃ n ∈ ns, ∀ candidate,
    assertWithinHardRoots rt cwd roots (variantPath ideal n) = .ok candidate → disk candidate = none) ↔
      freeVariant rt cwd roots disk ideal ns ≠ .ok none := by
  rw [ne_eq, freeVariant_eq_none]
  push Not
  exact Iff.rfl

theorem hasRoom_iff (hideal : assertWithinHardRoots rt cwd roots (sidecarPath videoPath spec) = .ok ideal) :
    HasRoom rt cwd roots disk videoPath spec ↔ ((∃ bytes, disk ideal = some (.file bytes)) →
      freeVariant rt cwd roots disk ideal (List.range' 1 99) ≠ .ok none) := by
  rw [← room_iff, HasRoom]
  constructor
  · rintro h ⟨bytes, hbytes⟩
    exact h ideal bytes hideal hbytes
  · intro h ideal' bytes hok hbytes
    rw [hideal] at hok
    obtain rfl := Except.ok.inj hok
    exact h ⟨bytes, hbytes⟩

/-- A write to a name that was free keeps everything, and so does one that fails. -/
theorem keepsBoth_writeFile (variant : Bool) (hnone : disk path = none) :
    KeepsBoth disk content (match writeFile disk path content with
      | .error message => (.error message, disk)
      | .ok written => (.ok ⟨path, variant⟩, written)) := by
  split
  · exact keepsBoth_failed _
  next hwritten => exact keepsBoth_written variant hnone (writeFile_eq hwritten)

theorem not_keepsBoth_taken {bytes : List UInt8}
    (hideal : assertWithinHardRoots rt cwd roots (sidecarPath videoPath spec) = .ok ideal)
    (hentry : disk ideal = some (.file bytes))
    (hfound : freeVariant rt cwd roots disk ideal (List.range' 1 99) = .ok none) :
    ¬ KeepsBoth disk content (install rt cwd roots disk videoPath content spec) := by
  unfold install
  rw [hideal]
  dsimp only
  rw [if_neg (by simp [hentry]), hfound]
  dsimp only [Option.getD_none]
  rw [writeFile, hentry]
  intro hkeeps
  have hnone : disk ideal = none := hkeeps.2.1
  rw [hentry] at hnone
  cases hnone

/-- Nothing is lost exactly where the names do not run out. -/
theorem install_keepsBoth_iff (rt : Runtime) (cwd : String) (roots : List String) (disk : Disk)
    (videoPath content : String) (spec : SidecarSpec) :
    KeepsBoth disk content (install rt cwd roots disk videoPath content spec) ↔
      HasRoom rt cwd roots disk videoPath spec := by
  cases hideal : assertWithinHardRoots rt cwd roots (sidecarPath videoPath spec) with
  | error message =>
    rw [install, hideal]
    refine iff_of_true (keepsBoth_failed message) fun ideal bytes hok => ?_
    rw [hideal] at hok
    cases hok
  | ok ideal =>
    rw [hasRoom_iff hideal]
    cases hentry : disk ideal with
    | none =>
      rw [install, hideal]
      dsimp only
      rw [if_pos hentry]
      exact iff_of_true (keepsBoth_writeFile false hentry) nofun
    | some entry =>
      have htaken : disk ideal ≠ none := by simp [hentry]
      cases hfound : freeVariant rt cwd roots disk ideal (List.range' 1 99) with
      | error message =>
        rw [install, hideal]
        dsimp only
        rw [if_neg htaken, hfound]
        exact iff_of_true (keepsBoth_failed message) nofun
      | ok found =>
        cases found with
        | some candidate =>
          rw [install, hideal]
          dsimp only
          rw [if_neg htaken, hfound]
          exact iff_of_true (keepsBoth_writeFile true (freeVariant_eq_some hfound)) nofun
        | none =>
          cases entry with
          | file bytes => exact iff_of_false (not_keepsBoth_taken hideal hentry hfound) fun h => h ⟨bytes, rfl⟩ rfl
          | directory =>
            -- a directory is not written over
            rw [install, hideal]
            dsimp only
            rw [if_neg htaken, hfound]
            dsimp only [Option.getD_none]
            rw [writeFile, hentry]
            exact iff_of_true (keepsBoth_failed _) (by rintro ⟨bytes, ⟨⟩⟩)

/-- The names that an installer may choose from. -/
def filmNames : List String := "/a/f.en.srt" :: (List.range' 1 99).map (variantPath "/a/f.en.srt")

/-- A directory in which all of them are taken, by empty files. -/
def filledDisk : Disk := fun path =>
  if path ∈ filmNames then some (.file []) else if path = "/a" then some .directory else none

theorem filledDisk_of_mem (h : path ∈ filmNames) : filledDisk path = some (.file []) := if_pos h

/-- What is below the directory in a numbered name. -/
def variantName (n : ℕ) : List Char := "f.en.".toList ++ (toString n).toList ++ ".srt".toList

theorem variantPath_film (n : ℕ) :
    variantPath "/a/f.en.srt" n = Library.PosixPath.render [['a'], variantName n] := by
  have hext : extname "/a/f.en.srt" = ".srt" := by decide +kernel
  have hfront : ("/a/f.en.srt".toList.take ("/a/f.en.srt".length - ".srt".length)) = "/a/f.en".toList := by
    decide +kernel
  apply String.toList_inj.1
  rw [variantPath, hext, hfront]
  simp [Library.PosixPath.render, variantName]

theorem name_variantName (n : ℕ) : Library.CanonicalPath.Name (variantName n) := by
  have hdigits : '/' ∉ (toString n).toList := Library.Text.notMem_repr (by decide) (by decide) n
  refine ⟨by simp [variantName], ?_, by simp [variantName], by simp [variantName]⟩
  simp only [variantName, List.mem_append, not_or]
  exact ⟨⟨by decide, hdigits⟩, by decide⟩

theorem names_variant (n : ℕ) : ∀ name ∈ [['a'], variantName n], Library.CanonicalPath.Name name := by
  simp only [List.forall_mem_cons, List.not_mem_nil, false_imp_iff, implies_true, and_true]
  exact ⟨⟨by decide, by decide, by decide, by decide⟩, name_variantName n⟩

theorem allowed_variant (n : ℕ) : assertWithinHardRoots Runtime.ascii "/" ["/a"]
    (variantPath "/a/f.en.srt" n) = .ok (variantPath "/a/f.en.srt" n) := by
  have hpath : (variantPath "/a/f.en.srt" n).toList = '/' :: 'a' :: '/' :: variantName n := by
    rw [variantPath_film]
    simp [Library.PosixPath.render]
  have htrim : Runtime.ascii.trim (variantPath "/a/f.en.srt" n) = variantPath "/a/f.en.srt" n := by
    apply String.toList_inj.1
    simp [Runtime.ascii, hpath, variantName]
  have hsafe : variantPath "/a/f.en.srt" n ∉ systemDirs := by
    have hdots : ∀ dir ∈ systemDirs, '.' ∉ dir.toList := by simp [systemDirs]
    intro hsystem
    apply hdots _ hsystem
    rw [hpath]
    simp [variantName]
  have hbelow : isAtOrBelow (variantPath "/a/f.en.srt" n) "/a" = true := by
    simp [isAtOrBelow, Library.PosixPath.startsWith, hpath]
  rw [assertWithinHardRoots_eq_ok, htrim]
  refine ⟨fun hempty => ?_, ?_, hsafe, ?_⟩
  · rw [hempty] at hpath
    simp at hpath
  · rw [variantPath_film]
    exact Library.CanonicalPath.resolve_render "/" (names_variant n)
  · rw [List.any_cons, hbelow, Bool.true_or]

theorem not_keepsBoth_filled : ¬ ∀ (disk : Disk) (videoPath content : String) (spec : SidecarSpec),
    KeepsBoth disk content (install Runtime.ascii "/" ["/a"] disk videoPath content spec) := by
  intro h
  have hideal : assertWithinHardRoots Runtime.ascii "/" ["/a"]
      (sidecarPath "/a/f.mkv" ⟨"en", false, false, "srt"⟩) = .ok "/a/f.en.srt" := by decide +kernel
  have hfound : freeVariant Runtime.ascii "/" ["/a"] filledDisk "/a/f.en.srt" (List.range' 1 99) = .ok none := by
    refine freeVariant_eq_none.2 fun n hn => ⟨_, allowed_variant n, ?_⟩
    rw [filledDisk_of_mem (List.mem_cons_of_mem _ (List.mem_map_of_mem hn))]
    exact Option.some_ne_none _
  have hentry : filledDisk "/a/f.en.srt" = some (.file []) := filledDisk_of_mem List.mem_cons_self
  exact not_keepsBoth_taken hideal hentry hfound (h filledDisk "/a/f.mkv" "a" ⟨"en", false, false, "srt"⟩)

end UltraTorrent.Subtitles.SubtitleInstall
