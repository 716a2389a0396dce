import UltraTorrent.Files.PathSafety
import UltraTorrent.Library.CanonicalPath
import UltraTorrent.Library.WhiteSpace

/-! What a path is after it went through the storage boundary: checked, turned into the form clients
use and back, or recorded with a trashed or quarantined item and read again. -/
namespace UltraTorrent.Files.PathIdentity

open Library.EcmaScript Library.PosixPath Library.CanonicalPath Library.WhiteSpace
open PathSafety

def normalizedRoots (cwd : String) (roots : List String) : List String := roots.map (resolve cwd)

/-- One root makes a relative path unambiguous; with more of them clients use absolute ones. -/
def usesAbsolutePaths (cwd : String) (roots : List String) : Bool :=
  1 < (normalizedRoots cwd roots).length

/-- `path.replace(/^\/+/, '')`. -/
def withoutLeadingSlashes (path : String) : String := .ofList (path.toList.dropWhile (· = '/'))

def contained (cwd : String) (roots : List String) (target : String) : Except String String :=
  if (normalizedRoots cwd roots).any (isAtOrBelow target) then .ok target
  else .error "Path is outside the allowed roots"

/-- A path of a client as an absolute one. -/
def resolveLogical (cwd : String) (roots : List String) (requested : String) : Except String String :=
  if requested.toList.contains '\x00' then .error "Invalid path"
  else
    match normalizedRoots cwd roots with
    | [] => .error "No file-manager roots configured"
    | [root] => contained cwd roots (resolve root (withoutLeadingSlashes requested))
    | _ :: _ :: _ => contained cwd roots (resolve cwd (if requested = "" then "/" else requested))

/-- An absolute path, if a root contains it. -/
def ensureContained (cwd : String) (roots : List String) (absPath : String) : Except String String :=
  if absPath.toList.contains '\x00' then .error "Invalid path"
  else
    let resolved := resolve cwd absPath
    match rootFor cwd (normalizedRoots cwd roots) resolved with
    | none => .error "Path is outside the allowed roots"
    | some _ => .ok resolved

/-- An absolute path in the form clients address it by. -/
def toRelative (cwd : String) (roots : List String) (absPath : String) : Except String String :=
  let resolved := resolve cwd absPath
  match rootFor cwd (normalizedRoots cwd roots) resolved with
  | none => .error "Path is outside the allowed roots"
  | some root =>
    if usesAbsolutePaths cwd roots then .ok resolved else .ok (relativeTo cwd root resolved)

/-- The original location of a held item, from what its row recorded. -/
def rebase (unconfigured cwd : String) (hardRoots : List String) (originalPath storageRoot : String) :
    Except String String :=
  let root := resolve cwd storageRoot
  if !(hardRoots.any fun r => isAtOrBelow root (resolve cwd r)) then .error unconfigured
  else if originalPath.toList.contains '\x00' then .error "Invalid original path"
  else
    let dest := resolve root (withoutLeadingSlashes originalPath)
    if isAtOrBelow dest root then .ok dest
    else .error "Refusing to restore outside the item's own storage root"

def resolveOriginal : String → List String → String → String → Except String String :=
  rebase "The storage root this item was trashed from is no longer configured; restore it by hand."

def resolveQuarantined : String → List String → String → String → Except String String :=
  rebase "The storage root this item came from is no longer configured; restore it by hand."

def recorded (cwd : String) (hardRoots : List String) (path : String) :
    Option (Except String String × String) :=
  (rootFor cwd (normalizedRoots cwd hardRoots) path).map fun root => (relativeToRoot cwd root path, root)

/-! ### The boundary on names -/

variable {names root : List (List Char)}

/-- Inside a root: its names lead to it first. -/
def Within (cwd root path : String) : Prop := segments cwd root <+: segments cwd path

instance (cwd root path : String) : Decidable (Within cwd root path) :=
  inferInstanceAs (Decidable (_ <+: _))

theorem isAtOrBelow_render (hroot : ∀ name ∈ root, Name name) (hnames : ∀ name ∈ names, Name name) :
    isAtOrBelow (render names) (render root) = true ↔ names = root ∨ root ≠ [] ∧ root <+: names := by
  have hname : ∀ {p : List (List Char)}, (∀ name ∈ p, Name name) →
      ∀ n ∈ p.map String.ofList, ResolvedPaths.IsName n := by
    intro p hp n hn
    obtain ⟨name, hmem, rfl⟩ := List.mem_map.1 hn
    exact ⟨by simpa [String.ofList_eq_empty_iff] using (hp name hmem).ne_nil,
      by simpa using (hp name hmem).no_slash⟩
  have htext : ∀ p : List (List Char), ResolvedPaths.text (p.map String.ofList) = render p := by
    intro p
    simp [ResolvedPaths.text, Function.comp_def]
  have hinjective : Function.Injective (List.map String.ofList) :=
    List.map_injective_iff.2 fun _ _ => String.ofList_injective
  have hprefix : root.map String.ofList <+: names.map String.ofList ↔ root <+: names := by
    refine ⟨fun h => ?_, fun h => h.map String.ofList⟩
    obtain ⟨q, hq, heq⟩ := List.prefix_map_iff.1 h
    rwa [hinjective heq]
  rw [← htext names, ← htext root, ResolvedPaths.isAtOrBelow_text (hname hroot) (hname hnames),
    ResolvedPaths.contains]
  simp [hinjective.eq_iff, hprefix]

section Inside

variable {rt : Runtime} {cwd raw requested path : String} {configured : List String}

/-- The slash contains nothing but itself. -/
theorem isAtOrBelow_iff (hpath : Canonical path) :
    isAtOrBelow path (resolve cwd raw) = true ↔
      path = resolve cwd raw ∨ segments cwd raw ≠ [] ∧ Within cwd raw path := by
  have hiff := isAtOrBelow_render (name_segments cwd raw) (name_segments cwd path)
  rw [hpath.render_segments] at hiff
  rw [resolve, hiff, Within]
  refine or_congr ⟨fun h => ?_, fun h => ?_⟩ Iff.rfl
  · rw [← h, hpath.render_segments]
  · rw [h, segments_render cwd (name_segments cwd raw)]

theorem within_of_isAtOrBelow (hpath : Canonical path) (h : isAtOrBelow path (resolve cwd raw) = true) :
    Within cwd raw path := by
  rcases (isAtOrBelow_iff hpath).1 h with rfl | ⟨-, hle⟩
  · rw [Within, resolve, segments_render cwd (name_segments cwd raw)]
  · exact hle

/-! ### What is returned lies inside a root -/

/-- The roots as the service keeps them from its start. -/
def hardRoots (cwd : String) (configured : List String) : List String := configured.map (resolve cwd)

theorem normalizedRoots_hardRoots (cwd : String) (configured : List String) :
    normalizedRoots cwd (hardRoots cwd configured) = hardRoots cwd configured := by
  rw [normalizedRoots, hardRoots, List.map_map]
  exact List.map_congr_left fun root _ => (canonical_resolve cwd root).resolve_eq cwd

/-- Inside one of the configured roots. -/
def Inside (cwd : String) (configured : List String) (path : String) : Prop :=
  ∃ raw ∈ configured, Within cwd raw path

theorem inside_of_any (hpath : Canonical path)
    (h : (hardRoots cwd configured).any (isAtOrBelow path) = true) : Inside cwd configured path := by
  obtain ⟨root, hroot, hbelow⟩ := List.any_eq_true.1 h
  obtain ⟨raw, hraw, rfl⟩ := List.mem_map.1 hroot
  exact ⟨raw, hraw, within_of_isAtOrBelow hpath hbelow⟩

theorem assertWithinHardRoots_eq_ok {roots : List String} :
    assertWithinHardRoots rt cwd roots requested = .ok path ↔
      rt.trim requested ≠ "" ∧ resolve cwd (rt.trim requested) = path ∧ path ∉ systemDirs ∧
        roots.any (isAtOrBelow path) = true := by
  unfold assertWithinHardRoots
  dsimp only
  split_ifs with hempty hsystem hany
  · simp [hempty]
  · refine ⟨(fun h => by cases h), ?_⟩
    rintro ⟨-, rfl, hsafe, -⟩
    exact absurd (by simpa using hsystem) hsafe
  · refine ⟨fun h => ?_, fun h => congrArg _ h.2.1⟩
    cases h
    exact ⟨hempty, rfl, by simpa using hsystem, hany⟩
  · refine ⟨(fun h => by cases h), ?_⟩
    rintro ⟨-, rfl, -, hsome⟩
    exact absurd hsome hany

theorem assertWithinHardRoots_inside
    (h : assertWithinHardRoots rt cwd (hardRoots cwd configured) requested = .ok path) :
    Inside cwd configured path := by
  obtain ⟨-, rfl, -, hany⟩ := assertWithinHardRoots_eq_ok.1 h
  exact inside_of_any (canonical_resolve cwd _) hany

theorem rootFor_eq_some {root : String} (hpath : Canonical path)
    (h : rootFor cwd (hardRoots cwd configured) path = some root) :
    ∃ raw ∈ configured, resolve cwd raw = root ∧ isAtOrBelow path root = true := by
  obtain ⟨raw, hraw, rfl⟩ := List.mem_map.1 (List.mem_of_find?_eq_some h)
  refine ⟨raw, hraw, rfl, ?_⟩
  simpa only [hpath.resolve_eq] using List.find?_some h

theorem rootFor_inside {root : String} (hpath : Canonical path)
    (h : rootFor cwd (hardRoots cwd configured) path = some root) : Inside cwd configured path := by
  obtain ⟨raw, hraw, rfl, hbelow⟩ := rootFor_eq_some hpath h
  exact ⟨raw, hraw, within_of_isAtOrBelow hpath hbelow⟩

theorem ensureContained_inside (h : ensureContained cwd (hardRoots cwd configured) requested = .ok path) :
    Inside cwd configured path := by
  unfold ensureContained at h
  dsimp only at h
  rw [normalizedRoots_hardRoots] at h
  split_ifs at h
  split at h
  · cases h
  · rename_i root hroot
    cases h
    exact rootFor_inside (canonical_resolve cwd requested) hroot

/-- With several roots clients are given paths, and not what is left of them below a root. -/
theorem toRelative_inside (habsolute : usesAbsolutePaths cwd (hardRoots cwd configured) = true)
    (h : toRelative cwd (hardRoots cwd configured) requested = .ok path) :
    Inside cwd configured path := by
  unfold toRelative at h
  dsimp only at h
  rw [normalizedRoots_hardRoots] at h
  split at h
  · cases h
  · rename_i root hroot
    rw [if_pos habsolute] at h
    cases h
    exact rootFor_inside (canonical_resolve cwd requested) hroot

theorem contained_eq_ok {roots : List String} {target : String} :
    contained cwd roots target = .ok path ↔
      target = path ∧ (normalizedRoots cwd roots).any (isAtOrBelow path) = true := by
  unfold contained
  split_ifs with hany
  · exact ⟨fun h => by cases h; exact ⟨rfl, hany⟩, fun h => congrArg _ h.1⟩
  · refine ⟨(fun h => by cases h), ?_⟩
    rintro ⟨rfl, hsome⟩
    exact absurd hsome hany

theorem contained_inside {target : String} (htarget : Canonical target)
    (h : contained cwd (hardRoots cwd configured) target = .ok path) : Inside cwd configured path := by
  obtain ⟨rfl, hany⟩ := contained_eq_ok.1 h
  rw [normalizedRoots_hardRoots] at hany
  exact inside_of_any htarget hany

theorem resolveLogical_inside (h : resolveLogical cwd (hardRoots cwd configured) requested = .ok path) :
    Inside cwd configured path := by
  unfold resolveLogical at h
  by_cases hnul : requested.toList.contains '\x00' = true
  · rw [if_pos hnul] at h
    cases h
  · rw [if_neg hnul] at h
    split at h
    · cases h
    · exact contained_inside (canonical_resolve _ _) h
    · exact contained_inside (canonical_resolve _ _) h

theorem rebase_eq_ok {unconfigured originalPath storageRoot : String} {roots : List String} :
    rebase unconfigured cwd roots originalPath storageRoot = .ok path ↔
      (∃ root ∈ roots, isAtOrBelow (resolve cwd storageRoot) (resolve cwd root) = true) ∧
        '\x00' ∉ originalPath.toList ∧
        resolve (resolve cwd storageRoot) (withoutLeadingSlashes originalPath) = path ∧
        isAtOrBelow path (resolve cwd storageRoot) = true := by
  unfold rebase
  dsimp only
  split_ifs with hroot hnul hdest
  · refine ⟨(fun h => by cases h), fun h => ?_⟩
    rw [List.any_eq_true.2 h.1] at hroot
    exact absurd hroot (by decide)
  · refine ⟨(fun h => by cases h), fun h => ?_⟩
    exact absurd (by simpa using hnul) h.2.1
  · refine ⟨fun h => ?_, fun h => congrArg _ h.2.2.1⟩
    cases h
    rw [Bool.not_eq_true', Bool.not_eq_false] at hroot
    exact ⟨List.any_eq_true.1 hroot, by simpa using hnul, rfl, hdest⟩
  · refine ⟨(fun h => by cases h), ?_⟩
    rintro ⟨-, -, rfl, hbelow⟩
    exact absurd hbelow hdest

theorem rebase_inside {unconfigured originalPath storageRoot : String}
    (h : rebase unconfigured cwd (hardRoots cwd configured) originalPath storageRoot = .ok path) :
    Inside cwd configured path := by
  obtain ⟨⟨root, hroot, hbelow⟩, -, rfl, hdest⟩ := rebase_eq_ok.1 h
  obtain ⟨raw, hraw, rfl⟩ := List.mem_map.1 hroot
  rw [(canonical_resolve cwd raw).resolve_eq] at hbelow
  refine ⟨raw, hraw, ?_⟩
  have hwithin := within_of_isAtOrBelow (canonical_resolve cwd storageRoot) hbelow
  have hwithin' := within_of_isAtOrBelow (canonical_resolve _ _) hdest
  rw [Within, resolve, segments_render cwd (name_segments cwd storageRoot)] at hwithin
  exact hwithin.trans hwithin'

/-! ### A path comes back -/

theorem withoutLeadingSlashes_render (h : ∀ name ∈ names, Name name) :
    withoutLeadingSlashes (render names) = relativePath names := by
  have hrelative := isAbsolute_relativePath h
  rw [isAbsolute, decide_eq_false_iff_not, relativePath, String.toList_ofList] at hrelative
  rw [withoutLeadingSlashes, render, relativePath, String.toList_ofList,
    List.dropWhile_cons_of_pos (by decide)]
  cases htext : ['/'].intercalate names with
  | nil => rfl
  | cons c text =>
    rw [htext, List.head?_cons, Option.some_inj] at hrelative
    rw [List.dropWhile_cons_of_neg (by simpa using hrelative)]

theorem resolve_relativeTo (hpath : Canonical path) (hwithin : Within cwd raw path) :
    resolve (resolve cwd raw) (withoutLeadingSlashes (relativeTo cwd (resolve cwd raw) path)) = path := by
  have hroot := name_segments cwd raw
  obtain ⟨below, hbelow⟩ := hwithin
  have hnames : ∀ name ∈ segments cwd raw ++ below, Name name := hbelow ▸ name_segments cwd path
  have hbelow' : ∀ name ∈ below, Name name := fun name h => hnames name (List.mem_append_right _ h)
  have hrelative : relativeTo cwd (resolve cwd raw) path = render below := by
    rw [relativeTo, resolve, segments_render cwd hroot, ← hbelow, List.drop_left]
  rw [hrelative, withoutLeadingSlashes_render hbelow']
  calc resolve (resolve cwd raw) (relativePath below)
      = render (segments cwd raw ++ below) := by
        rw [resolve, resolve, segments_relativePath hroot hbelow']
    _ = path := by rw [hbelow, hpath.render_segments]

theorem mem_render {c : Char} (hc : c ≠ '/') : c ∈ (render names).toList ↔ ∃ name ∈ names, c ∈ name := by
  by_cases hnil : names = []
  · simp [hnil, render, hc]
  · simp [toList_render hnil, Library.Segments.joined, hc]

theorem no_nul_relativeTo (hpath : Canonical path) (hnul : '\x00' ∉ path.toList) (root : String) :
    '\x00' ∉ (relativeTo cwd root path).toList := by
  intro hmem
  obtain ⟨name, hname, hc⟩ := (mem_render (by decide)).1 hmem
  refine hnul (hpath.render_segments cwd ▸ (mem_render (by decide)).2 ⟨name, ?_, hc⟩)
  exact List.mem_of_mem_drop hname

end Inside

/-- Checked, sent to a client and back, or recorded with a held item and read again, a path is the
same. -/
structure KeepsIdentity (rt : Runtime) (cwd : String) (roots : List String) (path : String) : Prop where
  checked : assertWithinHardRoots rt cwd roots path = .ok path
  contained : ensureContained cwd roots path = .ok path
  sent : (toRelative cwd roots path).bind (resolveLogical cwd roots) = .ok path
  held : ∃ stored root, recorded cwd roots path = some (.ok stored, root) ∧
    resolveOriginal cwd roots stored root = .ok path ∧ resolveQuarantined cwd roots stored root = .ok path

section Identity

variable {rt : Runtime} {cwd raw path : String} {configured : List String}

theorem head_visible (hpath : Canonical path) : ∀ c ∈ path.toList.head?, isWhiteSpace c = false := by
  intro c hc
  rw [hpath.head?, Option.mem_some_iff] at hc
  rw [← hc]
  rfl

theorem ne_empty (hpath : Canonical path) : path ≠ "" := by
  rintro rfl
  exact absurd hpath.head? (by decide)

theorem ensureContained_of_rootFor {root : String} (hpath : Canonical path) (hnul : '\x00' ∉ path.toList)
    (hroot : rootFor cwd (hardRoots cwd configured) path = some root) :
    ensureContained cwd (hardRoots cwd configured) path = .ok path := by
  unfold ensureContained
  dsimp only
  rw [if_neg (by simpa using hnul), normalizedRoots_hardRoots, hpath.resolve_eq, hroot]

theorem any_of_rootFor {root : String} (hpath : Canonical path)
    (hroot : rootFor cwd (hardRoots cwd configured) path = some root) :
    (hardRoots cwd configured).any (isAtOrBelow path) = true := by
  obtain ⟨raw, hraw, rfl, hbelow⟩ := rootFor_eq_some hpath hroot
  exact List.any_eq_true.2 ⟨_, List.mem_map_of_mem hraw, hbelow⟩

theorem resolveLogical_toRelative {root : String} (hpath : Canonical path) (hnul : '\x00' ∉ path.toList)
    (hroot : rootFor cwd (hardRoots cwd configured) path = some root) :
    (toRelative cwd (hardRoots cwd configured) path).bind (resolveLogical cwd (hardRoots cwd configured)) =
      .ok path := by
  have hany := any_of_rootFor hpath hroot
  obtain ⟨raw, hraw, rfl, hbelow⟩ := rootFor_eq_some hpath hroot
  have hcontained : contained cwd (hardRoots cwd configured) path = .ok path :=
    contained_eq_ok.2 ⟨rfl, by rwa [normalizedRoots_hardRoots]⟩
  have hclient : toRelative cwd (hardRoots cwd configured) path =
      if usesAbsolutePaths cwd (hardRoots cwd configured) then .ok path
      else .ok (relativeTo cwd (resolve cwd raw) path) := by
    unfold toRelative
    dsimp only
    rw [normalizedRoots_hardRoots, hpath.resolve_eq, hroot]
  have hmem := List.mem_of_find?_eq_some hroot
  cases hroots : hardRoots cwd configured with
  | nil => exact absurd (hroots ▸ hmem) List.not_mem_nil
  | cons first others =>
    rw [← hroots, hclient, usesAbsolutePaths, normalizedRoots_hardRoots, hroots]
    cases others with
    | nil =>
      -- The one root is the one that contains the path, and the path is sent relative to it.
      rw [hroots, List.mem_singleton] at hmem
      subst hmem
      rw [if_neg (by simp), Except.bind, resolveLogical,
        if_neg (by simpa using no_nul_relativeTo hpath hnul _), ← hroots, normalizedRoots_hardRoots, hroots]
      dsimp only
      rw [resolve_relativeTo hpath (within_of_isAtOrBelow hpath hbelow), ← hroots, hcontained]
    | cons second others =>
      rw [if_pos (by simp), Except.bind, resolveLogical, if_neg (by simpa using hnul), ← hroots,
        normalizedRoots_hardRoots, hroots]
      dsimp only
      rw [if_neg (ne_empty hpath), hpath.resolve_eq, ← hroots, hcontained]

theorem held_of_rootFor {root : String} (hpath : Canonical path) (hnul : '\x00' ∉ path.toList)
    (hroot : rootFor cwd (hardRoots cwd configured) path = some root) (unconfigured : String) :
    recorded cwd (hardRoots cwd configured) path = some (.ok (relativeTo cwd root path), root) ∧
      rebase unconfigured cwd (hardRoots cwd configured) (relativeTo cwd root path) root = .ok path := by
  obtain ⟨raw, hraw, rfl, hbelow⟩ := rootFor_eq_some hpath hroot
  have hrecorded : relativeToRoot cwd (resolve cwd raw) path = .ok (relativeTo cwd (resolve cwd raw) path) := by
    rw [relativeToRoot, hpath.resolve_eq, (canonical_resolve cwd raw).resolve_eq, if_pos hbelow]
  refine ⟨?_, rebase_eq_ok.2 ⟨?_, no_nul_relativeTo hpath hnul _, ?_, ?_⟩⟩
  · rw [recorded, normalizedRoots_hardRoots, hroot, Option.map_some, hrecorded]
  · refine ⟨resolve cwd raw, List.mem_map_of_mem hraw, ?_⟩
    simp [isAtOrBelow]
  · rw [(canonical_resolve cwd raw).resolve_eq]
    exact resolve_relativeTo hpath (within_of_isAtOrBelow hpath hbelow)
  · simpa only [(canonical_resolve cwd raw).resolve_eq] using hbelow

theorem rootFor_of_any (hpath : Canonical path)
    (hany : (hardRoots cwd configured).any (isAtOrBelow path) = true) :
    ∃ root, rootFor cwd (hardRoots cwd configured) path = some root := by
  rw [← Option.isSome_iff_exists, rootFor, hpath.resolve_eq, List.find?_isSome]
  exact List.any_eq_true.1 hany

theorem trim_eq_self (hpath : Canonical path) (hend : ¬EndsInWhiteSpace path.toList) : trim path = path := by
  rw [trim, (trimmed_eq_self (head_visible hpath)).2 hend, String.ofList_toList]

theorem render_eq_slash (hnames : ∀ name ∈ names, Name name) : render names = "/" ↔ names = [] := by
  refine ⟨fun h => ?_, fun h => by rw [h]; rfl⟩
  rw [← segments_render "/" hnames, h]
  rfl

/-- Trimmed, a path is either itself or resolves to a shorter one. -/
theorem resolve_trim (hpath : Canonical path) (hne : trim path ≠ "") :
    resolve cwd (trim path) = path ↔ ¬EndsInWhiteSpace path.toList := by
  have hhead := (head_visible hpath)
  constructor
  · intro hresolve
    have hfront : trimmed path.toList <+: path.toList :=
      trimmed_of_head hhead ▸ List.rdropWhile_prefix isWhiteSpace path.toList
    have habsolute : isAbsolute (trim path) = true := by
      rw [isAbsolute, decide_eq_true_eq, trim, String.toList_ofList, ← hpath.head?]
      cases htrimmed : trimmed path.toList with
      | nil => exact absurd (by rw [trim, htrimmed]) hne
      | cons c text =>
        obtain ⟨rest, hrest⟩ := htrimmed ▸ hfront
        rw [← hrest]
        rfl
    have hlength := length_resolve_le cwd habsolute
    rw [hresolve, trim, String.toList_ofList] at hlength
    exact (trimmed_eq_self hhead).1 (hfront.eq_of_length_le hlength)
  · intro hend
    rw [trim_eq_self hpath hend, hpath.resolve_eq]

end Identity

/-- One of the functions at the boundary returns a path for a string. -/
inductive Returns (rt : Runtime) (cwd : String) (roots : List String) : String → String → Prop
  | checked {requested path : String} (h : assertWithinHardRoots rt cwd roots requested = .ok path) :
    Returns rt cwd roots requested path
  | contained {requested path : String} (h : ensureContained cwd roots requested = .ok path) :
    Returns rt cwd roots requested path
  | resolved {requested path : String} (h : resolveLogical cwd roots requested = .ok path) :
    Returns rt cwd roots requested path
  | addressed {requested path : String} (habsolute : usesAbsolutePaths cwd roots = true)
    (h : toRelative cwd roots requested = .ok path) : Returns rt cwd roots requested path
  | trashed {originalPath path : String} (storageRoot : String)
    (h : resolveOriginal cwd roots originalPath storageRoot = .ok path) :
    Returns rt cwd roots originalPath path
  | quarantined {originalPath path : String} (storageRoot : String)
    (h : resolveQuarantined cwd roots originalPath storageRoot = .ok path) :
    Returns rt cwd roots originalPath path

theorem returns_inside {rt : Runtime} {cwd requested path : String} {configured : List String}
    (h : Returns rt cwd (hardRoots cwd configured) requested path) : Inside cwd configured path := by
  cases h with
  | checked h => exact assertWithinHardRoots_inside h
  | contained h => exact ensureContained_inside h
  | resolved h => exact resolveLogical_inside h
  | addressed habsolute h => exact toRelative_inside habsolute h
  | trashed storageRoot h => exact rebase_inside h
  | quarantined storageRoot h => exact rebase_inside h

/-- A path keeps its identity exactly when trimming leaves it alone and a root other than the slash
contains it; no function returns a path outside the roots. -/
theorem paths_keep_identity (rt : Runtime) (htrim : ∀ text, rt.trim text = trim text) (cwd : String)
    (configured : List String) :
    (∀ path, Canonical path → '\x00' ∉ path.toList → path ∉ systemDirs →
      (KeepsIdentity rt cwd (hardRoots cwd configured) path ↔
        ¬EndsInWhiteSpace path.toList ∧
          ∃ raw ∈ configured, resolve cwd raw ≠ "/" ∧ Within cwd raw path)) ∧
      ∀ requested path, Returns rt cwd (hardRoots cwd configured) requested path →
        Inside cwd configured path := by
  refine ⟨fun path hpath hnul hsafe => ⟨fun h => ?_, ?_⟩, fun requested path h => returns_inside h⟩
  · obtain ⟨hne, hresolve, -, hany⟩ := assertWithinHardRoots_eq_ok.1 h.checked
    rw [htrim] at hne hresolve
    refine ⟨(resolve_trim hpath hne).1 hresolve, ?_⟩
    obtain ⟨root, hroot, hbelow⟩ := List.any_eq_true.1 hany
    obtain ⟨raw, hraw, rfl⟩ := List.mem_map.1 hroot
    refine ⟨raw, hraw, ?_, within_of_isAtOrBelow hpath hbelow⟩
    rcases (isAtOrBelow_iff hpath).1 hbelow with rfl | ⟨hnil, -⟩
    · intro hslash
      exact hsafe (hslash ▸ List.mem_cons_self)
    · exact fun hslash => hnil ((render_eq_slash (name_segments cwd raw)).1 hslash)
  · rintro ⟨hend, raw, hraw, hslash, hwithin⟩
    have hbelow : isAtOrBelow path (resolve cwd raw) = true := (isAtOrBelow_iff hpath).2
      (.inr ⟨fun hnil => hslash ((render_eq_slash (name_segments cwd raw)).2 hnil), hwithin⟩)
    have hany : (hardRoots cwd configured).any (isAtOrBelow path) = true :=
      List.any_eq_true.2 ⟨_, List.mem_map_of_mem hraw, hbelow⟩
    obtain ⟨root, hroot⟩ := rootFor_of_any hpath hany
    obtain ⟨hrecorded, htrash⟩ := held_of_rootFor hpath hnul hroot
      "The storage root this item was trashed from is no longer configured; restore it by hand."
    obtain ⟨-, hquarantine⟩ := held_of_rootFor hpath hnul hroot
      "The storage root this item came from is no longer configured; restore it by hand."
    exact {
      checked := assertWithinHardRoots_eq_ok.2 (by
        rw [htrim, trim_eq_self hpath hend]
        exact ⟨ne_empty hpath, hpath.resolve_eq cwd, hsafe, hany⟩)
      contained := ensureContained_of_rootFor hpath hnul hroot
      sent := resolveLogical_toRelative hpath hnul hroot
      held := ⟨_, root, hrecorded, htrash, hquarantine⟩ }

/-- A host whose strings are trimmed as the language says. -/
def host : Runtime := { Runtime.ascii with trim := trim }

theorem canonical_names (names : List String)
    (h : ∀ n ∈ names, n ≠ "" ∧ '/' ∉ n.toList ∧ n ≠ "." ∧ n ≠ "..") :
    Canonical (render (names.map String.toList)) := by
  refine ⟨_, fun name hname => ?_, rfl⟩
  obtain ⟨n, hn, rfl⟩ := List.mem_map.1 hname
  obtain ⟨hne, hslash, hdot, hdots⟩ := h n hn
  exact ⟨fun h => hne (String.toList_eq_nil_iff.1 h), hslash, fun h => hdot (String.toList_inj.1 h),
    fun h => hdots (String.toList_inj.1 h)⟩

theorem film_keeps_identity :
    KeepsIdentity host "/" (hardRoots "/" ["/data"]) "/data/ a film.mkv" :=
  ((paths_keep_identity host (fun _ => rfl) "/" ["/data"]).1 "/data/ a film.mkv"
    (canonical_names ["data", " a film.mkv"] (by decide)) (by decide) (by decide)).2
    ⟨by decide, "/data", by decide, by decide, by decide⟩

/-- The check of an action's path asks about another file. -/
theorem trailing_space_lost :
    Canonical "/data/film " ∧ '\x00' ∉ "/data/film ".toList ∧ "/data/film " ∉ systemDirs ∧
      Inside "/" ["/data"] "/data/film " ∧
      assertWithinHardRoots host "/" (hardRoots "/" ["/data"]) "/data/film " = .ok "/data/film" := by
  exact ⟨canonical_names ["data", "film "] (by decide), by decide, by decide,
    ⟨"/data", by decide, by decide⟩, by decide⟩

end UltraTorrent.Files.PathIdentity
