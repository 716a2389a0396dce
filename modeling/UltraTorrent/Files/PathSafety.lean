import UltraTorrent.Library.CanonicalPath
import UltraTorrent.Library.EcmaScript
import UltraTorrent.Library.FileTree

/-! The storage boundary: which paths may be acted on at all. The roots are resolved when
the service starts. -/
namespace UltraTorrent.Files.PathSafety

open Library.EcmaScript Library.PosixPath

/-- Never operated on, whatever the roots say. -/
def systemDirs : List String :=
  ["/", "/bin", "/boot", "/dev", "/etc", "/lib", "/lib32", "/lib64", "/proc", "/root", "/run",
    "/sbin", "/srv", "/sys", "/usr", "/var", "/home", "/opt", "/mnt", "/media"]

def isAtOrBelow (path root : String) : Bool := path = root || startsWith path (root ++ "/")

def assertWithinHardRoots (rt : Runtime) (cwd : String) (roots : List String) (requested : String) :
    Except String String :=
  if rt.trim requested = "" then .error "A path is required."
  else
    let abs := resolve cwd (rt.trim requested)
    if systemDirs.contains abs then .error "Path is a protected system directory."
    else if roots.any (isAtOrBelow abs) then .ok abs
    else .error ("Path is outside the allowed storage roots (" ++ ", ".intercalate roots ++ ").")

/-- The configured root that contains a path. -/
def rootFor (cwd : String) (roots : List String) (path : String) : Option String :=
  let resolved := resolve cwd path
  roots.find? (isAtOrBelow resolved)

def assertDeletable (cwd : String) (roots : List String) (path : String) : Except String Unit :=
  let resolved := resolve cwd path
  if resolved = "/" then .error "Refusing to operate on the filesystem root"
  else if roots.contains resolved then .error "Refusing to delete a configured storage root"
  else if systemDirs.contains resolved then .error "Refusing to operate on a system directory"
  else .ok ()

/-- The stored form of a path: relative to one root, always led by a slash. -/
def relativeToRoot (cwd root path : String) : Except String String :=
  if isAtOrBelow (resolve cwd path) (resolve cwd root) then .ok (relativeTo cwd root path)
  else .error "Path is outside the given root"

end UltraTorrent.Files.PathSafety

/-! The storage boundary again, on paths already resolved: the names that lead to them. -/
namespace UltraTorrent.Files.ResolvedPaths

open Library.FileTree Library.PosixPath Library.Segments

/-- The string of a path. -/
def text (p : Path) : String := render (p.map String.toList)

/-- Nothing is below the slash: with a separator added it is two of them. -/
def contains (root p : Path) : Bool := p = root || (root ≠ [] && root.isPrefixOf p)

def rootFor (roots : List Path) (p : Path) : Option Path := roots.find? fun root => contains root p

def rootIsConfigured (hardRoots : List Path) (root : Path) : Bool :=
  hardRoots.any fun r => contains r root

def systemDirs : List Path := PathSafety.systemDirs.map fun d => (segments "/" d).map String.ofList

def assertDeletable (roots : List Path) (p : Path) : Except String Unit :=
  if p = [] then .error "Refusing to operate on the filesystem root"
  else if roots.contains p then .error "Refusing to delete a configured storage root"
  else if systemDirs.contains p then .error "Refusing to operate on a system directory"
  else .ok ()

def isInside (dir : String) (roots : List Path) (p : Path) : Bool :=
  roots.any fun root => (root ++ [dir]).isPrefixOf p

/-- The part of a path below one of its roots. -/
def relativeToRoot (root p : Path) : Path := p.drop root.length

/-! ### As strings -/

/-- A name a directory entry can have. -/
def IsName (name : String) : Prop := name ≠ "" ∧ '/' ∉ name.toList

/-- A slash before every name. -/
def chars (p : Path) : List Char := p.flatMap fun name => '/' :: name.toList

variable {p root : Path}

theorem chars_eq_joined (p : Path) : chars p = joined '/' (p.map String.toList) := by
  rw [chars, joined, List.flatMap_map]

theorem chars_cons (name : String) (p : Path) : chars (name :: p) = '/' :: (name.toList ++ chars p) := by
  simp [chars]

theorem text_toList (h : p ≠ []) : (text p).toList = chars p := by
  rw [text, toList_render (List.map_eq_nil_iff.not.2 h), chars_eq_joined]

/-- The separator of names. -/
def isSlash (c : Char) : Bool := c = '/'

theorem free_of_names (hp : ∀ n ∈ p, IsName n) : ∀ name ∈ p.map String.toList, Free isSlash name := by
  intro name hname
  obtain ⟨n, hn, rfl⟩ := List.mem_map.1 hname
  exact fun c hc => decide_eq_false fun heq => (hp n hn).2 (heq ▸ hc)

/-- A path whose string begins with another's, and goes on with a slash or not at all, begins
with it. -/
theorem prefix_of_chars {rest : List Char} (hroot : ∀ n ∈ root, IsName n) (hp : ∀ n ∈ p, IsName n)
    (hrest : Follows isSlash rest) (h : chars root ++ rest = chars p) : root <+: p := by
  rw [chars_eq_joined, chars_eq_joined] at h
  have hle := prefix_of_joined (show isSlash '/' = true from rfl) (free_of_names hroot) (free_of_names hp) hrest h
  obtain ⟨q, hq, hmap⟩ := List.prefix_map_iff.1 hle
  rwa [List.map_injective_iff.2 (fun _ _ => String.toList_inj.1) hmap]

theorem chars_injective (hroot : ∀ n ∈ root, IsName n) (hp : ∀ n ∈ p, IsName n)
    (h : chars root = chars p) : root = p := by
  have hle : root <+: p := prefix_of_chars hroot hp follows_nil (by rw [List.append_nil, h])
  have hge : p <+: root := prefix_of_chars hp hroot follows_nil (by rw [List.append_nil, h])
  exact hle.eq_of_length (le_antisymm hle.length_le hge.length_le)

theorem chars_append_slash_prefix (hroot : ∀ n ∈ root, IsName n) (hp : ∀ n ∈ p, IsName n) :
    chars root ++ ['/'] <+: chars p ↔ root <+: p ∧ p ≠ root := by
  constructor
  · rintro ⟨more, hmore⟩
    rw [List.append_assoc] at hmore
    have hfollows : Follows isSlash (['/'] ++ more) := fun c hc => by cases hc; rfl
    refine ⟨prefix_of_chars hroot hp hfollows hmore, ?_⟩
    rintro rfl
    simp at hmore
  · rintro ⟨⟨below, rfl⟩, hne⟩
    cases below with
    | nil => exact absurd (List.append_nil root) hne
    | cons n below =>
      refine ⟨n.toList ++ chars below, ?_⟩
      simp [chars]

theorem text_nil_toList : (text []).toList = ['/'] := by
  simp [text, render]

theorem chars_ne_slash (hp : ∀ n ∈ p, IsName n) : chars p ≠ ['/'] := by
  cases p with
  | nil => simp [chars]
  | cons n p =>
    intro h
    rw [chars_cons, List.cons.injEq, List.append_eq_nil_iff, String.toList_eq_nil_iff] at h
    exact (hp n List.mem_cons_self).1 h.2.1

theorem text_inj (hroot : ∀ n ∈ root, IsName n) (hp : ∀ n ∈ p, IsName n) :
    text p = text root ↔ p = root := by
  refine ⟨fun h => ?_, fun h => by rw [h]⟩
  have hlist := congrArg String.toList h
  by_cases hpnil : p = [] <;> by_cases hrootnil : root = []
  · rw [hpnil, hrootnil]
  · rw [hpnil, text_nil_toList, text_toList hrootnil] at hlist
    exact absurd hlist.symm (chars_ne_slash hroot)
  · rw [hrootnil, text_nil_toList, text_toList hpnil] at hlist
    exact absurd hlist (chars_ne_slash hp)
  · rw [text_toList hpnil, text_toList hrootnil] at hlist
    exact chars_injective hp hroot hlist

theorem not_slashes_prefix (hp : ∀ n ∈ p, IsName n) : ¬ ['/', '/'] <+: (text p).toList := by
  cases p with
  | nil => simp [text_nil_toList]
  | cons n p =>
    obtain ⟨hne, hslash⟩ := hp n List.mem_cons_self
    rw [text_toList (List.cons_ne_nil _ _), chars_cons, List.prefix_cons_inj]
    cases hn : n.toList with
    | nil => exact absurd (String.toList_eq_nil_iff.1 hn) hne
    | cons ch rest =>
      intro h
      rw [List.cons_append, List.cons_prefix_cons] at h
      exact hslash (by rw [hn, ← h.1]; exact List.mem_cons_self)

theorem isAtOrBelow_text (hroot : ∀ n ∈ root, IsName n) (hp : ∀ n ∈ p, IsName n) :
    PathSafety.isAtOrBelow (text p) (text root) = contains root p := by
  unfold PathSafety.isAtOrBelow contains startsWith
  rw [Bool.eq_iff_iff]
  simp only [Bool.or_eq_true, decide_eq_true_eq, Bool.and_eq_true, List.isPrefixOf_iff_prefix,
    text_inj hroot hp, String.toList_append, show "/".toList = ['/'] from rfl]
  by_cases hrootnil : root = []
  · subst hrootnil
    have hnot : ¬ (text []).toList ++ ['/'] <+: (text p).toList := by
      rw [text_nil_toList]
      exact not_slashes_prefix hp
    simp [hnot]
  · rw [text_toList hrootnil]
    by_cases hpnil : p = []
    · subst hpnil
      have hlen : ¬ chars root ++ ['/'] <+: (text []).toList := by
        intro h
        rw [text_nil_toList] at h
        have hle := h.length_le
        cases root with
        | nil => exact hrootnil rfl
        | cons n root => simp [chars_cons] at hle
      simp [hlen, hrootnil]
    · rw [text_toList hpnil, chars_append_slash_prefix hroot hp]
      constructor
      · rintro (heq | h)
        · exact .inl heq
        · exact .inr ⟨hrootnil, h.1⟩
      · rintro (heq | h)
        · exact .inl heq
        · by_cases heq : p = root
          · exact .inl heq
          · exact .inr ⟨h.2, heq⟩

end UltraTorrent.Files.ResolvedPaths
