import UltraTorrent.Library.Segments

/-! The part of Node's POSIX path module the services use. A path is a string; its
segments are what stands between slashes once dots are resolved. -/
namespace UltraTorrent.Library.PosixPath

/-- One segment resolved against those before it, which are kept innermost first. -/
def resolveSegment (above : List (List Char)) (segment : List Char) : List (List Char) :=
  if segment = [] ∨ segment = ['.'] then above
  else if segment = ['.', '.'] then above.tail
  else segment :: above

def normalize (path : List Char) : List (List Char) :=
  ((path.splitOn '/').foldl resolveSegment []).reverse

def isAbsolute (path : String) : Bool := path.toList.head? = some '/'

/-- The segments of `path.resolve(path)`, from the root. -/
def segments (cwd path : String) : List (List Char) :=
  if isAbsolute path then normalize path.toList else normalize (cwd.toList ++ '/' :: path.toList)

def render (segments : List (List Char)) : String :=
  .ofList ('/' :: ['/'].intercalate segments)

/-- `path.resolve(path)`. -/
def resolve (cwd path : String) : String := render (segments cwd path)

/-- `text.startsWith(start)`. -/
def startsWith (text start : String) : Bool := start.toList.isPrefixOf text.toList

def endsWith (text stop : String) : Bool := stop.toList.isSuffixOf text.toList

/-- The `/`-led path that leads from a resolved base to a resolved path below it. -/
def relativeTo (cwd base path : String) : String :=
  render ((segments cwd path).drop (segments cwd base).length)

def commonPrefix : List (List Char) → List (List Char) → ℕ
  | a :: as, b :: bs => if a = b then commonPrefix as bs + 1 else 0
  | _, _ => 0

/-- `path.relative(base, path)`: up to the last common directory, then down. -/
def relative (cwd base path : String) : String :=
  let p := segments cwd base
  let c := segments cwd path
  let common := commonPrefix p c
  .ofList (['/'].intercalate (List.replicate (p.length - common) ['.', '.'] ++ c.drop common))

theorem toList_render {names : List (List Char)} (h : names ≠ []) :
    (render names).toList = Segments.joined '/' names := by
  rw [render, String.toList_ofList]
  induction names with
  | nil => exact absurd rfl h
  | cons name names ih =>
    cases names with
    | nil => simp [Segments.joined]
    | cons next names =>
      rw [Segments.joined_cons, ← ih (List.cons_ne_nil _ _), List.intercalate_cons_cons]
      simp

end UltraTorrent.Library.PosixPath

/-! What `path.resolve` makes of a path: the segments of the result are names, and a path made of
names resolves to itself. -/
namespace UltraTorrent.Library.CanonicalPath

open PosixPath Segments

/-- A segment that is a name, and no way to write another one. -/
structure Name (segment : List Char) : Prop where
  ne_nil : segment ≠ []
  no_slash : '/' ∉ segment
  ne_dot : segment ≠ ['.']
  ne_dots : segment ≠ ['.', '.']

variable {names above below : List (List Char)} {segment text : List Char} {cwd path : String}

theorem resolveSegment_name (h : Name segment) : resolveSegment above segment = segment :: above := by
  rw [resolveSegment, if_neg (by simp [h.ne_nil, h.ne_dot]), if_neg h.ne_dots]

theorem foldl_names (h : ∀ name ∈ names, Name name) :
    names.foldl resolveSegment above = names.reverse ++ above := by
  induction names generalizing above with
  | nil => rfl
  | cons name names ih =>
    rw [List.forall_mem_cons] at h
    rw [List.foldl_cons, resolveSegment_name h.1, ih h.2, List.reverse_cons, List.append_assoc,
      List.singleton_append]

/-! ### The result is made of names -/

theorem name_resolveSegment (habove : ∀ name ∈ above, Name name) (hfree : '/' ∉ segment) :
    ∀ name ∈ resolveSegment above segment, Name name := by
  unfold resolveSegment
  split_ifs with hskip hup
  · exact habove
  · exact fun name hname => habove name (List.mem_of_mem_tail hname)
  · rw [not_or] at hskip
    exact List.forall_mem_cons.2 ⟨⟨hskip.1, hfree, hskip.2, hup⟩, habove⟩

theorem name_foldl (habove : ∀ name ∈ above, Name name) (hfree : ∀ name ∈ names, '/' ∉ name) :
    ∀ name ∈ names.foldl resolveSegment above, Name name := by
  induction names generalizing above with
  | nil => exact habove
  | cons name names ih =>
    rw [List.forall_mem_cons] at hfree
    exact ih (name_resolveSegment habove hfree.1) hfree.2

theorem no_slash_of_mem_splitOn (h : segment ∈ text.splitOn '/') : '/' ∉ segment := by
  rw [List.splitOn_eq_splitOnP] at h
  exact fun hmem => by simpa using free_of_mem_splitOnP h '/' hmem

theorem name_normalize (text : List Char) : ∀ name ∈ normalize text, Name name := by
  intro name hname
  rw [PosixPath.normalize, List.mem_reverse] at hname
  exact name_foldl (by simp) (fun segment hsegment => no_slash_of_mem_splitOn hsegment) name hname

theorem name_segments (cwd path : String) : ∀ name ∈ segments cwd path, Name name := by
  unfold segments
  split_ifs
  · exact name_normalize _
  · exact name_normalize _

/-! ### A path made of names -/

theorem render_head? (names : List (List Char)) : (render names).toList.head? = some '/' := by
  simp [render]

theorem isAbsolute_render (names : List (List Char)) : isAbsolute (render names) = true := by
  simp [isAbsolute, render_head?]

theorem foldl_splitOn_render (h : ∀ name ∈ names, Name name) :
    ((render names).toList.splitOn '/').foldl resolveSegment [] = names.reverse := by
  by_cases hnil : names = []
  · subst hnil
    rfl
  · have hsplit : (render names).toList.splitOn '/' = [] :: names := by
      rw [render, String.toList_ofList, ← List.nil_append ('/' :: _), List.splitOn_append_cons_self,
        List.splitOn_nil, List.splitOn_intercalate _ (fun name hname => (h name hname).no_slash) hnil]
      rfl
    rw [hsplit, List.foldl_cons, foldl_names h]
    simp [resolveSegment]

theorem segments_render (cwd : String) (h : ∀ name ∈ names, Name name) :
    segments cwd (render names) = names := by
  rw [segments, if_pos (isAbsolute_render names), PosixPath.normalize, foldl_splitOn_render h, List.reverse_reverse]

theorem resolve_render (cwd : String) (h : ∀ name ∈ names, Name name) :
    resolve cwd (render names) = render names := by
  rw [resolve, segments_render cwd h]

/-- An absolute path that is written as it resolves. -/
def Canonical (path : String) : Prop := ∃ names, (∀ name ∈ names, Name name) ∧ render names = path

theorem canonical_resolve (cwd path : String) : Canonical (resolve cwd path) :=
  ⟨_, name_segments cwd path, rfl⟩

theorem Canonical.resolve_eq (h : Canonical path) (cwd : String) : resolve cwd path = path := by
  obtain ⟨names, hnames, rfl⟩ := h
  exact resolve_render cwd hnames

/-- Its names are what it is rendered from, whatever the working directory is. -/
theorem Canonical.render_segments (h : Canonical path) (cwd : String) :
    render (segments cwd path) = path :=
  h.resolve_eq cwd

theorem Canonical.head? (h : Canonical path) : path.toList.head? = some '/' := by
  obtain ⟨names, -, rfl⟩ := h
  exact render_head? names

/-- The way down from a directory, without a slash before it. -/
def relativePath (below : List (List Char)) : String := .ofList (['/'].intercalate below)

theorem isAbsolute_relativePath (h : ∀ name ∈ below, Name name) :
    isAbsolute (relativePath below) = false := by
  cases below with
  | nil => rfl
  | cons name below =>
    rw [List.forall_mem_cons] at h
    cases hname : name with
    | nil => exact absurd hname h.1.ne_nil
    | cons c rest =>
      have hslash : c ≠ '/' := by
        rintro rfl
        exact h.1.no_slash (hname ▸ List.mem_cons_self)
      simp [isAbsolute, relativePath, intercalate_cons, hslash]

/-- Going down from a directory by names ends where the names lead. -/
theorem segments_relativePath (hnames : ∀ name ∈ names, Name name) (h : ∀ name ∈ below, Name name) :
    segments (render names) (relativePath below) = names ++ below := by
  have hbelow : ((relativePath below).toList.splitOn '/').foldl resolveSegment names.reverse =
      below.reverse ++ names.reverse := by
    rw [relativePath, String.toList_ofList]
    by_cases hnil : below = []
    · subst hnil
      rfl
    · rw [List.splitOn_intercalate _ (fun name hname => (h name hname).no_slash) hnil, foldl_names h]
  rw [segments, if_neg (by rw [isAbsolute_relativePath h]; decide), PosixPath.normalize,
    List.splitOn_append_cons_self, List.foldl_append, foldl_splitOn_render hnames, hbelow]
  simp

/-! ### It is no longer than the path -/

theorem joined_splitOn (text : List Char) : joined '/' (text.splitOn '/') = '/' :: text := by
  have htext : ['/'].intercalate (text.splitOn '/') = text := List.intercalate_splitOn '/'
  cases hsplit : text.splitOn '/' with
  | nil => exact absurd hsplit (List.splitOn_ne_nil '/' text)
  | cons segment segments => rw [joined_cons, ← intercalate_cons, ← hsplit, htext]

theorem length_joined_reverse (names : List (List Char)) :
    (joined '/' names.reverse).length = (joined '/' names).length := by
  simp [joined, List.length_flatMap, List.sum_reverse]

theorem length_resolveSegment (above : List (List Char)) (segment : List Char) :
    (joined '/' (resolveSegment above segment)).length ≤
      (joined '/' above).length + (segment.length + 1) := by
  unfold resolveSegment
  split_ifs
  · omega
  · cases above with
    | nil => simp
    | cons name above => simp [joined_cons]; omega
  · simp [joined_cons]; omega

theorem length_foldl (names above : List (List Char)) :
    (joined '/' (names.foldl resolveSegment above)).length ≤
      (joined '/' above).length + (joined '/' names).length := by
  induction names generalizing above with
  | nil => exact Nat.le_add_right _ _
  | cons name names ih =>
    have hstep := length_resolveSegment above name
    have hrest := ih (resolveSegment above name)
    rw [List.foldl_cons]
    simp only [joined_cons, List.length_cons, List.length_append]
    omega

theorem length_resolve_le (cwd : String) (h : isAbsolute path = true) :
    (resolve cwd path).toList.length ≤ path.toList.length := by
  obtain ⟨text, htext⟩ : ∃ text, path.toList = '/' :: text := by
    rw [isAbsolute, decide_eq_true_eq] at h
    cases hpath : path.toList with
    | nil => simp [hpath] at h
    | cons c text => exact ⟨text, by simpa [hpath] using h⟩
  rw [resolve, segments, if_pos h, htext]
  by_cases hnil : normalize ('/' :: text) = []
  · rw [hnil]
    simp [render]
  · rw [toList_render hnil, PosixPath.normalize, length_joined_reverse, ← List.nil_append ('/' :: text),
      List.splitOn_append_cons_self, List.splitOn_nil, List.singleton_append, List.foldl_cons]
    have hfold := length_foldl (text.splitOn '/') (resolveSegment [] [])
    rw [joined_splitOn] at hfold
    simpa [resolveSegment, joined] using hfold

end UltraTorrent.Library.CanonicalPath
