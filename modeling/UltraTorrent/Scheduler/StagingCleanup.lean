import UltraTorrent.Library.EcmaScript
import UltraTorrent.Library.InternetAddress
import UltraTorrent.Library.CanonicalPath
import UltraTorrent.Library.Segments

/-! Which files of an aged-out torrent may be deleted: those under a staging root and under no
library root. Containment is decided on the texts of the paths, so it is containment of the places
only where the texts say which places they are. -/
namespace UltraTorrent.Scheduler.StagingCleanup

open Library.EcmaScript Library.InternetAddress Library.PosixPath Library.Segments

variable (rt : Runtime)

def isSeparator (c : Char) : Bool := c = '/' || c = '\\'

/-- Trailing separators dropped and case folded, for comparing paths. -/
def norm (p : String) : String := rt.toLowerCase (.ofList (p.toList.rdropWhile isSeparator))

def isWithinRoot (file folder : String) : Bool :=
  let f := norm rt folder
  let p := norm rt file
  if f = "" ∨ p = "" then false
  else p = f || startsWith p (f ++ "/") || startsWith p (f ++ "\\")

inductive KeepReason where
  | inLibrary
  | outsideStaging
  deriving DecidableEq

structure Kept where
  path : String
  reason : KeepReason

structure Input where
  paths : List String
  stagingRoots : List String
  libraryRoots : List String

structure Plan where
  deletable : List String
  kept : List Kept

/-- The library roots are asked first. -/
def place (input : Input) (plan : Plan) (path : String) : Plan :=
  if path = "" then plan
  else if input.libraryRoots.any (isWithinRoot rt path) then
    { plan with kept := plan.kept ++ [⟨path, .inLibrary⟩] }
  else if input.stagingRoots.any (isWithinRoot rt path) then
    { plan with deletable := plan.deletable ++ [path] }
  else { plan with kept := plan.kept ++ [⟨path, .outsideStaging⟩] }

def planStagingCleanup (input : Input) : Plan := input.paths.foldl (place rt input) ⟨[], []⟩

/-! ### Places -/

/-- Where a path leads, segment by segment from the top, with dots and empty segments resolved. -/
def segments (path : String) : List (List Char) :=
  ((path.toList.splitOnP isSeparator).foldl resolveSegment []).reverse

def lower (text : List Char) : List Char := (rt.toLowerCase (.ofList text)).toList

/-- The place of the root lies on the way to that of the path, whatever the case. -/
def Below (path root : String) : Prop :=
  (segments root).map (lower rt) <+: (segments path).map (lower rt)

def MayDelete (input : Input) (path : String) : Prop :=
  (∃ root ∈ input.stagingRoots, Below rt path root) ∧ ¬ ∃ root ∈ input.libraryRoots, Below rt path root

/-- A path written out in full. -/
def resolved (path : String) : String := render (segments path)

/-- The same test on what is written out in full. The top contains everything. -/
def isWithinResolved (path root : String) : Bool :=
  segments root = [] || isWithinRoot rt (resolved path) (resolved root)

def verdict (input : Input) (within : String → Bool) : Bool :=
  input.stagingRoots.any within && !input.libraryRoots.any within

/-- The texts say of a path what they would say written out in full. -/
def Unmoved (input : Input) (path : String) : Prop :=
  verdict input (isWithinRoot rt path) = verdict input (isWithinResolved rt path)

/-- Case is folded segment by segment. -/
structure Folds : Prop where
  nil : lower rt [] = []
  append : ∀ a b c, isSeparator c = true → lower rt (a ++ c :: b) = lower rt a ++ c :: lower rt b
  free : ∀ a, Free isSeparator a → Free isSeparator (lower rt a)

variable {rt} {input : Input} {path root : String}

/-! ### Written out in full -/

theorem resolveSegment_spec {above : List (List Char)} {segment : List Char}
    (hsegment : Free isSeparator segment) (h : ∀ s ∈ above, Free isSeparator s ∧ s ≠ []) :
    ∀ s ∈ resolveSegment above segment, Free isSeparator s ∧ s ≠ [] := by
  unfold resolveSegment
  split_ifs with hdot hup
  · exact h
  · exact fun s hs => h s (List.mem_of_mem_tail hs)
  · rw [not_or] at hdot
    exact List.forall_mem_cons.2 ⟨⟨hsegment, hdot.1⟩, h⟩

theorem foldl_resolveSegment {pieces above : List (List Char)}
    (hpieces : ∀ s ∈ pieces, Free isSeparator s) (h : ∀ s ∈ above, Free isSeparator s ∧ s ≠ []) :
    ∀ s ∈ pieces.foldl resolveSegment above, Free isSeparator s ∧ s ≠ [] := by
  induction pieces generalizing above with
  | nil => exact h
  | cons segment pieces ih =>
    rw [List.forall_mem_cons] at hpieces
    exact ih hpieces.2 (resolveSegment_spec hpieces.1 h)

theorem segments_spec (path : String) : ∀ s ∈ segments path, Free isSeparator s ∧ s ≠ [] := by
  intro s hs
  rw [segments, List.mem_reverse] at hs
  exact foldl_resolveSegment (fun _ => free_of_mem_splitOnP) (List.forall_mem_nil _) s hs

/-- Case is folded in every segment and nowhere else. -/
theorem lower_append_joined (hfolds : Folds rt) (name : List Char) (names : List (List Char)) :
    lower rt (name ++ joined '/' names) = lower rt name ++ joined '/' (names.map (lower rt)) := by
  induction names generalizing name with
  | nil => simp [joined]
  | cons next names ih =>
    rw [joined_cons, hfolds.append _ _ '/' rfl, ih, List.map_cons, joined_cons]

theorem toList_norm_resolved (hfolds : Folds rt) (path : String) :
    (norm rt (resolved path)).toList = joined '/' ((segments path).map (lower rt)) := by
  by_cases hnil : segments path = []
  · rw [resolved, hnil]
    exact hfolds.nil
  · have hspec := segments_spec path
    have hkeeps : (joined '/' (segments path)).rdropWhile isSeparator = joined '/' (segments path) :=
      rdropWhile_joined (fun s hs => (hspec s hs).1) fun s hs => (hspec s hs).2
    have hlower := lower_append_joined hfolds [] (segments path)
    rw [hfolds.nil, List.nil_append, List.nil_append, lower] at hlower
    rw [norm, resolved, toList_render hnil, hkeeps, hlower]

theorem startsWith_iff (text start : String) :
    startsWith text start = true ↔ start.toList <+: text.toList :=
  List.isPrefixOf_iff_prefix

theorem startsWith_joined {p f : String} {above below : List (List Char)}
    (hf : f.toList = joined '/' above) (hp : p.toList = joined '/' below)
    (habove : ∀ s ∈ above, Free isSeparator s) (hbelow : ∀ s ∈ below, Free isSeparator s) :
    (p = f || startsWith p (f ++ "/") || startsWith p (f ++ "\\")) = true ↔ above <+: below := by
  simp only [Bool.or_eq_true, decide_eq_true_eq, startsWith_iff, String.toList_append]
  have hslash : isSeparator '/' = true := rfl
  have hseparated {c : Char} (hc : isSeparator c = true) (h : f.toList ++ [c] <+: p.toList) :
      above <+: below := by
    obtain ⟨rest, hrest⟩ := h
    rw [hf, hp, List.append_assoc, List.singleton_append] at hrest
    refine prefix_of_joined hslash habove hbelow ?_ hrest
    rintro d ⟨⟩
    exact hc
  constructor
  · rintro ((rfl | h) | h)
    · have hsame : joined '/' above ++ [] = joined '/' below := by rw [List.append_nil, ← hf, ← hp]
      exact prefix_of_joined hslash habove hbelow follows_nil hsame
    · exact hseparated rfl h
    · exact hseparated rfl h
  · intro h
    rcases joined_of_prefix '/' h with heq | ⟨rest, hrest⟩
    · exact .inl (.inl (String.toList_inj.1 (by rw [hp, hf, heq])))
    · refine .inl (.inr ⟨rest, ?_⟩)
      rw [hp, hf, hrest, List.append_assoc]
      rfl

theorem isWithinRoot_resolved (hfolds : Folds rt) (hroot : segments root ≠ []) :
    isWithinRoot rt (resolved path) (resolved root) = true ↔ Below rt path root := by
  have hfree (text : String) : ∀ s ∈ (segments text).map (lower rt), Free isSeparator s := by
    intro s hs
    obtain ⟨name, hname, rfl⟩ := List.mem_map.1 hs
    exact hfolds.free name (segments_spec text name hname).1
  have hempty {text : String} (h : norm rt (resolved text) = "") : segments text = [] := by
    have hjoined := toList_norm_resolved hfolds text
    cases hsegments : segments text with
    | nil => rfl
    | cons name names =>
      rw [h, hsegments, List.map_cons, joined_cons] at hjoined
      cases hjoined
  unfold isWithinRoot Below
  dsimp only
  split_ifs with hnil
  · have hpath := hempty (hnil.resolve_left fun h => hroot (hempty h))
    rw [hpath, List.map_nil, List.prefix_nil, List.map_eq_nil_iff]
    exact iff_of_false nofun hroot
  · exact startsWith_joined (toList_norm_resolved hfolds root) (toList_norm_resolved hfolds path)
      (hfree root) (hfree path)

theorem isWithinResolved_iff (hfolds : Folds rt) (path root : String) :
    isWithinResolved rt path root = true ↔ Below rt path root := by
  rw [isWithinResolved, Bool.or_eq_true, decide_eq_true_eq]
  by_cases hroot : segments root = []
  · rw [Below, hroot]
    exact iff_of_true (.inl rfl) List.nil_prefix
  · rw [or_iff_right hroot, isWithinRoot_resolved hfolds hroot]

theorem verdict_resolved (hfolds : Folds rt) (input : Input) (path : String) :
    verdict input (isWithinResolved rt path) = true ↔ MayDelete rt input path := by
  simp only [verdict, Bool.and_eq_true, Bool.not_eq_true', List.any_eq_true, List.any_eq_false,
    isWithinResolved_iff hfolds, MayDelete, not_exists, not_and]

/-! ### The plan -/

theorem foldl_place (paths : List String) (plan : Plan) :
    (paths.foldl (place rt input) plan).deletable = plan.deletable ++
        paths.filter (fun path => path ≠ "" && verdict input (isWithinRoot rt path)) ∧
      (paths.foldl (place rt input) plan).kept.map (·.path) = plan.kept.map (·.path) ++
        paths.filter fun path => path ≠ "" && !verdict input (isWithinRoot rt path) := by
  induction paths generalizing plan with
  | nil => simp
  | cons path paths ih =>
    obtain ⟨hdeletable, hkept⟩ := ih (place rt input plan path)
    rw [List.foldl_cons, hdeletable, hkept, List.filter_cons, List.filter_cons]
    unfold place
    by_cases hpath : path = ""
    · simp [hpath]
    · by_cases hlibrary : input.libraryRoots.any (isWithinRoot rt path) = true
      · simp [hpath, verdict, hlibrary]
      · by_cases hstaging : input.stagingRoots.any (isWithinRoot rt path) = true <;>
          simp [hpath, verdict, hlibrary, hstaging]

theorem mem_deletable (hpath : path ∈ input.paths) (hne : path ≠ "") :
    path ∈ (planStagingCleanup rt input).deletable ↔ verdict input (isWithinRoot rt path) = true := by
  rw [planStagingCleanup, (foldl_place input.paths ⟨[], []⟩).1, List.nil_append, List.mem_filter,
    and_iff_right hpath, decide_eq_true hne, Bool.true_and]

theorem mem_kept (hpath : path ∈ input.paths) (hne : path ≠ "") :
    path ∈ (planStagingCleanup rt input).kept.map (·.path) ↔
      ¬ verdict input (isWithinRoot rt path) = true := by
  rw [planStagingCleanup, (foldl_place input.paths ⟨[], []⟩).2, List.map_nil, List.nil_append,
    List.mem_filter, and_iff_right hpath, decide_eq_true hne, Bool.true_and, Bool.not_eq_true',
    Bool.not_eq_true]

theorem unmoved_of_resolved (hpath : resolved path = path)
    (hroots : ∀ root ∈ input.stagingRoots ++ input.libraryRoots, resolved root = root ∧ root ≠ "/") :
    Unmoved rt input path := by
  have hsame : ∀ root ∈ input.stagingRoots ++ input.libraryRoots,
      isWithinRoot rt path root = isWithinResolved rt path root := by
    intro root hroot
    obtain ⟨hresolved, htop⟩ := hroots root hroot
    have hsegments : segments root ≠ [] := by
      intro hnil
      rw [resolved, hnil] at hresolved
      exact htop (hresolved.symm.trans (by decide))
    rw [isWithinResolved, hpath, hresolved, decide_eq_false hsegments, Bool.false_or]
  have hany {roots : List String} (h : roots ⊆ input.stagingRoots ++ input.libraryRoots) :
      roots.any (isWithinRoot rt path) = roots.any (isWithinResolved rt path) := by
    rw [Bool.eq_iff_iff, List.any_eq_true, List.any_eq_true]
    exact exists_congr fun root => and_congr_right fun hroot => by rw [hsame root (h hroot)]
  rw [Unmoved, verdict, verdict, hany (List.subset_append_left _ _), hany (List.subset_append_right _ _)]

/-- Each path is deleted or kept, by its place where the texts are as good as written out in full,
as they are where they are so written and no root is the top. -/
theorem planStagingCleanup_spec (hfolds : Folds rt) (input : Input) :
    (∀ path ∈ input.paths, path ≠ "" → Xor (path ∈ (planStagingCleanup rt input).deletable)
      (path ∈ (planStagingCleanup rt input).kept.map (·.path))) ∧
    ((∀ path ∈ input.paths, path ≠ "" →
        (path ∈ (planStagingCleanup rt input).deletable ↔ MayDelete rt input path)) ↔
      ∀ path ∈ input.paths, path ≠ "" → Unmoved rt input path) ∧
    ((∀ root ∈ input.stagingRoots ++ input.libraryRoots, resolved root = root ∧ root ≠ "/") →
      ∀ path ∈ input.paths, resolved path = path → Unmoved rt input path) := by
  refine ⟨fun path hpath hne => ?_, ?_, fun hroots path _ hresolved =>
    unmoved_of_resolved hresolved hroots⟩
  · rw [mem_deletable hpath hne, mem_kept hpath hne]
    exact xor_not_right.2 Iff.rfl
  · refine forall₂_congr fun path hpath => forall_congr' fun hne => ?_
    rw [mem_deletable hpath hne, ← verdict_resolved hfolds]
    exact Bool.eq_iff_iff.symm

/-! ### Samples -/

theorem lower_ascii (text : List Char) : lower .ascii text = text.map Char.toLower := by
  rw [lower]
  show ((String.ofList text).map Char.toLower).toList = _
  rw [String.toList_map, String.toList_ofList]

theorem folds_ascii : Folds .ascii where
  nil := by rw [lower_ascii, List.map_nil]
  append a b c hc := by
    have hlower : c.toLower = c := by
      rw [isSeparator, Bool.or_eq_true, decide_eq_true_eq, decide_eq_true_eq] at hc
      rcases hc with rfl | rfl <;> rfl
    rw [lower_ascii, lower_ascii, lower_ascii, List.map_append, List.map_cons, hlower]
  free a ha := by
    intro x hx
    rw [lower_ascii] at hx
    obtain ⟨c, hc, rfl⟩ := List.mem_map.1 hx
    by_contra hsep
    rw [Bool.not_eq_false, isSeparator, Bool.or_eq_true, decide_eq_true_eq, decide_eq_true_eq] at hsep
    have hlower : c.toLower = c := by
      rcases hsep with h | h
      · rw [h, eq_of_toLower h rfl]
      · rw [h, eq_of_toLower h rfl]
    rw [hlower] at hsep
    have hfree := ha c hc
    rcases hsep with rfl | rfl <;> cases hfree

theorem norm_ascii (p : String) :
    norm .ascii p = .ofList ((p.toList.rdropWhile isSeparator).map Char.toLower) := by
  rw [← lower_ascii, lower, String.ofList_toList, norm]

def sampleInput (path : String) : Input where
  paths := [path]
  stagingRoots := ["/staging"]
  libraryRoots := ["/library"]

theorem plainPath_deleted : MayDelete .ascii (sampleInput "/Staging/film.mkv") "/Staging/film.mkv" := by
  have hspec := planStagingCleanup_spec folds_ascii (sampleInput "/Staging/film.mkv")
  have hroots : ∀ root ∈ ["/staging", "/library"], resolved root = root ∧ root ≠ "/" := by decide
  have hunmoved := hspec.2.2 hroots
  have hstaging : isWithinRoot .ascii "/Staging/film.mkv" "/staging" = true := by
    rw [isWithinRoot, norm_ascii, norm_ascii]
    decide
  have hlibrary : isWithinRoot .ascii "/Staging/film.mkv" "/library" = false := by
    rw [isWithinRoot, norm_ascii, norm_ascii]
    decide
  have hresolved : ∀ path ∈ (sampleInput "/Staging/film.mkv").paths, resolved path = path := by
    decide
  have hmem : "/Staging/film.mkv" ∈ (sampleInput "/Staging/film.mkv").paths := List.mem_cons_self
  refine (hspec.2.1.2 (fun path hpath _ => hunmoved path hpath (hresolved path hpath)) _ hmem
    (by decide)).1 ?_
  rw [mem_deletable hmem (by decide)]
  simp [verdict, sampleInput, hstaging, hlibrary]

/-- The text begins with the staging root, the file is the library's. -/
theorem dottedPath_deleted : ¬ ∀ input, ∀ path ∈ input.paths, path ≠ "" →
    (path ∈ (planStagingCleanup .ascii input).deletable ↔ MayDelete .ascii input path) := by
  intro h
  have hstaging : isWithinRoot .ascii "/staging/../library/film.mkv" "/staging" = true := by
    rw [isWithinRoot, norm_ascii, norm_ascii]
    decide
  have hlibrary : isWithinRoot .ascii "/staging/../library/film.mkv" "/library" = false := by
    rw [isWithinRoot, norm_ascii, norm_ascii]
    decide
  have hsegments : segments "/library" <+: segments "/staging/../library/film.mkv" := by decide
  have hmem : "/staging/../library/film.mkv" ∈ (sampleInput "/staging/../library/film.mkv").paths :=
    List.mem_cons_self
  have hmay := (h _ _ hmem (by decide)).1 ((mem_deletable hmem (by decide)).2
    (by simp [verdict, sampleInput, hstaging, hlibrary]))
  exact hmay.2 ⟨"/library", List.mem_cons_self, hsegments.map _⟩

end UltraTorrent.Scheduler.StagingCleanup
