import Mathlib.Data.List.DropRight
import UltraTorrent.Library.CanonicalPath

/-! Node's POSIX path functions that work on the text of a path alone. -/
namespace UltraTorrent.Library.NodePath

open CanonicalPath

/-- The last component; slashes at the end do not count. -/
def component (path : List Char) : List Char :=
  (path.rdropWhile (· = '/')).rtakeWhile (· ≠ '/')

/-- `path.basename(path)`. -/
def basename (path : String) : String := .ofList (component path.toList)

/-- `path.basename(path, suffix)`: a component that is all suffix keeps it. -/
def basenameWithout (path suffix : String) : String :=
  let base := component path.toList
  if suffix ≠ "" ∧ suffix = path then ""
  else if suffix.toList.isSuffixOf base ∧ suffix.toList ≠ base then
    .ofList (base.take (base.length - suffix.length))
  else .ofList base

/-- `path.extname(path)`: from the last dot of a component on, unless the component starts there. -/
def extname (path : String) : String :=
  let base := component path.toList
  let after := base.rtakeWhile (· ≠ '.')
  let front := base.rdropWhile (· ≠ '.')
  if front.length ≤ 1 ∨ base = ['.', '.'] then "" else .ofList ('.' :: after)

variable {path suffix : String}

/-- An extension begins at a dot with something in front of it. -/
theorem component_of_extname (h : extname path ≠ "") :
    ∃ front after, front ≠ [] ∧ component path.toList = front ++ '.' :: after ∧
      (extname path).toList = '.' :: after := by
  unfold extname at h ⊢
  generalize component path.toList = base at h ⊢
  dsimp only at h ⊢
  split_ifs at h ⊢ with hshort
  · exact absurd rfl h
  rw [not_or, not_le] at hshort
  rcases List.eq_nil_or_concat' (base.rdropWhile (· ≠ '.')) with hnil | ⟨front, last, hfront⟩
  · exact absurd hshort.1 (by rw [hnil]; decide)
  have hlast : last = '.' := by
    have hnot := List.rdropWhile_last_not (· ≠ '.') base (by rw [hfront]; simp)
    simpa only [hfront, List.getLast_append_singleton, decide_eq_true_eq, not_not] using hnot
  refine ⟨front, base.rtakeWhile (· ≠ '.'), ?_, ?_, String.toList_ofList⟩
  · rintro rfl
    exact absurd hshort.1 (by rw [hfront]; simp)
  · subst hlast
    rw [List.append_cons, ← hfront, List.rdropWhile_append_rtakeWhile]

theorem length_component_le (text : List Char) : (component text).length ≤ text.length :=
  (List.rtakeWhile_suffix _ _).length_le.trans (List.rdropWhile_prefix _ _).length_le

theorem basenameWithout_of_length (hlength : suffix.length = (extname path).length)
    (hne : suffix ≠ extname path) : basenameWithout path suffix = basename path := by
  have hext : extname path ≠ "" := by
    intro hempty
    rw [hempty] at hlength hne
    exact hne (String.length_eq_zero_iff.1 hlength)
  obtain ⟨front, after, hfront, hbase, htext⟩ := component_of_extname hext
  have hnotpath : suffix ≠ path := by
    rintro rfl
    have hle := length_component_le suffix.toList
    have hpos := List.length_pos_iff.2 hfront
    rw [hbase, ← htext, List.length_append, String.length_toList, String.length_toList, hlength] at hle
    omega
  have hnotsuffix : suffix.toList.isSuffixOf (component path.toList) = false := by
    rw [Bool.eq_false_iff, Ne, List.isSuffixOf_iff_suffix, hbase, ← htext]
    intro hsuffix
    have hlist : suffix.toList = (extname path).toList :=
      (List.suffix_of_suffix_length_le hsuffix (List.suffix_append ..)
        (by rw [String.length_toList, String.length_toList, hlength])).eq_of_length
          (by rw [String.length_toList, String.length_toList, hlength])
    exact hne (String.toList_inj.1 hlist)
  simp [basenameWithout, basename, hnotpath, hnotsuffix]

section Extension

variable {front after : List Char}

theorem extname_of_component (h : component path.toList = front ++ '.' :: after) (hfront : front ≠ [])
    (hafter : after ≠ []) (hfree : '.' ∉ after) : extname path = .ofList ('.' :: after) := by
  have hkept : ∀ c ∈ after.reverse, (decide (c ≠ '.')) = true := fun c hc =>
    decide_eq_true fun heq => hfree (heq ▸ List.mem_reverse.1 hc)
  have hreverse : (front ++ '.' :: after).reverse = after.reverse ++ '.' :: front.reverse := by simp
  have hrest : (front ++ '.' :: after).rdropWhile (· ≠ '.') = front ++ ['.'] := by
    rw [List.rdropWhile, hreverse, List.dropWhile_append_of_pos hkept, List.dropWhile_cons_of_neg (by decide)]
    simp
  have htaken : (front ++ '.' :: after).rtakeWhile (· ≠ '.') = after := by
    rw [List.rtakeWhile, hreverse, List.takeWhile_append_of_pos hkept, List.takeWhile_cons_of_neg (by decide)]
    simp
  have hlong : 1 < (front ++ ['.']).length := by
    have hpos := List.length_pos_of_ne_nil hfront
    rw [List.length_append, List.length_singleton]
    omega
  have hdots : front ++ '.' :: after ≠ ['.', '.'] := by
    intro hdots
    obtain ⟨c, front, rfl⟩ := List.exists_cons_of_ne_nil hfront
    obtain ⟨d, after, rfl⟩ := List.exists_cons_of_ne_nil hafter
    have hlength := congrArg List.length hdots
    simp at hlength
    omega
  unfold extname
  rw [h]
  dsimp only
  rw [hrest, htaken, if_neg (by rw [not_or]; exact ⟨by omega, hdots⟩)]

theorem basenameWithout_extname (h : component path.toList = front ++ '.' :: after) (hfront : front ≠ [])
    (hafter : after ≠ []) (hfree : '.' ∉ after) : basenameWithout path (extname path) = .ofList front := by
  have hlength := length_component_le path.toList
  have hpos := List.length_pos_of_ne_nil hfront
  rw [extname_of_component h hfront hafter hfree]
  rw [h, List.length_append, String.length_toList] at hlength
  have hpath : String.ofList ('.' :: after) ≠ path := by
    rintro rfl
    rw [String.length_ofList] at hlength
    omega
  have hsuffix : ('.' :: after).isSuffixOf (front ++ '.' :: after) = true :=
    List.isSuffixOf_iff_suffix.2 (List.suffix_append _ _)
  have hne : '.' :: after ≠ front ++ '.' :: after := fun heq => hfront (List.append_left_eq_self.1 heq.symm)
  rw [basenameWithout, if_neg fun hand => hpath hand.2, h, String.toList_ofList, if_pos ⟨hsuffix, hne⟩,
    String.length_ofList, List.length_append, Nat.add_sub_cancel, List.take_left]

end Extension

def isAbsolute (path : String) : Bool := path.toList.head? = some '/'

/-- `path.dirname(path)`: the first character never ends it. -/
def dirname (path : String) : String :=
  let kept := ((path.toList.drop 1).rdropWhile (· = '/')).rdropWhile (· ≠ '/')
  if path = "" then "."
  else if kept = [] then if isAbsolute path then "/" else "."
  else if isAbsolute path ∧ kept.length = 1 then "//"
  else .ofList (path.toList.take kept.length)

/-- One more segment; above its start a relative path goes on upwards. -/
def normalizeSegment (allowAboveRoot : Bool) (above : List (List Char)) (segment : List Char) :
    List (List Char) :=
  if segment = [] ∨ segment = ['.'] then above
  else if segment = ['.', '.'] then
    match above with
    | [] => if allowAboveRoot then [segment] else []
    | top :: rest => if top = ['.', '.'] then segment :: above else rest
  else segment :: above

/-- `path.normalize(path)`. -/
def normalize (path : List Char) : List Char :=
  let absolute := path.head? = some '/'
  let trailing := path.getLast? = some '/'
  let segments := ((path.splitOn '/').foldl (normalizeSegment (!absolute)) []).reverse
  let body := ['/'].intercalate segments
  if body = [] then
    if absolute then ['/'] else if trailing then ['.', '/'] else ['.']
  else (if absolute then ['/'] else []) ++ body ++ if trailing then ['/'] else []

/-- `path.join(...parts)`. -/
def join (parts : List String) : String :=
  .ofList (normalize (['/'].intercalate ((parts.filter (· ≠ "")).map String.toList)))

example : join ["/media/TV/", "../Show/a.mkv"] = "/media/Show/a.mkv" := by decide

example : dirname "/media/TV/Show/" = "/media/TV" ∧ extname "a/.b.mkv" = ".mkv" ∧ extname ".mkv" = "" := by
  decide

/-! ### The last segment -/

section LastSegment

variable {text lead seg : List Char} {parts : List String}

/-- A text whose last segment is this one. -/
def EndsIn (text seg : List Char) : Prop := text = seg ∨ ∃ lead, text = lead ++ '/' :: seg

theorem EndsIn.append (h : EndsIn text seg) (lead : List Char) : EndsIn (lead ++ '/' :: text) seg := by
  rcases h with rfl | ⟨front, rfl⟩
  · exact .inr ⟨lead, rfl⟩
  · exact .inr ⟨lead ++ '/' :: front, by simp⟩

theorem splitOn_of_free (h : '/' ∉ seg) : seg.splitOn '/' = [seg] := by
  have hsplit : (['/'].intercalate [seg]).splitOn '/' = [seg] :=
    List.splitOn_intercalate '/' (by simpa using h) (by simp)
  simpa using hsplit

theorem EndsIn.splitOn (h : EndsIn text seg) (hfree : '/' ∉ seg) :
    ∃ before, text.splitOn '/' = before ++ [seg] := by
  rcases h with rfl | ⟨lead, rfl⟩
  · exact ⟨[], splitOn_of_free hfree⟩
  · exact ⟨lead.splitOn '/', by rw [List.splitOn_append_cons_self, splitOn_of_free hfree]⟩

theorem endsIn_intercalate (before : List (List Char)) (seg : List Char) :
    EndsIn (['/'].intercalate (before ++ [seg])) seg := by
  induction before with
  | nil => exact .inl (by simp)
  | cons first before ih =>
    have hne : before ++ [seg] ≠ [] := by simp
    rw [List.cons_append, Segments.intercalate_cons]
    obtain ⟨next, rest, hnext⟩ := List.exists_cons_of_ne_nil hne
    rw [hnext, Segments.intercalate_cons] at ih
    rw [hnext, Segments.joined_cons]
    exact ih.append first

theorem getLast?_of_endsIn (h : EndsIn text seg) (hname : Name seg) :
    text.getLast? = seg.getLast? ∧ seg.getLast? ≠ some '/' := by
  obtain ⟨front, last, rfl⟩ := (List.eq_nil_or_concat' seg).resolve_left hname.ne_nil
  have hlast : (front ++ [last]).getLast? = some last := List.getLast?_concat
  refine ⟨?_, fun hslash => ?_⟩
  · rcases h with rfl | ⟨lead, rfl⟩
    · rfl
    · rw [List.append_cons, List.getLast?_append, hlast, Option.some_or]
  · rw [hlast, Option.some.injEq] at hslash
    exact hname.no_slash (by simp [hslash])

theorem component_of_endsIn (h : EndsIn text seg) (hname : Name seg) : component text = seg := by
  obtain ⟨hlast, hslash⟩ := getLast?_of_endsIn h hname
  have hkept : text.rdropWhile (· = '/') = text := by
    rw [List.rdropWhile_eq_self_iff]
    intro hne hend
    refine hslash ?_
    rw [← hlast, List.getLast?_eq_some_getLast hne, of_decide_eq_true hend]
  have hfree : Segments.Free (fun c => decide (c = '/')) seg.reverse := by
    intro c hc
    exact decide_eq_false fun heq => hname.no_slash (heq ▸ List.mem_reverse.1 hc)
  have htake : ∀ rest, Segments.Follows (fun c => decide (c = '/')) rest →
      (seg.reverse ++ rest).takeWhile (· ≠ '/') = seg.reverse := by
    intro rest hrest
    simpa using Segments.takeWhile_segment hfree hrest
  rw [component, hkept, List.rtakeWhile]
  rcases h with rfl | ⟨lead, rfl⟩
  · have hall := htake [] Segments.follows_nil
    rw [List.append_nil] at hall
    rw [hall, List.reverse_reverse]
  · rw [List.reverse_append, List.reverse_cons, List.append_assoc, List.singleton_append,
      htake _ (fun c hc => by simpa using hc.symm), List.reverse_reverse]

theorem normalizeSegment_name (allowAboveRoot : Bool) (above : List (List Char)) (hname : Name seg) :
    normalizeSegment allowAboveRoot above seg = seg :: above := by
  unfold normalizeSegment
  rw [if_neg (by simp [hname.ne_nil, hname.ne_dot]), if_neg hname.ne_dots]

theorem normalize_of_endsIn (h : EndsIn text seg) (hname : Name seg) : EndsIn (normalize text) seg := by
  obtain ⟨before, hbefore⟩ := h.splitOn hname.no_slash
  obtain ⟨hlast, hslash⟩ := getLast?_of_endsIn h hname
  have hbody : ∀ segments, ['/'].intercalate (segments ++ [seg]) ≠ [] := by
    intro segments hnil
    have hends := endsIn_intercalate segments seg
    rw [hnil] at hends
    rcases hends with hends | ⟨lead, hends⟩
    · exact hname.ne_nil hends.symm
    · simp at hends
  unfold normalize
  dsimp only
  rw [hbefore, List.foldl_append, List.foldl_cons, List.foldl_nil, normalizeSegment_name _ _ hname,
    List.reverse_cons, if_neg (hbody _), hlast, if_neg hslash, List.append_nil]
  split_ifs
  · exact (endsIn_intercalate _ seg).append []
  · exact endsIn_intercalate _ seg

/-- Joining leaves the last segment of the last part. -/
theorem component_join {root below : String} (h : EndsIn below.toList seg) (hname : Name seg) :
    component (join [root, below]).toList = seg := by
  have hbelow : below ≠ "" := by
    rintro rfl
    rcases h with hnil | ⟨lead, hnil⟩
    · exact hname.ne_nil hnil.symm
    · simp at hnil
  rw [join, String.toList_ofList]
  refine component_of_endsIn (normalize_of_endsIn ?_ hname) hname
  by_cases hroot : root = ""
  · simpa [hroot, hbelow] using h
  · have hparts : ['/'].intercalate (([root, below].filter (· ≠ "")).map String.toList) =
        root.toList ++ '/' :: below.toList := by
      simp [hroot, hbelow, List.intercalate]
    rw [hparts]
    exact h.append root.toList

end LastSegment

end UltraTorrent.Library.NodePath
