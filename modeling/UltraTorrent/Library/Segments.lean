import Mathlib.Data.List.DropRight
import Mathlib.Data.List.Forall2
import Mathlib.Data.List.Infix

/-! Lists written segment by segment, a separator before each. Whether one text begins another at a
separator is then whether its segments come first. More than one symbol may separate; those written
here are all one of them. -/
namespace UltraTorrent.Library.Segments

variable {α : Type*} {sep : α → Bool} {slash : α}

/-- A segment has no separator in it. -/
def Free (sep : α → Bool) (segment : List α) : Prop := ∀ c ∈ segment, sep c = false

def joined (slash : α) (segments : List (List α)) : List α :=
  segments.flatMap fun segment => slash :: segment

/-- What comes after a segment is nothing or a separator. -/
def Follows (sep : α → Bool) (rest : List α) : Prop := ∀ c ∈ rest.head?, sep c = true

theorem follows_nil : Follows sep [] := nofun

theorem joined_cons (slash : α) (segment : List α) (segments : List (List α)) :
    joined slash (segment :: segments) = slash :: (segment ++ joined slash segments) := by
  rw [joined, List.flatMap_cons, List.cons_append, ← joined]

theorem joined_append (slash : α) (root rest : List (List α)) :
    joined slash (root ++ rest) = joined slash root ++ joined slash rest :=
  List.flatMap_append

theorem follows_joined (hslash : sep slash = true) (segments : List (List α)) {rest : List α}
    (hrest : Follows sep rest) : Follows sep (joined slash segments ++ rest) := by
  cases segments with
  | nil => exact hrest
  | cons segment segments =>
    intro c hc
    rw [joined_cons, List.cons_append, List.head?_cons, Option.mem_some_iff] at hc
    rwa [← hc]

theorem takeWhile_segment {segment rest : List α} (hfree : Free sep segment)
    (hrest : Follows sep rest) : (segment ++ rest).takeWhile (fun c => !sep c) = segment := by
  rw [List.takeWhile_append_of_pos fun c hc => by rw [hfree c hc, Bool.not_false]]
  cases rest with
  | nil => rw [List.takeWhile_nil, List.append_nil]
  | cons c rest =>
    have hc : sep c = true := hrest c rfl
    rw [List.takeWhile_cons_of_neg (by simp [hc]), List.append_nil]

/-- A segment ends at the first separator. -/
theorem segment_unique {a b rest rest' : List α} (ha : Free sep a) (hb : Free sep b)
    (hrest : Follows sep rest) (hrest' : Follows sep rest') (h : a ++ rest = b ++ rest') :
    a = b ∧ rest = rest' := by
  have hab : a = b := by
    rw [← takeWhile_segment ha hrest, h, takeWhile_segment hb hrest']
  subst hab
  exact ⟨rfl, List.append_cancel_left h⟩

theorem prefix_of_joined (hslash : sep slash = true) {root path : List (List α)} {rest : List α}
    (hroot : ∀ segment ∈ root, Free sep segment) (hpath : ∀ segment ∈ path, Free sep segment)
    (hrest : Follows sep rest) (h : joined slash root ++ rest = joined slash path) :
    root <+: path := by
  induction root generalizing path with
  | nil => exact List.nil_prefix
  | cons a root ih =>
    cases path with
    | nil =>
      rw [joined_cons] at h
      cases h
    | cons b path =>
      rw [List.forall_mem_cons] at hroot hpath
      rw [joined_cons, joined_cons, List.cons_append, List.append_assoc, List.cons.injEq] at h
      have hfollows : Follows sep (joined slash path ++ []) := follows_joined hslash path follows_nil
      rw [List.append_nil] at hfollows
      obtain ⟨rfl, hjoined⟩ := segment_unique hroot.1 hpath.1 (follows_joined hslash root hrest)
        hfollows h.2
      exact List.cons_prefix_cons.2 ⟨rfl, ih hroot.2 hpath.2 hjoined⟩

theorem joined_of_prefix (slash : α) {root path : List (List α)} (h : root <+: path) :
    joined slash path = joined slash root ∨
      ∃ rest, joined slash path = joined slash root ++ slash :: rest := by
  obtain ⟨below, rfl⟩ := h
  cases below with
  | nil =>
    rw [List.append_nil]
    exact .inl rfl
  | cons segment below =>
    rw [joined_append, joined_cons]
    exact .inr ⟨_, rfl⟩

theorem rdropWhile_joined {segments : List (List α)} (hfree : ∀ segment ∈ segments, Free sep segment)
    (hne : ∀ segment ∈ segments, segment ≠ []) :
    (joined slash segments).rdropWhile sep = joined slash segments := by
  rcases List.eq_nil_or_concat' segments with rfl | ⟨front, last, rfl⟩
  · rfl
  · have hlast : last ∈ front ++ [last] := List.mem_append_right _ List.mem_cons_self
    obtain ⟨start, c, rfl⟩ := (List.eq_nil_or_concat' last).resolve_left (hne _ hlast)
    have hc : sep c = false := hfree _ hlast c (List.mem_append_right _ List.mem_cons_self)
    have hjoined : joined slash (front ++ [start ++ [c]]) =
        joined slash front ++ slash :: start ++ [c] := by
      rw [joined_append, joined_cons]
      simp [joined]
    rw [hjoined, List.rdropWhile_concat_neg _ _ _ (by simp [hc])]

theorem free_of_mem_splitOnP {text segment : List α} (h : segment ∈ text.splitOnP sep) :
    Free sep segment := by
  induction text generalizing segment with
  | nil =>
    rw [List.splitOnP_nil, List.mem_singleton] at h
    subst h
    exact nofun
  | cons c text ih =>
    rw [List.splitOnP_cons_eq_if_modifyHead] at h
    split_ifs at h with hc
    · rcases List.mem_cons.1 h with rfl | h
      · exact nofun
      · exact ih h
    · cases hsplit : text.splitOnP sep with
      | nil => exact absurd hsplit (List.splitOnP_ne_nil sep text)
      | cons first others =>
        rw [hsplit, List.modifyHead_cons, List.mem_cons] at h
        rcases h with rfl | h
        · intro d hd
          rcases List.mem_cons.1 hd with rfl | hd
          · simpa using hc
          · exact ih (hsplit ▸ List.mem_cons_self) d hd
        · exact ih (hsplit ▸ List.mem_cons_of_mem _ h)

/-! ### Lines that correspond -/

theorem mem_of_mem_splitOn [BEq α] [LawfulBEq α] (slash : α) {c : α} {text : List α} (h : c ∈ text) :
    c = slash ∨ ∃ p ∈ text.splitOn slash, c ∈ p := by
  induction text with
  | nil => cases h
  | cons x text ih =>
    rw [List.splitOn_cons_eq_if_modifyHead]
    obtain ⟨head, tail, hsplit⟩ := List.exists_cons_of_ne_nil (List.splitOn_ne_nil slash text)
    rw [hsplit] at ih ⊢
    split_ifs with hx
    · rcases List.mem_cons.1 h with rfl | hc
      · exact .inl (eq_of_beq hx)
      · refine (ih hc).imp_right ?_
        rintro ⟨p, hp, hcp⟩
        exact ⟨p, List.mem_cons_of_mem _ hp, hcp⟩
    · rcases List.mem_cons.1 h with rfl | hc
      · exact .inr ⟨c :: head, List.mem_cons_self, List.mem_cons_self⟩
      · refine (ih hc).imp_right ?_
        rintro ⟨p, hp, hcp⟩
        rcases List.mem_cons.1 hp with rfl | hp
        · exact ⟨x :: p, List.mem_cons_self, List.mem_cons_of_mem _ hcp⟩
        · exact ⟨p, List.mem_cons_of_mem _ hp, hcp⟩

theorem intercalate_cons (slash : α) (segment : List α) (segments : List (List α)) :
    [slash].intercalate (segment :: segments) = segment ++ joined slash segments := by
  induction segments generalizing segment with
  | nil => rw [List.intercalate_singleton, joined, List.flatMap_nil, List.append_nil]
  | cons next segments ih =>
    rw [List.intercalate_cons_cons, ih, joined_cons, List.append_assoc, List.singleton_append]

/-- Two segments in one place of two texts: the same one, or two without a separator. -/
def Aligned (sep : α → Bool) (a b : List α) : Prop := a = b ∨ (Free sep a ∧ Free sep b)

/-- What ends two equal texts, after the last separator if it has none itself, is the same. -/
theorem last_unique (hslash : sep slash = true) {front front' a b : List α} (h : Aligned sep a b)
    (htext : front ++ slash :: a = front' ++ slash :: b) : front = front' ∧ a = b := by
  rcases h with rfl | ⟨ha, hb⟩
  · exact ⟨List.append_cancel_right htext, rfl⟩
  · have hreverse := congrArg List.reverse htext
    simp only [List.reverse_append, List.reverse_cons, List.append_assoc, List.singleton_append]
      at hreverse
    have hfollows : ∀ rest : List α, Follows sep (slash :: rest) := by
      intro rest c hc
      rwa [← Option.mem_some_iff.1 hc]
    have hfree : ∀ {c : List α}, Free sep c → Free sep c.reverse :=
      fun hc d hd => hc d (List.mem_reverse.1 hd)
    obtain ⟨hlast, hfront⟩ := segment_unique (hfree ha) (hfree hb) (hfollows _) (hfollows _) hreverse
    exact ⟨List.reverse_injective (List.cons.inj hfront).2, List.reverse_injective hlast⟩

/-- Texts with as many segments, each aligned with its counterpart, are equal segment by segment,
whatever stands before them. -/
theorem joined_unique (hslash : sep slash = true) {segments segments' : List (List α)}
    (h : List.Forall₂ (Aligned sep) segments segments') {front front' : List α}
    (htext : front ++ joined slash segments = front' ++ joined slash segments') :
    front = front' ∧ segments = segments' := by
  induction h generalizing front front' with
  | nil => exact ⟨by simpa [joined] using htext, rfl⟩
  | cons hsegment _ ih =>
    rw [joined_cons, joined_cons, ← List.cons_append, ← List.cons_append, ← List.append_assoc,
      ← List.append_assoc] at htext
    obtain ⟨hfront, hrest⟩ := ih htext
    obtain ⟨hfront, hsegment⟩ := last_unique hslash hsegment hfront
    exact ⟨hfront, congrArg₂ List.cons hsegment hrest⟩

theorem free_intercalate {other : α → Bool} (hslash : other slash = false) {segments : List (List α)}
    (hfree : ∀ segment ∈ segments, Free other segment) : Free other ([slash].intercalate segments) := by
  cases segments with
  | nil => exact nofun
  | cons segment segments =>
    rw [List.forall_mem_cons] at hfree
    intro c hc
    rw [intercalate_cons, List.mem_append, joined, List.mem_flatMap] at hc
    rcases hc with hc | ⟨next, hnext, hc⟩
    · exact hfree.1 c hc
    · rcases List.mem_cons.1 hc with rfl | hc
      · exact hslash
      · exact hfree.2 next hnext c hc

theorem intercalate_unique [BEq α] [LawfulBEq α] {segments segments' : List (List α)}
    (hfree : ∀ segment ∈ segments, slash ∉ segment) (hfree' : ∀ segment ∈ segments', slash ∉ segment)
    (hempty : segments = [] ↔ segments' = [])
    (h : [slash].intercalate segments = [slash].intercalate segments') : segments = segments' := by
  by_cases hnil : segments = []
  · rw [hnil, hempty.1 hnil]
  · rw [← List.splitOn_intercalate slash hfree hnil, h,
      List.splitOn_intercalate slash hfree' fun h => hnil (hempty.2 h)]

/-! ### The segments of a text -/

theorem head?_joined (slash : α) (segments : List (List α)) : ∀ c ∈ (joined slash segments).head?, c = slash := by
  cases segments with
  | nil => nofun
  | cons segment segments =>
    intro c hc
    rw [joined_cons, List.head?_cons, Option.mem_some_iff] at hc
    exact hc.symm

section Parts

variable {text segment rest : List α} {segments : List (List α)} {c : α}

/-- What stands between separators, where anything does. -/
def parts (sep : α → Bool) (text : List α) : List (List α) := (text.splitOnP sep).filter (!·.isEmpty)

theorem parts_nil (sep : α → Bool) : parts sep [] = [] := by
  rw [parts, List.splitOnP_nil]
  rfl

theorem parts_append_cons (h : sep c = true) (front back : List α) :
    parts sep (front ++ c :: back) = parts sep front ++ parts sep back := by
  rw [parts, List.splitOnP_append_cons front back h, List.filter_append]
  rfl

theorem parts_cons (h : sep c = true) (text : List α) : parts sep (c :: text) = parts sep text := by
  rw [← List.nil_append (c :: text), parts_append_cons h, parts_nil, List.nil_append]

theorem mem_parts (h : segment ∈ parts sep text) : segment ≠ [] ∧ Free sep segment := by
  obtain ⟨hmem, hne⟩ := List.mem_filter.1 h
  exact ⟨by simpa using hne, free_of_mem_splitOnP hmem⟩

theorem parts_free (hne : segment ≠ []) (hfree : Free sep segment) : parts sep segment = [segment] := by
  rw [parts, List.splitOnP_eq_singleton hfree]
  simp [hne]

theorem parts_append (hne : segment ≠ []) (hfree : Free sep segment) (hrest : Follows sep rest) :
    parts sep (segment ++ rest) = segment :: parts sep rest := by
  cases rest with
  | nil => rw [List.append_nil, parts_free hne hfree, parts_nil]
  | cons c rest =>
    have hc : sep c = true := hrest c rfl
    rw [parts_append_cons hc, parts_free hne hfree, parts_cons hc, List.singleton_append]

theorem parts_joined (hslash : sep slash = true) (h : ∀ segment ∈ segments, segment ≠ [] ∧ Free sep segment) :
    parts sep (joined slash segments) = segments := by
  induction segments with
  | nil => exact parts_nil sep
  | cons segment segments ih =>
    rw [List.forall_mem_cons] at h
    have hfollows : Follows sep (joined slash segments) := by
      intro c hc
      rw [head?_joined slash segments c hc, hslash]
    rw [joined_cons, parts_cons hslash, parts_append h.1.1 h.1.2 hfollows, ih h.2]

theorem parts_append_joined (hslash : sep slash = true) (h : ∀ segment ∈ segments, segment ≠ [] ∧ Free sep segment)
    (front : List α) : parts sep (front ++ joined slash segments) = parts sep front ++ segments := by
  cases segments with
  | nil => rw [joined, List.flatMap_nil, List.append_nil, List.append_nil]
  | cons segment segments =>
    have hrest := parts_joined hslash h
    rw [joined_cons, parts_cons hslash] at hrest
    rw [joined_cons, parts_append_cons hslash, hrest]

theorem parts_dropWhile (sep : α → Bool) (text : List α) : parts sep (text.dropWhile sep) = parts sep text := by
  induction text with
  | nil => rfl
  | cons c text ih =>
    cases hc : sep c with
    | true => rw [List.dropWhile_cons_of_pos hc, ih, parts_cons hc]
    | false => rw [List.dropWhile_cons_of_neg (by simp [hc])]

/-- The first segment of a text that does not begin with a separator, and what follows it. -/
theorem exists_segment (hc : sep c = false) (text : List α) : ∃ segment rest, c :: text = segment ++ rest ∧
    segment ≠ [] ∧ Free sep segment ∧ Follows sep rest := by
  refine ⟨(c :: text).takeWhile (!sep ·), (c :: text).dropWhile (!sep ·),
    (List.takeWhile_append_dropWhile).symm, ?_, fun d hd => ?_, fun d hd => ?_⟩
  · rw [List.takeWhile_cons_of_pos (by simp [hc])]
    exact List.cons_ne_nil _ _
  · simpa using List.mem_takeWhile_imp hd
  · have hnot := List.head?_dropWhile_not (!sep ·) (c :: text)
    rw [Option.mem_def.1 hd] at hnot
    simpa using hnot

end Parts

end UltraTorrent.Library.Segments
