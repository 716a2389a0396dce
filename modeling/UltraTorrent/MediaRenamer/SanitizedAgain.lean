import Mathlib.Data.List.Chain
import UltraTorrent.MediaRenamer.RenderedSegments

/-! Sanitising a segment a second time. What is taken away at the end of a segment can leave an extension
behind something that the next run takes away. -/
namespace UltraTorrent.MediaRenamer.SanitizedAgain

open Library Library.Replacement Library.WhiteSpace RenderTemplate RenderedSegments

variable {text front ext ext' tail joint blank : List Char} {c : Char}

/-! ### Two halves -/

/-- Without control characters, with a space for each illegal one and for each run of white space. -/
def legible (input : List Char) : List Char :=
  replaceAll spaces (fun _ => [' ']) ((input.filter (!isControl ·)).map fun c => if isIllegal c then ' ' else c)

def undashed (text : List Char) : List Char := replaceFirst (danglingDash isCompoundExtension) id text

def unspaced (text : List Char) : List Char := replaceFirst (straySpace isCompoundExtension) id text

def stripped (text : List Char) : List Char := text.rdropWhile fun c => c = ' ' || c = '.'

def tidied (text : List Char) : List Char := trimmed (stripped (unspaced (undashed text)))

theorem sanitizeSegment_eq (input : List Char) : sanitizeSegment input = tidied (legible input) := rfl

/-! ### Extensions -/

def IsExtension (text : List Char) : Prop := isCompoundExtension text = true

/-- A symbol an extension can hold. -/
def Tight (c : Char) : Prop := isWhiteSpace c = false ∧ c ≠ '-'

theorem IsExtension.cons (h : IsExtension text) : ∃ rest, text = '.' :: rest := by
  unfold IsExtension isCompoundExtension at h
  split at h
  · exact ⟨_, rfl⟩
  · cases h

theorem isExtension_cons {rest : List Char} : IsExtension ('.' :: rest) ↔
    ∀ part ∈ rest.splitOn '.', part ≠ [] ∧ ∀ c ∈ part, c.isAlphanum := by
  simp [IsExtension, isCompoundExtension]

theorem isExtension_append (hext : IsExtension ext) :
    IsExtension (text ++ ext) ↔ text = [] ∨ IsExtension text := by
  obtain ⟨rest, rfl⟩ := hext.cons
  cases text with
  | nil => simpa using hext
  | cons c text =>
    rw [or_iff_right (List.cons_ne_nil _ _)]
    constructor
    · intro h
      obtain ⟨_, hcons⟩ := h.cons
      obtain rfl := (List.cons.inj hcons).1
      rw [List.cons_append, isExtension_cons, List.splitOn_append_cons_self, List.forall_mem_append] at h
      exact isExtension_cons.2 h.1
    · intro h
      obtain ⟨_, hcons⟩ := h.cons
      obtain rfl := (List.cons.inj hcons).1
      rw [isExtension_cons] at h hext
      rw [List.cons_append, isExtension_cons, List.splitOn_append_cons_self, List.forall_mem_append]
      exact ⟨h, hext⟩

theorem tight_of_isAlphanum (h : c.isAlphanum = true) : Tight c := by
  refine ⟨isWhiteSpace_of_isAlphanum h, ?_⟩
  rintro rfl
  cases h

theorem IsExtension.char (h : IsExtension ext) (hc : c ∈ ext) : c = '.' ∨ c.isAlphanum = true := by
  obtain ⟨rest, rfl⟩ := h.cons
  rw [isExtension_cons] at h
  rcases List.mem_cons.1 hc with rfl | hc
  · exact .inl rfl
  · refine (Library.Segments.mem_of_mem_splitOn '.' hc).imp_right ?_
    rintro ⟨part, hpart, hmem⟩
    exact (h part hpart).2 c hmem

theorem IsExtension.tight (h : IsExtension ext) : ∀ c ∈ ext, Tight c := by
  intro c hc
  rcases h.char hc with rfl | hc
  · exact ⟨by decide, by decide⟩
  · exact tight_of_isAlphanum hc

/-- An extension ends in a letter or a digit. -/
theorem IsExtension.last (h : IsExtension ext) : ∃ front c, ext = front ++ [c] ∧ c.isAlphanum = true := by
  obtain ⟨rest, rfl⟩ := h.cons
  obtain ⟨front, c, hlast⟩ := (List.eq_nil_or_concat' ('.' :: rest)).resolve_left (List.cons_ne_nil _ _)
  refine ⟨front, c, hlast, (h.char (c := c) (by rw [hlast]; simp)).resolve_left ?_⟩
  rintro rfl
  rw [isExtension_cons] at h
  rcases List.eq_nil_or_concat' rest with rfl | ⟨rest, d, rfl⟩
  · exact (h [] (by simp)).1 rfl
  · obtain rfl : d = '.' := by
      have hlasts := congrArg List.getLast? hlast
      rw [← List.cons_append, List.getLast?_append, List.getLast?_append] at hlasts
      simpa using hlasts
    rw [List.splitOn_append_cons_self, List.forall_mem_append] at h
    exact (h.2 [] (by simp)).1 rfl

/-! ### What stands in front of an extension -/

/-- A text that does not end in white space. -/
def Solid (text : List Char) : Prop := ∀ c ∈ text.getLast?, isWhiteSpace c = false

def Blank (text : List Char) : Prop := ∀ c ∈ text, isWhiteSpace c = true

/-- A dash, with or without white space about it. -/
def Joint (text : List Char) : Prop := ∃ before after, Blank before ∧ Blank after ∧ text = before ++ '-' :: after

/-- Two texts that end in an extension behind something that cannot be part of it. -/
theorem last_unique {a b e e' : List Char} {c d : Char} (he : ∀ x ∈ e, Tight x) (he' : ∀ x ∈ e', Tight x)
    (hc : ¬ Tight c) (hd : ¬ Tight d) (h : a ++ c :: e = b ++ d :: e') : a = b ∧ c = d ∧ e = e' := by
  rcases List.append_eq_append_iff.1 h with ⟨r, rfl, hr⟩ | ⟨r, rfl, hr⟩
  · cases r with
    | nil =>
      obtain ⟨rfl, rfl⟩ := List.cons.inj hr
      exact ⟨(List.append_nil a).symm, rfl, rfl⟩
    | cons x r =>
      obtain ⟨-, rfl⟩ := List.cons.inj hr
      exact absurd (he d (by simp)) hd
  · cases r with
    | nil =>
      obtain ⟨rfl, rfl⟩ := List.cons.inj hr
      exact ⟨List.append_nil b, rfl, rfl⟩
    | cons x r =>
      obtain ⟨-, rfl⟩ := List.cons.inj hr
      exact absurd (he' c (by simp)) hc

theorem exists_solid (text : List Char) : ∃ front blank, text = front ++ blank ∧ Solid front ∧ Blank blank :=
  ⟨text.rdropWhile isWhiteSpace, text.rtakeWhile isWhiteSpace, List.rdropWhile_append_rtakeWhile.symm,
    getLast?_rdropWhile isWhiteSpace text, fun _ hc => List.mem_rtakeWhile_imp hc⟩

theorem Solid.suffix (h : Solid text) {u : List Char} (hne : u ≠ []) (hu : u <:+ text) :
    ∃ c ∈ u, isWhiteSpace c = false := by
  obtain ⟨front, rfl⟩ := hu
  obtain ⟨u, c, rfl⟩ := (List.eq_nil_or_concat' u).resolve_left hne
  exact ⟨c, by simp, h c (by simp)⟩

theorem dropWhile_append_of_exists {u : List Char} (h : ∃ c ∈ u, isWhiteSpace c = false) (rest : List Char) :
    ∃ d v, isWhiteSpace d = false ∧ d :: v <:+ u ∧ (u ++ rest).dropWhile isWhiteSpace = d :: (v ++ rest) := by
  induction u with
  | nil => simp at h
  | cons c u ih =>
    by_cases hc : isWhiteSpace c = true
    · obtain ⟨e, he, hsolid⟩ := h
      have he' : e ∈ u := (List.mem_cons.1 he).resolve_left fun heq => by
        rw [← heq, hsolid] at hc
        cases hc
      obtain ⟨d, v, hd, hsuffix, heq⟩ := ih ⟨e, he', hsolid⟩
      exact ⟨d, v, hd, hsuffix.trans (List.suffix_cons c u), by rw [List.cons_append, List.dropWhile_cons_of_pos hc, heq]⟩
    · exact ⟨c, u, by simpa using hc, List.suffix_rfl, List.dropWhile_cons_of_neg hc⟩

theorem Blank.not_tight (h : Blank blank) (hc : c ∈ blank) : ¬ Tight c := by
  intro htight
  have hwhite := h c hc
  rw [htight.1] at hwhite
  cases hwhite

theorem not_tight_dash : ¬ Tight '-' := fun h => h.2 rfl

theorem not_isExtension_of_mem {u : List Char} (hc : c ∈ u) (hnot : ¬ Tight c) : isCompoundExtension u = false := by
  rw [Bool.eq_false_iff]
  exact fun h => hnot (IsExtension.tight h c hc)

theorem dropWhile_blank (hblank : Blank blank) (hc : isWhiteSpace c = false) (rest : List Char) :
    (blank ++ c :: rest).dropWhile isWhiteSpace = c :: rest := by
  rw [List.dropWhile_append_of_pos hblank, List.dropWhile_cons_of_neg (by simp [hc])]

theorem mem_dropWhile {u : List Char} (hc : c ∈ u) (hsolid : isWhiteSpace c = false) : c ∈ u.dropWhile isWhiteSpace := by
  rw [← List.takeWhile_append_dropWhile (p := isWhiteSpace) (l := u), List.mem_append] at hc
  refine hc.resolve_left fun hmem => ?_
  rw [List.mem_takeWhile_imp hmem] at hsolid
  cases hsolid

theorem unspaced_append (hsolid : Solid front) (hblank : Blank blank) (hne : blank ≠ []) (hext : IsExtension ext) :
    unspaced (front ++ (blank ++ ext)) = front ++ ext := by
  obtain ⟨b, blank, rfl⟩ := List.exists_cons_of_ne_nil hne
  have hnone : ∀ u, u ≠ [] → u <:+ front → straySpace isCompoundExtension (u ++ (b :: blank ++ ext)) = none := by
    intro u hu hsuffix
    obtain ⟨d, v, hd, hv, hdrop⟩ := dropWhile_append_of_exists (hsolid.suffix hu hsuffix) (b :: blank ++ ext)
    obtain ⟨c, u, rfl⟩ := List.exists_cons_of_ne_nil hu
    rw [straySpace, List.cons_append, spaces]
    split_ifs with hc
    · rw [List.cons_append, List.dropWhile_cons_of_pos hc] at hdrop
      rw [Option.bind_some, hdrop, not_isExtension_of_mem (c := b) (by simp) (hblank.not_tight (by simp))]
      rfl
    · rfl
  have hmatch : straySpace isCompoundExtension (b :: blank ++ ext) = some (ext, []) := by
    obtain ⟨rest, rfl⟩ := hext.cons
    have hrest : Blank blank := fun c hc => hblank c (by simp [hc])
    have hdrop := dropWhile_blank hrest (c := '.') (by decide) rest
    rw [straySpace, List.cons_append, spaces, if_pos (hblank b (by simp)), Option.bind_some, hdrop]
    exact if_pos hext
  rw [unspaced, replaceFirst_append hnone, List.cons_append, replaceFirst, ← List.cons_append, hmatch]
  simp

theorem undashed_append (hsolid : Solid front) (hjoint : Joint joint) (hext : IsExtension ext) :
    undashed (front ++ (joint ++ ext)) = front ++ ext := by
  obtain ⟨before, after, hbefore, hafter, rfl⟩ := hjoint
  have hnone : ∀ u, u ≠ [] → u <:+ front →
      danglingDash isCompoundExtension (u ++ (before ++ '-' :: after ++ ext)) = none := by
    intro u hu hsuffix
    obtain ⟨d, v, hd, hv, hdrop⟩ :=
      dropWhile_append_of_exists (hsolid.suffix hu hsuffix) (before ++ '-' :: after ++ ext)
    unfold danglingDash
    rw [hdrop]
    split
    · rename_i more heq
      obtain ⟨-, rfl⟩ := List.cons.inj heq
      dsimp only
      rw [not_isExtension_of_mem (mem_dropWhile (c := '-') (by simp) (by decide)) not_tight_dash]
      rfl
    · rfl
  have hmatch : danglingDash isCompoundExtension (before ++ '-' :: after ++ ext) = some (ext, []) := by
    obtain ⟨rest, rfl⟩ := hext.cons
    have hdrop := dropWhile_blank hafter (c := '.') (by decide) rest
    unfold danglingDash
    rw [List.append_assoc, List.cons_append, dropWhile_blank hbefore (by decide) _]
    change (if isCompoundExtension ((after ++ '.' :: rest).dropWhile isWhiteSpace) = true then
      some ((after ++ '.' :: rest).dropWhile isWhiteSpace, []) else none) = _
    rw [hdrop]
    exact if_pos hext
  obtain ⟨c, more, hcons⟩ := List.exists_cons_of_ne_nil (l := before ++ '-' :: after ++ ext) (by simp)
  rw [undashed, replaceFirst_append hnone, hcons, replaceFirst, ← hcons, hmatch]
  simp

theorem replaceFirst_eq_self {β : Type} {m : Matcher Char β} {f : β → List Char}
    (h : ∀ u, u ≠ [] → u <:+ text → m u = none) : replaceFirst m f text = text := by
  have hnone : ∀ u, u ≠ [] → u <:+ text → m (u ++ []) = none := fun u hu hsuffix => by
    rw [List.append_nil]
    exact h u hu hsuffix
  simpa [replaceFirst] using replaceFirst_append (f := f) hnone

theorem unspaced_eq_self (h : ∀ front blank ext, Blank blank → blank ≠ [] → IsExtension ext →
    text ≠ front ++ (blank ++ ext)) : unspaced text = text := by
  refine replaceFirst_eq_self fun u hu hsuffix => ?_
  obtain ⟨front, rfl⟩ := hsuffix
  obtain ⟨c, u, rfl⟩ := List.exists_cons_of_ne_nil hu
  rw [straySpace, spaces]
  split_ifs with hc
  · refine if_neg fun hext => h front (c :: u.takeWhile isWhiteSpace) _ ?_ (List.cons_ne_nil _ _) hext ?_
    · exact List.forall_mem_cons.2 ⟨hc, fun d hd => List.mem_takeWhile_imp hd⟩
    · rw [List.cons_append, List.takeWhile_append_dropWhile]
  · rfl

theorem undashed_eq_self (h : ∀ front joint ext, Joint joint → IsExtension ext → text ≠ front ++ (joint ++ ext)) :
    undashed text = text := by
  refine replaceFirst_eq_self fun u hu hsuffix => ?_
  obtain ⟨front, rfl⟩ := hsuffix
  unfold danglingDash
  split
  · rename_i more hmore
    refine if_neg fun hext => h front (u.takeWhile isWhiteSpace ++ '-' :: more.takeWhile isWhiteSpace) _ ?_ hext ?_
    · exact ⟨_, _, fun c hc => List.mem_takeWhile_imp hc, fun c hc => List.mem_takeWhile_imp hc, rfl⟩
    · rw [List.append_assoc, List.cons_append, List.takeWhile_append_dropWhile, ← hmore,
        List.takeWhile_append_dropWhile]
  · rfl

/-- A space or a dash in front of an extension. -/
def Loose (text : List Char) : Prop :=
  ∃ front c ext, (c = '-' ∨ c = ' ' ∧ front ≠ []) ∧ IsExtension ext ∧ text = front ++ c :: ext

/-- A dash at the end, or in front of an extension. -/
def Dashed (text : List Char) : Prop := ∃ front ext, (ext = [] ∨ IsExtension ext) ∧ text = front ++ '-' :: ext

/-- The texts that end in something that is taken away by the first run, with something in front of it
that is only taken away by the second. -/
inductive Relapses : List Char → Prop
  | trailing {text tail : List Char} (hloose : Loose text) (hne : tail ≠ []) (htail : ∀ c ∈ tail, c = ' ' ∨ c = '.') :
    Relapses (text ++ tail)
  | space {text blank ext : List Char} (hloose : Loose text) (hblank : Blank blank) (hne : blank ≠ [])
    (hext : IsExtension ext) : Relapses (text ++ (blank ++ ext))
  | dash {text joint ext : List Char} (hdashed : Dashed text) (hjoint : Joint joint) (hext : IsExtension ext) :
    Relapses (text ++ (joint ++ ext))
  | both {text blank ext joint ext' : List Char} (h : Loose text ∨ Dashed text) (hblank : Blank blank)
    (hne : blank ≠ []) (hext : IsExtension ext) (hjoint : Joint joint) (hext' : IsExtension ext') :
    Relapses (text ++ (blank ++ (ext ++ (joint ++ ext'))))

theorem Loose.append (h : Loose text) (hext : IsExtension ext) : Loose (text ++ ext) := by
  obtain ⟨front, c, ext', hc, hext', rfl⟩ := h
  refine ⟨front, c, ext' ++ ext, hc, ?_, by simp⟩
  exact (isExtension_append hext).2 (.inr hext')

theorem Dashed.append (h : Dashed text) (hext : IsExtension ext) : Loose (text ++ ext) := by
  obtain ⟨front, ext', hext', rfl⟩ := h
  exact ⟨front, '-', ext' ++ ext, .inl rfl, (isExtension_append hext).2 hext', by simp⟩

/-- What is loose before an extension is appended to it. -/
theorem Loose.of_append (hext : IsExtension ext) (h : Loose (text ++ ext)) :
    (∃ front r, (r = [] ∨ IsExtension r) ∧ front ≠ [] ∧ text = front ++ ' ' :: r) ∨ Dashed text := by
  obtain ⟨front, c, ext', hc, hext', heq⟩ := h
  have hnot : ¬ Tight c := by
    rcases hc with rfl | ⟨rfl, -⟩
    · exact not_tight_dash
    · exact fun h => absurd h.1 (by decide)
  obtain ⟨r, rfl, hr⟩ : ∃ r, text = front ++ c :: r ∧ ext' = r ++ ext := by
    rcases List.append_eq_append_iff.1 heq with ⟨r, -, hr⟩ | ⟨r, rfl, hr⟩
    · exact absurd (hext.tight c (by rw [hr]; simp)) hnot
    · cases r with
      | nil => exact absurd (hext.tight c (by rw [← List.nil_append ext, ← hr]; simp)) hnot
      | cons d r =>
        obtain ⟨rfl, rfl⟩ := List.cons.inj hr
        exact ⟨r, rfl, rfl⟩
  rw [hr, isExtension_append hext] at hext'
  rcases hc with rfl | ⟨rfl, hne⟩
  · exact .inr ⟨front, r, hext', rfl⟩
  · exact .inl ⟨front, r, hext', hne, rfl⟩

theorem IsExtension.solid (hext : IsExtension ext) (text : List Char) : Solid (text ++ ext) := by
  obtain ⟨front, c, rfl, hc⟩ := hext.last
  intro d hd
  rw [← List.append_assoc, List.getLast?_concat] at hd
  exact Option.some.inj hd ▸ (tight_of_isAlphanum hc).1

theorem Loose.solid (h : Loose text) : Solid text := by
  obtain ⟨front, c, ext, -, hext, rfl⟩ := h
  rw [List.append_cons]
  exact hext.solid _

theorem Dashed.solid (h : Dashed text) : Solid text := by
  obtain ⟨front, ext, rfl | hext, rfl⟩ := h
  · intro c hc
    rw [List.getLast?_concat] at hc
    exact Option.some.inj hc ▸ (by decide)
  · rw [List.append_cons]
    exact hext.solid _

theorem undashed_cases (text : List Char) :
    (∃ front joint ext, Solid front ∧ Joint joint ∧ IsExtension ext ∧ text = front ++ (joint ++ ext) ∧
      undashed text = front ++ ext) ∨
    (∀ front joint ext, Joint joint → IsExtension ext → text ≠ front ++ (joint ++ ext)) ∧ undashed text = text := by
  by_cases h : ∃ front joint ext, Joint joint ∧ IsExtension ext ∧ text = front ++ (joint ++ ext)
  · obtain ⟨front, _, ext, ⟨before, after, hbefore, hafter, rfl⟩, hext, rfl⟩ := h
    obtain ⟨front, blank, rfl, hsolid, hblank⟩ := exists_solid front
    have hjoint : Joint (blank ++ before ++ '-' :: after) :=
      ⟨_, after, List.forall_mem_append.2 ⟨hblank, hbefore⟩, hafter, rfl⟩
    have htext : front ++ blank ++ (before ++ '-' :: after ++ ext) =
        front ++ (blank ++ before ++ '-' :: after ++ ext) := by simp
    left
    rw [htext]
    exact ⟨front, _, ext, hsolid, hjoint, hext, rfl, undashed_append hsolid hjoint hext⟩
  · have hnone : ∀ front joint ext, Joint joint → IsExtension ext → text ≠ front ++ (joint ++ ext) :=
      fun front joint ext hjoint hext heq => h ⟨front, joint, ext, hjoint, hext, heq⟩
    exact .inr ⟨hnone, undashed_eq_self hnone⟩

theorem unspaced_cases (text : List Char) :
    (∃ front blank ext, Solid front ∧ Blank blank ∧ blank ≠ [] ∧ IsExtension ext ∧ text = front ++ (blank ++ ext) ∧
      unspaced text = front ++ ext) ∨
    (∀ front blank ext, Blank blank → blank ≠ [] → IsExtension ext → text ≠ front ++ (blank ++ ext)) ∧
      unspaced text = text := by
  by_cases h : ∃ front blank ext, Blank blank ∧ blank ≠ [] ∧ IsExtension ext ∧ text = front ++ (blank ++ ext)
  · obtain ⟨front, blank, ext, hblank, hne, hext, rfl⟩ := h
    obtain ⟨front, more, rfl, hsolid, hmore⟩ := exists_solid front
    have hall : Blank (more ++ blank) := List.forall_mem_append.2 ⟨hmore, hblank⟩
    have hne' : more ++ blank ≠ [] := by simp [hne]
    left
    rw [List.append_assoc, ← List.append_assoc more]
    exact ⟨front, _, ext, hsolid, hall, hne', hext, rfl, unspaced_append hsolid hall hne' hext⟩
  · have hnone : ∀ front blank ext, Blank blank → blank ≠ [] → IsExtension ext → text ≠ front ++ (blank ++ ext) :=
      fun front blank ext hblank hne hext heq => h ⟨front, blank, ext, hblank, hne, hext, heq⟩
    exact .inr ⟨hnone, unspaced_eq_self hnone⟩

theorem isAlphanum_kept (hc : c.isAlphanum = true) : ¬ (decide (c = ' ') || decide (c = '.')) = true := by
  rw [Bool.or_eq_true, decide_eq_true_eq, decide_eq_true_eq]
  rintro (rfl | rfl)
  · exact absurd hc (by decide)
  · exact absurd hc (by decide)

theorem stripped_append (hext : IsExtension ext) (htail : ∀ c ∈ tail, c = ' ' ∨ c = '.') (text : List Char) :
    stripped (text ++ ext ++ tail) = text ++ ext := by
  obtain ⟨front, c, rfl, hc⟩ := hext.last
  rw [stripped, List.rdropWhile, List.reverse_append, List.dropWhile_append_of_pos (by simpa using htail),
    ← List.rdropWhile, ← List.append_assoc]
  exact List.rdropWhile_concat_neg (fun c => c = ' ' || c = '.') _ _ (isAlphanum_kept hc)

theorem stripped_extension (hext : IsExtension ext) (text : List Char) : stripped (text ++ ext) = text ++ ext := by
  have hstripped : stripped (text ++ ext ++ []) = text ++ ext := stripped_append hext (by simp) text
  rwa [List.append_nil] at hstripped

theorem Solid.not_blank (h : Solid (text ++ blank)) (hblank : Blank blank) : blank = [] := by
  rcases List.eq_nil_or_concat' blank with hnil | ⟨front, c, rfl⟩
  · exact hnil
  · have hc := h c (by simp)
    rw [hblank c (by simp)] at hc
    cases hc

theorem blank_space : Blank [' '] := List.forall_mem_singleton.2 (by decide)

theorem Solid.extension {r : List Char} (h : Solid (front ++ ' ' :: r)) (hr : r = [] ∨ IsExtension r) : IsExtension r := by
  refine hr.resolve_left ?_
  rintro rfl
  exact absurd (h.not_blank blank_space) (by simp)

theorem append_eq_append_extension {front' : List Char} (hsolid : Solid front) (hblank : Blank blank)
    (hne : blank ≠ []) (hext : IsExtension ext) (hext' : IsExtension ext')
    (h : front ++ ext = front' ++ (blank ++ ext')) :
    ∃ r, IsExtension r ∧ front = front' ++ (blank ++ r) ∧ ext' = r ++ ext := by
  rw [← List.append_assoc] at h
  rcases List.append_eq_append_iff.1 h with ⟨r, hr, rfl⟩ | ⟨r, rfl, rfl⟩
  · rcases List.eq_nil_or_concat' blank with hnil | ⟨blank, c, rfl⟩
    · exact absurd hnil hne
    · rcases List.eq_nil_or_concat' r with rfl | ⟨r, d, rfl⟩
      · rw [List.append_nil] at hr
        exact absurd ((hr ▸ hsolid).not_blank hblank) (by simp)
      · rw [← List.append_assoc, ← List.append_assoc] at hr
        obtain rfl : c = d := List.head_eq_of_cons_eq (List.append_inj_right' hr rfl)
        exact absurd (hext.tight c (by simp)) (hblank.not_tight (by simp))
  · refine ⟨r, ((isExtension_append hext).1 hext').resolve_left ?_, List.append_assoc .., rfl⟩
    rintro rfl
    rw [List.append_nil] at hsolid
    exact hne (hsolid.not_blank hblank)

theorem loose_of_space {r : List Char} (hne : front ≠ []) (hr : IsExtension r) : Loose (front ++ ' ' :: r) :=
  ⟨front, ' ', r, .inr ⟨rfl, hne⟩, hr, rfl⟩

theorem relapses_of_loose (h : Loose (stripped (unspaced (undashed text)))) : Relapses text := by
  rcases undashed_cases text with ⟨front, joint, ext, hsolid, hjoint, hext, rfl, hundashed⟩ | ⟨hnodash, hundashed⟩
  · rw [hundashed] at h
    rcases unspaced_cases (front ++ ext) with
      ⟨front', blank, ext', hsolid', hblank, hne, hext', heq, hunspaced⟩ | ⟨hnospace, hunspaced⟩
    · rw [hunspaced, stripped_extension hext'] at h
      obtain ⟨r, hr, rfl, rfl⟩ := append_eq_append_extension hsolid hblank hne hext hext' heq
      have hfront : Loose front' ∨ Dashed front' := by
        refine (h.of_append hext').imp_left ?_
        rintro ⟨f, r', hr', hf, rfl⟩
        exact loose_of_space hf (hsolid'.extension hr')
      rw [List.append_assoc, List.append_assoc]
      exact .both hfront hblank hne hr hjoint hext
    · rw [hunspaced, stripped_extension hext] at h
      refine .dash ((h.of_append hext).resolve_left ?_) hjoint hext
      rintro ⟨f, r, hr, hf, rfl⟩
      refine hnospace f [' '] (r ++ ext) blank_space (List.cons_ne_nil _ _) ?_ (by simp)
      exact (isExtension_append hext).2 (.inr (hsolid.extension hr))
  · rw [hundashed] at h
    rcases unspaced_cases text with ⟨front, blank, ext, hsolid, hblank, hne, hext, rfl, hunspaced⟩ | ⟨hnospace, hunspaced⟩
    · rw [hunspaced, stripped_extension hext] at h
      refine .space ?_ hblank hne hext
      rcases h.of_append hext with ⟨f, r, hr, hf, rfl⟩ | ⟨f, r, rfl | hr, rfl⟩
      · exact loose_of_space hf (hsolid.extension hr)
      · refine absurd (by simp) (hnodash f ('-' :: blank) ext ⟨[], blank, ?_, hblank, rfl⟩ hext)
        exact List.forall_mem_nil _
      · exact ⟨f, '-', r, .inl rfl, hr, rfl⟩
    · rw [hunspaced] at h
      have htext : stripped text ++ text.rtakeWhile (fun c => c = ' ' || c = '.') = text :=
        List.rdropWhile_append_rtakeWhile
      by_cases htail : text.rtakeWhile (fun c => c = ' ' || c = '.') = []
      · rw [htail, List.append_nil] at htext
        rw [htext] at h
        obtain ⟨f, c, ext, hc, hext, rfl⟩ := h
        rcases hc with rfl | ⟨rfl, -⟩
        · exact absurd rfl (hnodash f ['-'] ext ⟨[], [], List.forall_mem_nil _, List.forall_mem_nil _, rfl⟩ hext)
        · exact absurd rfl (hnospace f [' '] ext blank_space (List.cons_ne_nil _ _) hext)
      · rw [← htext]
        refine .trailing h htail fun c hc => ?_
        have hmem := List.mem_rtakeWhile_imp hc
        simpa using hmem

theorem IsExtension.ne_append (hext : IsExtension ext) (hne : tail ≠ []) (htail : ∀ c ∈ tail, c = ' ' ∨ c = '.')
    (text front : List Char) : text ++ tail ≠ front ++ ext := by
  obtain ⟨f, c, rfl, hc⟩ := hext.last
  obtain ⟨tail, d, rfl⟩ := (List.eq_nil_or_concat' tail).resolve_left hne
  intro h
  rw [← List.append_assoc, ← List.append_assoc] at h
  obtain rfl : d = c := List.head_eq_of_cons_eq (List.append_inj_right' h rfl)
  rcases htail d (by simp) with rfl | rfl
  · exact absurd hc (by decide)
  · exact absurd hc (by decide)

theorem solid_unique {front' blank' : List Char} (hsolid : Solid front) (hsolid' : Solid front') (hblank : Blank blank)
    (hblank' : Blank blank') (h : front ++ blank = front' ++ blank') : front = front' := by
  rcases List.append_eq_append_iff.1 h with ⟨r, rfl, rfl⟩ | ⟨r, rfl, rfl⟩
  · have hnil := hsolid'.not_blank fun c hc => hblank c (List.mem_append_left _ hc)
    rw [hnil, List.append_nil]
  · have hnil := hsolid.not_blank fun c hc => hblank' c (List.mem_append_left _ hc)
    rw [hnil, List.append_nil]

theorem Loose.undashed (h : Loose text) (hblank : Blank blank) (hne : blank ≠ []) (hext : IsExtension ext) :
    undashed (text ++ (blank ++ ext)) = text ++ (blank ++ ext) := by
  refine undashed_eq_self ?_
  rintro front _ ext' ⟨before, after, hbefore, hafter, rfl⟩ hext' heq
  obtain ⟨blank, b, rfl⟩ := (List.eq_nil_or_concat' blank).resolve_left hne
  have hb : ¬ Tight b := hblank.not_tight (by simp)
  have hwhite := hblank b (by simp)
  rcases List.eq_nil_or_concat' after with rfl | ⟨after, a, rfl⟩
  · have hlast : (text ++ blank) ++ b :: ext = (front ++ before) ++ '-' :: ext' := by simpa using heq
    obtain ⟨-, rfl, -⟩ := last_unique hext.tight hext'.tight hb not_tight_dash hlast
    exact absurd hwhite (by decide)
  · have hlast : (text ++ blank) ++ b :: ext = (front ++ before ++ '-' :: after) ++ a :: ext' := by simpa using heq
    obtain ⟨hfront, -, -⟩ := last_unique hext.tight hext'.tight hb (hafter.not_tight (by simp)) hlast
    have hdash : Solid (front ++ before ++ ['-']) := by
      intro c hc
      rw [List.getLast?_concat] at hc
      exact Option.some.inj hc ▸ (by decide)
    have htext := solid_unique h.solid hdash (fun c hc => hblank c (by simp [hc])) (fun c hc => hafter c (by simp [hc]))
      (hfront.trans (List.append_cons ..))
    obtain ⟨f, c, e, -, he, rfl⟩ := h
    obtain ⟨e, d, rfl, hd⟩ := he.last
    rw [← List.cons_append, ← List.append_assoc] at htext
    obtain rfl : d = '-' := List.head_eq_of_cons_eq (List.append_inj_right' htext rfl)
    exact absurd hd (by decide)

theorem Dashed.unspaced (h : Dashed text) (hext : IsExtension ext) : unspaced (text ++ ext) = text ++ ext := by
  refine unspaced_eq_self fun front blank ext' hblank hne hext' heq => ?_
  obtain ⟨r, hr, htext, -⟩ := append_eq_append_extension h.solid hblank hne hext hext' heq
  obtain ⟨blank, b, rfl⟩ := (List.eq_nil_or_concat' blank).resolve_left hne
  obtain ⟨f, e, he, rfl⟩ := h
  have htight : ∀ c ∈ e, Tight c := by
    rcases he with rfl | he
    · exact List.forall_mem_nil _
    · exact he.tight
  have hlast : f ++ '-' :: e = (front ++ blank) ++ b :: r := by simpa using htext
  obtain ⟨-, rfl, -⟩ := last_unique htight hr.tight not_tight_dash (hblank.not_tight (by simp)) hlast
  exact absurd (hblank '-' (by simp)) (by decide)

theorem loose_stripped_iff (text : List Char) : Loose (stripped (unspaced (undashed text))) ↔ Relapses text := by
  refine ⟨relapses_of_loose, fun h => ?_⟩
  cases h with
  | @trailing text tail hloose hne htail =>
    have hundashed : undashed (text ++ tail) = text ++ tail := undashed_eq_self fun front joint ext _ hext => by
      rw [← List.append_assoc]
      exact hext.ne_append hne htail _ _
    have hunspaced : unspaced (text ++ tail) = text ++ tail := unspaced_eq_self fun front blank ext _ _ hext => by
      rw [← List.append_assoc]
      exact hext.ne_append hne htail _ _
    rw [hundashed, hunspaced]
    obtain ⟨f, c, ext, hc, hext, rfl⟩ := hloose
    rw [List.append_cons f c ext, stripped_append hext htail, ← List.append_cons]
    exact ⟨f, c, ext, hc, hext, rfl⟩
  | space hloose hblank hne hext =>
    rw [hloose.undashed hblank hne hext, unspaced_append hloose.solid hblank hne hext, stripped_extension hext]
    exact hloose.append hext
  | dash hdashed hjoint hext =>
    rw [undashed_append hdashed.solid hjoint hext, hdashed.unspaced hext, stripped_extension hext]
    exact hdashed.append hext
  | @both text blank ext joint ext' h hblank hne hext hjoint hext' =>
    have hall : IsExtension (ext ++ ext') := (isExtension_append hext').2 (.inr hext)
    have hsolid : Solid text := h.elim Loose.solid Dashed.solid
    have hassoc : text ++ (blank ++ (ext ++ (joint ++ ext'))) = (text ++ blank ++ ext) ++ (joint ++ ext') := by simp
    have hassoc' : (text ++ blank ++ ext) ++ ext' = text ++ (blank ++ (ext ++ ext')) := by simp
    rw [hassoc, undashed_append (hext.solid _) hjoint hext', hassoc', unspaced_append hsolid hblank hne hall,
      stripped_extension hall]
    exact h.elim (fun h => h.append hall) fun h => h.append hall

/-! ### Legible texts -/

/-- No character that is taken away at once, and no two spaces beside each other. -/
structure Legible (text : List Char) : Prop where
  plain : ∀ c ∈ text, Plain c
  apart : text.IsChain fun a b => isWhiteSpace a = true → isWhiteSpace b = false

theorem Legible.part {u : List Char} (h : Legible text) (hu : u <:+: text) : Legible u := by
  obtain ⟨a, b, rfl⟩ := hu
  exact ⟨fun c hc => h.plain c (by simp [hc]), h.apart.left_of_append.right_of_append⟩

theorem Legible.append (h : Legible front) (hlegible : Legible ext) (hext : IsExtension ext) : Legible (front ++ ext) := by
  refine ⟨List.forall_mem_append.2 ⟨h.plain, hlegible.plain⟩, List.isChain_append.2 ⟨h.apart, hlegible.apart, ?_⟩⟩
  rintro a - b hb -
  obtain ⟨rest, rfl⟩ := hext.cons
  exact Option.some.inj hb ▸ (by decide)

theorem squeezed_cons (hc : isWhiteSpace c = false) (text : List Char) :
    replaceAll spaces (fun _ => [' ']) (c :: text) = c :: replaceAll spaces (fun _ => [' ']) text :=
  replaceAll_cons (if_neg (by simp [hc]))

theorem squeezed_space (hc : isWhiteSpace c = true) (text : List Char) :
    replaceAll spaces (fun _ => [' ']) (c :: text) =
      ' ' :: replaceAll spaces (fun _ => [' ']) (text.dropWhile isWhiteSpace) :=
  replaceAll_match consumes_spaces (if_pos hc)

theorem apart_squeezed (text : List Char) :
    (replaceAll spaces (fun _ => [' ']) text).IsChain fun a b => isWhiteSpace a = true → isWhiteSpace b = false := by
  induction hn : text.length using Nat.strong_induction_on generalizing text with
  | h n ih =>
    cases text with
    | nil => exact .nil
    | cons c text =>
      rw [List.length_cons] at hn
      cases hc : isWhiteSpace c with
      | false =>
        rw [squeezed_cons hc]
        refine List.isChain_cons.2 ⟨fun b _ hwhite => ?_, ih _ (by omega) text rfl⟩
        rw [hc] at hwhite
        cases hwhite
      | true =>
        have hlength := (List.dropWhile_suffix isWhiteSpace (l := text)).length_le
        rw [squeezed_space hc]
        refine List.isChain_cons.2 ⟨fun b hb _ => ?_, ih _ (by omega) _ rfl⟩
        have hhead := head?_dropWhile isWhiteSpace text
        cases hdrop : text.dropWhile isWhiteSpace with
        | nil =>
          rw [hdrop] at hb
          cases hb
        | cons d rest =>
          have hd := hhead d (by rw [hdrop]; rfl)
          rw [hdrop, squeezed_cons hd] at hb
          exact Option.some.inj hb ▸ hd

theorem legible_spec (input : List Char) : Legible (legible input) := ⟨plain_collapsed input, apart_squeezed _⟩

theorem squeezed_eq_self (h : Legible text) : replaceAll spaces (fun _ => [' ']) text = text := by
  induction text with
  | nil => rfl
  | cons c text ih =>
    have hrest := ih (h.part (List.suffix_cons c text).isInfix)
    cases hc : isWhiteSpace c with
    | false => rw [squeezed_cons hc, hrest]
    | true =>
      have hnext : text.dropWhile isWhiteSpace = text := by
        cases text with
        | nil => rfl
        | cons d rest => exact List.dropWhile_cons_of_neg (by simp [(List.isChain_cons_cons.1 h.apart).1 hc])
      rw [squeezed_space hc, hnext, hrest, (h.plain c (by simp)).2.2 hc]

theorem legible_eq_self (h : Legible text) : legible text = text := by
  have hfilter : text.filter (!isControl ·) = text := List.filter_eq_self.2 fun c hc => by
    rw [(h.plain c hc).1]
    rfl
  have hmap : text.map (fun c => if isIllegal c then ' ' else c) = text := by
    refine (List.map_congr_left fun c hc => ?_).trans (List.map_id text)
    rw [(h.plain c hc).2.1]
    rfl
  rw [legible, hfilter, hmap, squeezed_eq_self h]

theorem Legible.undashed (h : Legible text) : Legible (undashed text) := by
  rcases undashed_cases text with ⟨front, joint, ext, -, -, hext, rfl, heq⟩ | ⟨-, heq⟩
  · rw [heq]
    refine (h.part (List.prefix_append ..).isInfix).append (h.part ?_) hext
    exact ((List.suffix_append joint ext).trans (List.suffix_append ..)).isInfix
  · rwa [heq]

theorem Legible.unspaced (h : Legible text) : Legible (unspaced text) := by
  rcases unspaced_cases text with ⟨front, blank, ext, -, -, -, hext, rfl, heq⟩ | ⟨-, heq⟩
  · rw [heq]
    refine (h.part (List.prefix_append ..).isInfix).append (h.part ?_) hext
    exact ((List.suffix_append blank ext).trans (List.suffix_append ..)).isInfix
  · rwa [heq]

theorem Legible.stripped (h : Legible text) : Legible (stripped text) := h.part (List.rdropWhile_prefix _ _).isInfix

theorem Legible.solid_stripped (h : Legible text) : Solid (SanitizedAgain.stripped text) := by
  intro c hc
  by_contra hwhite
  have hspace := (h.stripped.plain c (List.mem_of_getLast? hc)).2.2 (by simpa using hwhite)
  have hkept := getLast?_rdropWhile _ text c hc
  rw [hspace] at hkept
  cases hkept

theorem trimmed_eq (h : Solid text) : trimmed text = text.dropWhile isWhiteSpace := trimmed_of_last h

theorem loose_trimmed_iff (h : Legible text) (hsolid : Solid text) : Loose (trimmed text) ↔ Loose text := by
  rw [trimmed_eq hsolid]
  cases text with
  | nil => rfl
  | cons c text =>
    cases hc : isWhiteSpace c with
    | false => rw [List.dropWhile_cons_of_neg (by simp [hc])]
    | true =>
      cases text with
      | nil => exact absurd (hsolid c rfl) (by simp [hc])
      | cons d rest =>
        have hd : isWhiteSpace d = false := (List.isChain_cons_cons.1 h.apart).1 hc
        obtain rfl : c = ' ' := (h.plain c (by simp)).2.2 hc
        rw [List.dropWhile_cons_of_pos hc, List.dropWhile_cons_of_neg (by simp [hd])]
        constructor
        · rintro ⟨front, e, ext, he, hext, heq⟩
          refine ⟨' ' :: front, e, ext, he.imp_right fun h => ⟨h.1, List.cons_ne_nil _ _⟩, hext, ?_⟩
          rw [heq, List.cons_append]
        · rintro ⟨front, e, ext, he, hext, heq⟩
          cases front with
          | nil =>
            obtain ⟨rfl, -⟩ := List.cons.inj heq
            exact absurd he (by simp)
          | cons _ front =>
            obtain ⟨-, heq⟩ := List.cons.inj heq
            refine ⟨front, e, ext, he.imp_right fun h => ⟨h.1, ?_⟩, hext, heq⟩
            rintro rfl
            obtain ⟨rfl, -⟩ := List.cons.inj heq
            rw [h.1] at hd
            exact absurd hd (by decide)

/-! ### The second run -/

theorem length_unspaced_le (text : List Char) : (unspaced text).length ≤ text.length :=
  (replaceFirst_sublist (f := id) (straySpace_sublist isCompoundExtension) text).length_le

theorem length_tidied_le (text : List Char) : (tidied text).length ≤ (unspaced (undashed text)).length :=
  ((List.rdropWhile_prefix _ _).length_le.trans (List.dropWhile_suffix _).length_le).trans
    (List.rdropWhile_prefix _ _).length_le

theorem undashed_ne_self (hjoint : Joint joint) (hext : IsExtension ext) :
    undashed (front ++ (joint ++ ext)) ≠ front ++ (joint ++ ext) := by
  rcases undashed_cases (front ++ (joint ++ ext)) with
    ⟨front', joint', ext', -, ⟨_, _, -, -, rfl⟩, -, heq, hundashed⟩ | ⟨hnone, -⟩
  · rw [hundashed, heq]
    intro hself
    have hlength := congrArg List.length hself
    simp only [List.length_append, List.length_cons] at hlength
    omega
  · exact absurd rfl (hnone front joint ext hjoint hext)

theorem unspaced_ne_self (hblank : Blank blank) (hne : blank ≠ []) (hext : IsExtension ext) :
    unspaced (front ++ (blank ++ ext)) ≠ front ++ (blank ++ ext) := by
  rcases unspaced_cases (front ++ (blank ++ ext)) with
    ⟨front', blank', ext', -, -, hne', -, heq, hunspaced⟩ | ⟨hnone, -⟩
  · rw [hunspaced, heq]
    intro hself
    have hlength := congrArg List.length hself
    have hpos := List.length_pos_iff.2 hne'
    simp only [List.length_append] at hlength
    omega
  · exact absurd rfl (hnone front blank ext hblank hne hext)

/-- A text that a run leaves as it is has nothing in front of its extension to be taken away. -/
theorem eq_of_tidied (h : tidied text = text) : undashed text = text ∧ unspaced text = text := by
  have hundashed : undashed text = text := by
    refine (replaceFirst_sublist (f := id) (danglingDash_sublist isCompoundExtension) text).eq_of_length_le ?_
    have hle := (length_tidied_le text).trans (length_unspaced_le _)
    rwa [h] at hle
  refine ⟨hundashed, (replaceFirst_sublist (f := id) (straySpace_sublist isCompoundExtension) text).eq_of_length_le ?_⟩
  have hle := length_tidied_le text
  rwa [h, hundashed] at hle

theorem tidied_eq_self_iff (h : Legible text) (hhead : ∀ c ∈ text.head?, isWhiteSpace c = false)
    (hlast : ∀ c ∈ text.getLast?, c ≠ ' ' ∧ c ≠ '.') : tidied text = text ↔ ¬ Loose text := by
  constructor
  · rintro htidied ⟨front, c, ext, hc, hext, rfl⟩
    obtain ⟨hundashed, hunspaced⟩ := eq_of_tidied htidied
    rcases hc with rfl | ⟨rfl, -⟩
    · exact undashed_ne_self ⟨[], [], List.forall_mem_nil _, List.forall_mem_nil _, rfl⟩ hext hundashed
    · exact unspaced_ne_self blank_space (List.cons_ne_nil _ _) hext hunspaced
  · intro hloose
    have hundashed : undashed text = text := by
      refine undashed_eq_self ?_
      rintro front _ ext ⟨before, after, hbefore, hafter, rfl⟩ hext rfl
      rcases List.eq_nil_or_concat' after with rfl | ⟨after, c, rfl⟩
      · exact hloose ⟨front ++ before, '-', ext, .inl rfl, hext, by simp⟩
      · obtain rfl : c = ' ' := (h.plain c (by simp)).2.2 (hafter c (by simp))
        exact hloose ⟨front ++ before ++ '-' :: after, ' ', ext, .inr ⟨rfl, by simp⟩, hext, by simp⟩
    have hunspaced : unspaced text = text := by
      refine unspaced_eq_self ?_
      rintro front blank ext hblank hne hext rfl
      obtain ⟨blank, c, rfl⟩ := (List.eq_nil_or_concat' blank).resolve_left hne
      obtain rfl : c = ' ' := (h.plain c (by simp)).2.2 (hblank c (by simp))
      refine hloose ⟨front ++ blank, ' ', ext, .inr ⟨rfl, fun hnil => ?_⟩, hext, by simp⟩
      have hwhite := hhead ' ' (by
        rw [← List.append_assoc, ← List.append_assoc, hnil]
        rfl)
      exact absurd hwhite (by decide)
    have hstripped : stripped text = text := by
      refine List.rdropWhile_eq_self_iff.2 fun hne => ?_
      have hkept := hlast _ (List.getLast?_eq_some_getLast hne)
      simpa using hkept
    have hsolid : Solid text := hstripped ▸ h.solid_stripped
    rw [tidied, hundashed, hunspaced, hstripped, trimmed_eq hsolid]
    cases text with
    | nil => rfl
    | cons c text => exact List.dropWhile_cons_of_neg (by simp [hhead c rfl])

/-- Sanitising again changes nothing just when the segment does not relapse. -/
theorem sanitizeSegment_idempotent_iff (input : List Char) :
    sanitizeSegment (sanitizeSegment input) = sanitizeSegment input ↔ ¬ Relapses (legible input) := by
  have hlegible := legible_spec input
  have hstripped := hlegible.undashed.unspaced.stripped
  have hsolid := hlegible.undashed.unspaced.solid_stripped
  have hagain : Legible (sanitizeSegment input) := by
    rw [sanitizeSegment_eq, tidied, trimmed_eq hsolid]
    exact hstripped.part (List.dropWhile_suffix _).isInfix
  have hends : (∀ c ∈ (sanitizeSegment input).head?, isWhiteSpace c = false) ∧
      ∀ c ∈ (sanitizeSegment input).getLast?, c ≠ ' ' ∧ c ≠ '.' := by
    by_cases hnil : sanitizeSegment input = []
    · rw [hnil]
      exact ⟨nofun, nofun⟩
    · have hsafe := safe_sanitizeSegment input hnil
      refine ⟨fun c hc => ?_, hsafe.last⟩
      by_contra hwhite
      exact hsafe.head c hc ((hagain.plain c (List.mem_of_head? hc)).2.2 (by simpa using hwhite))
  rw [sanitizeSegment_eq (sanitizeSegment input), legible_eq_self hagain, tidied_eq_self_iff hagain hends.1 hends.2,
    ← loose_stripped_iff, ← loose_trimmed_iff hstripped hsolid]
  rfl

/-- The point after the extension hides it from the rules that take the space away. -/
theorem sanitizeSegment_twice : ¬ ∀ input, sanitizeSegment (sanitizeSegment input) = sanitizeSegment input := by
  intro h
  have hquestion := h "Et Tu, Doctor?.mp4.".toList
  revert hquestion
  decide +kernel

end UltraTorrent.MediaRenamer.SanitizedAgain
