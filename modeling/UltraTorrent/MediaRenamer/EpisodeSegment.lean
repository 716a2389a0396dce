import UltraTorrent.Library.Segments
import UltraTorrent.MediaRenamer.RenderedSegments

/-! The part of a name that says which episode it is. What a segment is tidied and made fit with sees
neither past the letter before the season nor past its digits: they stay, and what stands in front of
them does not depend on what follows. -/
namespace UltraTorrent.MediaRenamer.EpisodeSegment

open Library.Replacement Library.WhiteSpace RenderTemplate RenderedSegments

variable {text u v w d rest : List Char} {c s : Char}

/-! ### Blocks -/

/-- What stands between the letter `S` and the rest of a name. -/
structure Block (d : List Char) : Prop where
  ne_nil : d ≠ []
  solid : ∀ c ∈ d, c.isDigit = true ∨ c = 'E'

/-- A rest that does not go on with the number. -/
def Apart (rest : List Char) : Prop := ∀ c ∈ rest.head?, c = ' ' ∨ c = '.'

/-- The step leaves the block, and does the same in front of it whatever follows. -/
structure Keeps (T : List Char → List Char) : Prop where
  apart : ∀ rest, Apart rest → Apart (T rest)
  block : ∀ w, ∃ w', ∀ d rest, Block d → Apart rest →
    T (w ++ ' ' :: 'S' :: (d ++ rest)) = w' ++ ' ' :: 'S' :: (d ++ T rest)

theorem Keeps.comp {T T' : List Char → List Char} (hT : Keeps T) (hT' : Keeps T') :
    Keeps fun text => T' (T text) where
  apart rest hrest := hT'.apart _ (hT.apart rest hrest)
  block w := by
    obtain ⟨w₁, h₁⟩ := hT.block w
    obtain ⟨w₂, h₂⟩ := hT'.block w₁
    refine ⟨w₂, fun d rest hd hrest => ?_⟩
    rw [h₁ d rest hd hrest, h₂ d _ hd (hT.apart rest hrest)]

/-- Neither white space, a dash nor a dot, and fit for a file system. -/
structure Solid (c : Char) : Prop where
  notSpace : isWhiteSpace c = false
  notDash : c ≠ '-'
  notDot : c ≠ '.'
  notControl : isControl c = false
  legal : isIllegal c = false

theorem solid_of_isDigit (h : c.isDigit = true) : Solid c := by
  simp only [Char.isDigit, Bool.and_eq_true, decide_eq_true_eq, ge_iff_le, UInt32.le_iff_toNat_le] at h
  have htoNat : c.toNat = c.val.toNat := rfl
  have h0 : '0'.val.toNat = 48 := rfl
  have h9 : '9'.val.toNat = 57 := rfl
  have hne : ∀ x : Char, x.toNat < 48 ∨ 57 < x.toNat → c ≠ x := by
    rintro x hx rfl
    omega
  constructor
  · simp only [isWhiteSpace, Bool.or_eq_false_iff, Bool.and_eq_false_iff, decide_eq_false_iff_not]
    omega
  · exact hne '-' (by decide)
  · exact hne '.' (by decide)
  · simp only [isControl, Bool.or_eq_false_iff, Bool.and_eq_false_iff, decide_eq_false_iff_not]
    omega
  · simp only [isIllegal, List.contains_eq_mem, decide_eq_false_iff_not, List.mem_cons, List.not_mem_nil,
      or_false, not_or]
    refine ⟨?_, ?_, ?_, ?_, ?_, ?_, ?_, ?_, ?_⟩ <;> exact hne _ (by decide)

theorem solid_S : Solid 'S' := ⟨by decide, by decide, by decide, by decide, by decide⟩

theorem Block.isSolid (h : Block d) (hc : c ∈ d) : Solid c := by
  rcases h.solid c hc with hdigit | rfl
  · exact solid_of_isDigit hdigit
  · exact ⟨by decide, by decide, by decide, by decide, by decide⟩

theorem apart_nil : Apart [] := nofun

theorem apart_cons (h : c = ' ' ∨ c = '.') : Apart (c :: rest) := by
  rintro c' hc'
  rw [List.head?_cons, Option.mem_some_iff] at hc'
  exact hc' ▸ h

theorem Apart.cases (h : Apart rest) : rest = [] ∨ ∃ c more, (c = ' ' ∨ c = '.') ∧ rest = c :: more := by
  cases rest with
  | nil => exact .inl rfl
  | cons c more => exact .inr ⟨c, more, h c rfl, rfl⟩

theorem Apart.of_append (h : Apart (u ++ v)) : Apart u := by
  intro c hc
  exact h c (by rw [List.head?_append, hc, Option.some_or]; rfl)

/-! ### Characters one by one -/

/-- A step that looks at one character at a time. -/
theorem keeps_flatMap {f : Char → List Char} (hspace : f ' ' = [' ']) (hdot : f '.' = ['.'])
    (hsolid : ∀ c, Solid c → f c = [c]) : Keeps fun text => text.flatMap f where
  apart rest hrest := by
    rcases hrest.cases with rfl | ⟨c, more, rfl | rfl, rfl⟩
    · exact apart_nil
    · rw [List.flatMap_cons, hspace]
      exact apart_cons (.inl rfl)
    · rw [List.flatMap_cons, hdot]
      exact apart_cons (.inr rfl)
  block w := by
    refine ⟨w.flatMap f, fun d rest hd hrest => ?_⟩
    have hblock : d.flatMap f = d := by
      rw [List.flatMap_congr fun c hc => hsolid c (hd.isSolid hc), List.flatMap_singleton']
    simp only [List.flatMap_append, List.flatMap_cons, hspace, hsolid 'S' solid_S, hblock,
      List.singleton_append]

theorem keeps_filter_control : Keeps (List.filter (!isControl ·)) := by
  have heq : (List.filter (!isControl ·)) = fun text => text.flatMap fun c => if isControl c then [] else [c] := by
    funext text
    induction text with
    | nil => rfl
    | cons c text ih => cases hc : isControl c <;> simp [hc, ih]
  rw [heq]
  exact keeps_flatMap rfl rfl fun c hc => by rw [if_neg (by simp [hc.notControl])]

theorem keeps_map_illegal : Keeps (List.map fun c => if isIllegal c then ' ' else c) := by
  have h : Keeps fun text => text.flatMap fun c => [if isIllegal c then ' ' else c] :=
    keeps_flatMap rfl rfl fun c hc => by rw [if_neg (by simp [hc.legal])]
  simpa only [← List.map_eq_flatMap] using h

/-! ### Matches in front of the block -/

theorem dropWhile_append_stop {p : Char → Bool} (hs : p s = false) (u v : List Char) :
    (u ++ s :: v).dropWhile p = u.dropWhile p ++ s :: v := by
  induction u with
  | nil => rw [List.nil_append, List.dropWhile_cons_of_neg (by simp [hs]), List.dropWhile_nil, List.nil_append]
  | cons c u ih =>
    cases hc : p c with
    | true => simpa [hc] using ih
    | false => simp [hc]

theorem stopsAt_spaces (hs : Solid s) : StopsAt spaces s := by
  intro u
  cases u with
  | nil => exact .inl fun v => by rw [List.nil_append, spaces, if_neg (by simp [hs.notSpace])]
  | cons c u =>
    by_cases hc : isWhiteSpace c = true
    · refine .inr ⟨c :: u.takeWhile isWhiteSpace, (), u.dropWhile isWhiteSpace, List.cons_ne_nil _ _, ?_,
        fun v => ?_⟩
      · rw [List.cons_append, List.takeWhile_append_dropWhile]
      · rw [List.cons_append, spaces, if_pos hc, dropWhile_append_stop hs.notSpace]
    · exact .inl fun v => by rw [List.cons_append, spaces, if_neg hc]

theorem dropWhile_space_cases (hs : Solid s) (u : List Char) :
    (∀ v, (u ++ s :: v).dropWhile isWhiteSpace = s :: v) ∨
      ∃ c more, (∃ front, u = front ++ c :: more) ∧
        ∀ v, (u ++ s :: v).dropWhile isWhiteSpace = c :: (more ++ s :: v) := by
  cases hdrop : u.dropWhile isWhiteSpace with
  | nil => exact .inl fun v => by rw [dropWhile_append_stop hs.notSpace, hdrop, List.nil_append]
  | cons c more =>
    refine .inr ⟨c, more, ⟨u.takeWhile isWhiteSpace, ?_⟩, fun v => ?_⟩
    · rw [← hdrop, List.takeWhile_append_dropWhile]
    · rw [dropWhile_append_stop hs.notSpace, hdrop, List.cons_append]

theorem doubledDash_first (h : text.dropWhile isWhiteSpace = c :: rest) (hc : c ≠ '-') :
    doubledDash text = none := by
  unfold doubledDash
  rw [h]
  split
  · rename_i heq
    exact absurd (List.cons.inj heq).1 hc
  · rfl

theorem doubledDash_second (h : text.dropWhile isWhiteSpace = '-' :: rest)
    (h' : rest.dropWhile isWhiteSpace = c :: u) (hc : c ≠ '-') : doubledDash text = none := by
  unfold doubledDash
  rw [h]
  split
  · rename_i last heq
    obtain ⟨-, rfl⟩ := List.cons.inj heq
    rw [h']
    split
    · rename_i heq
      exact absurd (List.cons.inj heq).1 hc
    · rfl
  · rfl

theorem doubledDash_match (h : text.dropWhile isWhiteSpace = '-' :: rest)
    (h' : rest.dropWhile isWhiteSpace = '-' :: u) :
    doubledDash text = some ((), u.dropWhile isWhiteSpace) := by
  simp only [doubledDash, h, h']

theorem stopsAt_doubledDash (hs : Solid s) : StopsAt doubledDash s := by
  intro u
  rcases dropWhile_space_cases hs u with hnone | ⟨c, more, ⟨front, rfl⟩, hfirst⟩
  · exact .inl fun v => doubledDash_first (hnone v) hs.notDash
  by_cases hc : c = '-'
  · subst hc
    rcases dropWhile_space_cases hs more with hnone | ⟨c, more', ⟨front', rfl⟩, hsecond⟩
    · exact .inl fun v => doubledDash_second (hfirst v) (hnone v) hs.notDash
    by_cases hc : c = '-'
    · subst hc
      refine .inr ⟨front ++ '-' :: (front' ++ '-' :: more'.takeWhile isWhiteSpace), (),
        more'.dropWhile isWhiteSpace, by simp, by simp, fun v => ?_⟩
      rw [doubledDash_match (hfirst v) (hsecond v), dropWhile_append_stop hs.notSpace]
    · exact .inl fun v => doubledDash_second (hfirst v) (hsecond v) hc
  · exact .inl fun v => doubledDash_first (hfirst v) hc

theorem consumes_doubledDash : Consumes doubledDash := by
  intro text b rest h
  unfold doubledDash at h
  split at h
  · rename_i more hmore
    split at h
    · rename_i last hlast
      cases h
      refine ⟨text.takeWhile isWhiteSpace ++ '-' :: (more.takeWhile isWhiteSpace ++
        '-' :: last.takeWhile isWhiteSpace), by simp, ?_⟩
      simp only [List.append_assoc, List.cons_append, List.takeWhile_append_dropWhile]
      rw [← hlast, List.takeWhile_append_dropWhile, ← hmore, List.takeWhile_append_dropWhile]
    · cases h
  · cases h

theorem keeps_replaceAll {β : Type*} {m : Matcher Char β} {f : β → List Char} (hm : Consumes m)
    (hstop : ∀ s, Solid s → StopsAt m s) (hend : ∀ b, ∃ g, f b = g ++ [' '])
    (hbegin : ∀ b, ∃ g, f b = ' ' :: g) : Keeps (replaceAll m f) where
  apart rest hrest := by
    rcases hrest.cases with rfl | ⟨c, more, hc, rfl⟩
    · exact apart_nil
    · cases hmatch : m (c :: more) with
      | none =>
        rw [replaceAll_cons hmatch]
        exact apart_cons hc
      | some result =>
        obtain ⟨g, hg⟩ := hbegin result.1
        rw [replaceAll_match hm hmatch, hg]
        exact apart_cons (.inl rfl)
  block w := by
    obtain ⟨w', hw'⟩ := (hstop 'S' solid_S).replaceAll_append hm hend w
    refine ⟨w', fun d rest hd hrest => ?_⟩
    have hblock : ∀ d', (∀ c ∈ d', Solid c) → replaceAll m f (d' ++ rest) = d' ++ replaceAll m f rest := by
      intro d' hsolid
      induction d' with
      | nil => rfl
      | cons c d' ih =>
        rw [List.forall_mem_cons] at hsolid
        rw [List.cons_append, (hstop c hsolid.1).replaceAll_cons, ih hsolid.2, List.cons_append]
    rw [hw', hblock d fun c hc => hd.isSolid hc]

/-! ### Matches that go to the end -/

/-- An ending starts with a dot and has no space in it. -/
structure IsEnding (ending : List Char → Bool) : Prop where
  dot : ∀ text, ending text = true → text.head? = some '.'
  noSpace : ∀ text, ending text = true → ' ' ∉ text

theorem isEnding_word : IsEnding isWordExtension := by
  constructor <;> intro text h
  · unfold isWordExtension at h
    split at h
    · rfl
    · cases h
  · unfold isWordExtension at h
    split at h
    · rw [Bool.and_eq_true] at h
      intro hspace
      rw [List.mem_cons] at hspace
      exact absurd (List.all_eq_true.1 h.2 ' ' (hspace.resolve_left (by decide))) (by decide)
    · cases h

theorem isEnding_compound : IsEnding isCompoundExtension := by
  constructor <;> intro text h
  · unfold isCompoundExtension at h
    split at h
    · rfl
    · cases h
  · unfold isCompoundExtension at h
    split at h
    · rename_i rest
      intro hspace
      rw [List.mem_cons] at hspace
      obtain ⟨part, hpart, hmem⟩ := (Library.Segments.mem_of_mem_splitOn '.'
        (hspace.resolve_left (by decide))).resolve_left (by decide)
      have hall := List.all_eq_true.1 h part hpart
      rw [Bool.and_eq_true] at hall
      exact absurd (List.all_eq_true.1 hall.2 ' ' hmem) (by decide)
    · cases h

/-- No match begins in front of the block or in it. -/
structure Blind {β : Type*} (m : Matcher Char β) : Prop where
  before : ∀ u v, m (u ++ ' ' :: 'S' :: v) = none
  within : ∀ c v, Solid c → m (c :: v) = none

theorem Blind.none_of_suffix {β : Type*} {m : Matcher Char β} (hm : Blind m) (hd : Block d)
    (hne : u ≠ []) (hsuffix : u <:+ w ++ ' ' :: 'S' :: d) : m (u ++ rest) = none := by
  have hsolid : ∀ c ∈ 'S' :: d, Solid c := List.forall_mem_cons.2 ⟨solid_S, fun c hc => hd.isSolid hc⟩
  obtain ⟨front, hfront⟩ := hsuffix
  by_cases hlength : u.length ≤ ('S' :: d).length
  · obtain ⟨c, u, rfl⟩ := List.exists_cons_of_ne_nil hne
    have hmem : c :: u <:+ 'S' :: d :=
      List.suffix_of_suffix_length_le ⟨front, hfront⟩ ⟨w ++ [' '], by simp⟩ hlength
    exact hm.within c _ (hsolid c (hmem.subset List.mem_cons_self))
  · have hlong : ' ' :: 'S' :: d <:+ u :=
      List.suffix_of_suffix_length_le ⟨w, rfl⟩ ⟨front, hfront⟩ (by
        rw [List.length_cons]
        omega)
    obtain ⟨w', rfl⟩ := hlong
    rw [List.append_assoc]
    exact hm.before w' _

variable {ending : List Char → Bool}

/-- An ending cannot begin at the letter, nor in front of the space before it. -/
theorem IsEnding.eq_false (h : IsEnding ending) (u v : List Char) :
    ending ('S' :: v) = false ∧ ending (u ++ ' ' :: 'S' :: v) = false := by
  constructor
  · rw [Bool.eq_false_iff]
    intro hS
    exact absurd (h.dot _ hS) (by simp)
  · rw [Bool.eq_false_iff]
    intro hspace
    exact h.noSpace _ hspace (by simp)

theorem dropWhile_before (u v : List Char) :
    (u ++ ' ' :: 'S' :: v).dropWhile isWhiteSpace = 'S' :: v ∨
      ∃ u', (u ++ ' ' :: 'S' :: v).dropWhile isWhiteSpace = u' ++ ' ' :: 'S' :: v := by
  have hstop := dropWhile_append_stop (show isWhiteSpace 'S' = false by decide) (u ++ [' ']) v
  rw [List.append_assoc, List.singleton_append] at hstop
  rw [hstop]
  by_cases hall : ∀ c ∈ u, isWhiteSpace c = true
  · left
    have hnil : (u ++ [' ']).dropWhile isWhiteSpace = [] := by
      rw [List.dropWhile_eq_nil_iff]
      intro c hc
      rcases List.mem_append.1 hc with hc | hc
      · exact hall c hc
      · rw [List.mem_singleton.1 hc]
        decide
    rw [hnil, List.nil_append]
  · right
    have hne : (u.dropWhile isWhiteSpace).isEmpty = false := by
      rw [List.isEmpty_eq_false_iff, Ne, List.dropWhile_eq_nil_iff]
      exact hall
    exact ⟨u.dropWhile isWhiteSpace, by
      rw [List.dropWhile_append, hne, if_neg Bool.false_ne_true, List.append_assoc, List.singleton_append]⟩

theorem danglingDash_of_ne (h : text.dropWhile isWhiteSpace = c :: rest) (hc : c ≠ '-') :
    danglingDash ending text = none := by
  unfold danglingDash
  rw [h]
  split
  · rename_i heq
    exact absurd (List.cons.inj heq).1 hc
  · rfl

theorem danglingDash_of_dash (h : text.dropWhile isWhiteSpace = '-' :: rest)
    (hending : ending (rest.dropWhile isWhiteSpace) = false) : danglingDash ending text = none := by
  simp only [danglingDash, h, hending]
  rfl

theorem blind_danglingDash (h : IsEnding ending) : Blind (danglingDash ending) where
  before u v := by
    rcases dropWhile_before u v with hdrop | ⟨u', hdrop⟩
    · exact danglingDash_of_ne hdrop (by decide)
    cases u' with
    | nil => exact danglingDash_of_ne hdrop (by decide)
    | cons c u' =>
      by_cases hc : c = '-'
      · subst hc
        rw [List.cons_append] at hdrop
        refine danglingDash_of_dash hdrop ?_
        rcases dropWhile_before u' v with hlast | ⟨u'', hlast⟩ <;> rw [hlast]
        · exact (h.eq_false [] v).1
        · exact (h.eq_false u'' v).2
      · exact danglingDash_of_ne hdrop hc
  within c v hc :=
    danglingDash_of_ne (List.dropWhile_cons_of_neg (by simp [hc.notSpace])) hc.notDash

theorem spaces_of_solid {v : List Char} (hc : Solid c) : spaces (c :: v) = none := by
  rw [spaces, if_neg (by simp [hc.notSpace])]

theorem spaces_eq {found : Unit × List Char} (h : spaces text = some found) :
    found.2 = text.dropWhile isWhiteSpace := by
  cases text with
  | nil => cases h
  | cons c text =>
    rw [spaces] at h
    split_ifs at h with hc
    cases h
    rw [List.dropWhile_cons_of_pos hc]

theorem blind_straySpace (h : IsEnding ending) : Blind (straySpace ending) where
  before u v := by
    rw [straySpace, Option.bind_eq_none_iff]
    intro found hfound
    rw [spaces_eq hfound, if_neg]
    rcases dropWhile_before u v with hlast | ⟨u', hlast⟩ <;> rw [hlast]
    · simp [(h.eq_false [] v).1]
    · simp [(h.eq_false u' v).2]
  within c v hc := by rw [straySpace, spaces_of_solid hc, Option.bind_none]

theorem blind_trailingDash : Blind trailingDash where
  before u v := by
    rw [trailingDash, Option.bind_eq_none_iff]
    intro found hfound
    rw [spaces_eq hfound]
    have hnot : ∀ more : List Char, 'S' ∈ more → more.all isWhiteSpace = false := fun more hmem =>
      List.all_eq_false.2 ⟨'S', hmem, by decide⟩
    split
    · rename_i more hmore
      rw [if_neg]
      have hS : 'S' ∈ more := by
        rcases dropWhile_before u v with hlast | ⟨u', hlast⟩ <;> rw [hlast] at hmore
        · cases hmore
        · cases u' with
          | nil => cases hmore
          | cons c u' =>
            rw [← (List.cons.inj hmore).2]
            simp
      simp [hnot more hS]
    · rfl
  within c v hc := by rw [trailingDash, spaces_of_solid hc, Option.bind_none]

theorem keeps_replaceFirst {β : Type*} {m : Matcher Char β} {f : β → List Char} (hm : Blind m)
    (hf : ∀ text b rest, m text = some (b, rest) → Apart (f b ++ rest)) : Keeps (replaceFirst m f) where
  apart rest hrest := by
    rcases hrest.cases with rfl | ⟨c, more, hc, rfl⟩
    · exact apart_nil
    · rw [replaceFirst]
      split
      · exact apart_cons hc
      · rename_i hmatch
        exact hf _ _ _ hmatch
  block w := by
    refine ⟨w, fun d rest hd hrest => ?_⟩
    have hnone : ∀ u, u ≠ [] → u <:+ w ++ ' ' :: 'S' :: d → m (u ++ rest) = none :=
      fun u hne hsuffix => hm.none_of_suffix hd hne hsuffix
    simpa using replaceFirst_append (f := f) hnone

theorem apart_of_ending (h : IsEnding ending) (htext : ending text = true) : Apart text := by
  intro c hc
  rw [h.dot text htext, Option.mem_some_iff] at hc
  exact .inr hc.symm

theorem keeps_danglingDash (h : IsEnding ending) : Keeps (replaceFirst (danglingDash ending) id) := by
  refine keeps_replaceFirst (blind_danglingDash h) fun text b rest hmatch => ?_
  unfold danglingDash at hmatch
  split at hmatch
  · dsimp only at hmatch
    split_ifs at hmatch with hending
    cases hmatch
    rw [id, List.append_nil]
    exact apart_of_ending h hending
  · cases hmatch

theorem keeps_straySpace (h : IsEnding ending) : Keeps (replaceFirst (straySpace ending) id) := by
  refine keeps_replaceFirst (blind_straySpace h) fun text b rest hmatch => ?_
  obtain ⟨found, -, hfound⟩ := Option.bind_eq_some_iff.1 hmatch
  split_ifs at hfound with hending
  cases hfound
  rw [id, List.append_nil]
  exact apart_of_ending h hending

theorem consumes_trailingDash : Consumes trailingDash := by
  intro text b rest h
  obtain ⟨found, hfound, h⟩ := Option.bind_eq_some_iff.1 h
  split at h
  · split_ifs at h
    cases h
    refine ⟨text, ?_, (List.append_nil text).symm⟩
    rintro rfl
    cases hfound
  · cases h

theorem keeps_trailingDash : Keeps (replaceAll trailingDash fun _ => []) where
  apart rest hrest := by
    rcases hrest.cases with rfl | ⟨c, more, hc, rfl⟩
    · exact apart_nil
    · cases hmatch : trailingDash (c :: more) with
      | none =>
        rw [replaceAll_cons hmatch]
        exact apart_cons hc
      | some result =>
        -- A match goes to the end.
        have hnil : result.2 = [] := by
          obtain ⟨found, -, hfound⟩ := Option.bind_eq_some_iff.1 hmatch
          split at hfound
          · split_ifs at hfound
            rw [← Option.some.inj hfound]
          · cases hfound
        rw [replaceAll_match consumes_trailingDash hmatch, hnil]
        exact apart_nil
  block w := by
    refine ⟨w, fun d rest hd hrest => ?_⟩
    have hnone : ∀ u, u ≠ [] → u <:+ w ++ ' ' :: 'S' :: d → trailingDash (u ++ rest) = none :=
      fun u hne hsuffix => blind_trailingDash.none_of_suffix hd hne hsuffix
    simpa using replaceAll_append (f := fun _ => []) hnone

theorem rdropWhile_append_of_last {p : Char → Bool} (h : ∀ c ∈ u.getLast?, p c = false) (rest : List Char) :
    (u ++ rest).rdropWhile p = u ++ rest.rdropWhile p := by
  induction rest using List.reverseRecOn with
  | nil =>
    rw [List.append_nil, List.rdropWhile_nil, List.append_nil, List.rdropWhile_eq_self_iff]
    intro hne
    rw [h _ (List.getLast_mem_getLast? hne)]
    decide
  | append_singleton rest c ih =>
    rw [← List.append_assoc, List.rdropWhile_concat, List.rdropWhile_concat]
    split_ifs
    · exact ih
    · rw [List.append_assoc]

theorem solid_of_getLast? (hd : Block d) (hc : c ∈ (w ++ ' ' :: 'S' :: d).getLast?) : Solid c := by
  have hlast : (w ++ ' ' :: 'S' :: d).getLast? = d.getLast? := by
    rw [List.getLast?_append, List.getLast?_cons, List.getLast?_cons]
    cases hd' : d.getLast? with
    | none => exact absurd (List.getLast?_eq_none_iff.1 hd') hd.ne_nil
    | some c => rfl
  rw [hlast] at hc
  exact hd.isSolid (List.mem_of_getLast? hc)

theorem keeps_rdropWhile {p : Char → Bool} (hp : ∀ c, Solid c → p c = false) :
    Keeps (List.rdropWhile p) where
  apart rest hrest := by
    obtain ⟨more, hmore⟩ := List.rdropWhile_prefix p (l := rest)
    rw [← hmore] at hrest
    exact hrest.of_append
  block w := by
    refine ⟨w, fun d rest hd hrest => ?_⟩
    have hlast : ∀ c ∈ (w ++ ' ' :: 'S' :: d).getLast?, p c = false := fun c hc =>
      hp c (solid_of_getLast? hd hc)
    simpa using rdropWhile_append_of_last hlast rest

/-! ### A segment -/

theorem keeps_tidySeparators : Keeps tidySeparators :=
  (((keeps_replaceAll consumes_doubledDash (fun _ hs => stopsAt_doubledDash hs)
    (fun _ => ⟨[' ', '-'], rfl⟩) fun _ => ⟨['-', ' '], rfl⟩).comp
      (keeps_danglingDash isEnding_word)).comp (keeps_straySpace isEnding_word)).comp keeps_trailingDash

/-- All of `sanitizeSegment` but its last trim. -/
def sanitizeUntrimmed (text : List Char) : List Char :=
  (replaceFirst (straySpace isCompoundExtension) id
    (replaceFirst (danglingDash isCompoundExtension) id
      (replaceAll spaces (fun _ => [' '])
        ((text.filter (!isControl ·)).map fun c => if isIllegal c then ' ' else c)))).rdropWhile
    fun c => c = ' ' || c = '.'

theorem keeps_sanitize : Keeps sanitizeUntrimmed :=
  ((((keeps_filter_control.comp keeps_map_illegal).comp
    (keeps_replaceAll consumes_spaces (fun _ hs => stopsAt_spaces hs) (fun _ => ⟨[], rfl⟩)
      fun _ => ⟨[], rfl⟩)).comp (keeps_danglingDash isEnding_compound)).comp
    (keeps_straySpace isEnding_compound)).comp
    (keeps_rdropWhile fun c hc => by
      rw [Bool.or_eq_false_iff, decide_eq_false_iff_not, decide_eq_false_iff_not]
      refine ⟨fun h => ?_, hc.notDot⟩
      rw [h] at hc
      exact absurd hc.notSpace (by decide))

theorem trimmed_block (w : List Char) (hd : Block d) :
    trimmed (w ++ ' ' :: 'S' :: (d ++ rest)) =
      (w ++ [' ']).dropWhile isWhiteSpace ++ 'S' :: (d ++ rest.rdropWhile isWhiteSpace) := by
  have hstop := dropWhile_append_stop (show isWhiteSpace 'S' = false by decide) (w ++ [' ']) (d ++ rest)
  rw [List.append_assoc, List.singleton_append] at hstop
  have hlast : ∀ c ∈ ((w ++ [' ']).dropWhile isWhiteSpace ++ 'S' :: d).getLast?, isWhiteSpace c = false := by
    intro c hc
    rw [List.getLast?_append, List.getLast?_cons] at hc
    cases hd' : d.getLast? with
    | none => exact absurd (List.getLast?_eq_none_iff.1 hd') hd.ne_nil
    | some last =>
      rw [hd'] at hc
      obtain rfl : last = c := by simpa using hc
      exact (hd.isSolid (List.mem_of_getLast? hd')).notSpace
  have happend := rdropWhile_append_of_last hlast rest
  rw [List.append_assoc, List.cons_append] at happend
  rw [trimmed, hstop, happend, List.append_assoc, List.cons_append]

/-- What becomes of a part of a name between two slashes. -/
def segment (part : List Char) : List Char := sanitizeSegment (tidySeparators part)

/-- What becomes of the text behind a block. -/
def tailOf (rest : List Char) : List Char :=
  (sanitizeUntrimmed (tidySeparators rest)).rdropWhile isWhiteSpace

theorem tailOf_nil : tailOf [] = [] := by decide +kernel

theorem apart_tailOf (h : Apart rest) : Apart (tailOf rest) := by
  have hrest := (keeps_tidySeparators.comp keeps_sanitize).apart rest h
  obtain ⟨more, hmore⟩ := List.rdropWhile_prefix isWhiteSpace (l := sanitizeUntrimmed (tidySeparators rest))
  rw [← hmore] at hrest
  exact hrest.of_append

/-- The block stays in the segment, and what stands in front of it there depends on nothing behind it. -/
theorem segment_block (w : List Char) :
    ∃ front, ∀ d rest, Block d → Apart rest →
      segment (w ++ ' ' :: 'S' :: (d ++ rest)) = front ++ 'S' :: (d ++ tailOf rest) := by
  obtain ⟨w', hw'⟩ := (keeps_tidySeparators.comp keeps_sanitize).block w
  exact ⟨(w' ++ [' ']).dropWhile isWhiteSpace, fun d rest hd hrest =>
    (congrArg trimmed (hw' d rest hd hrest)).trans (trimmed_block w' hd)⟩

/-! ### Numbers -/

theorem ofDigitChars_pad (n width : ℕ) : Nat.ofDigitChars 10 (pad (toString n) width) 0 = n := by
  rw [pad, Nat.ofDigitChars_append, Nat.ofDigitChars_replicate_zero, Nat.mul_zero]
  simp

theorem isDigit_of_mem_pad {n width : ℕ} (hc : c ∈ pad (toString n) width) : c.isDigit = true := by
  rw [pad, List.mem_append] at hc
  rcases hc with hzero | hdigit
  · rw [List.eq_of_mem_replicate hzero]
    decide
  · have htoDigits : (toString n).toList = Nat.toDigits 10 n := by simp
    rw [htoDigits] at hdigit
    exact Nat.isDigit_of_mem_toDigits (by decide) (by decide) hdigit

/-- The season and the episode as every preset writes them. -/
def numbers (season episode : ℕ) : List Char :=
  pad (toString season) 2 ++ 'E' :: pad (toString episode) 2

theorem block_numbers (season episode : ℕ) : Block (numbers season episode) where
  ne_nil := by simp [numbers]
  solid c hc := by
    rw [numbers, List.mem_append, List.mem_cons] at hc
    rcases hc with hc | rfl | hc
    · exact .inl (isDigit_of_mem_pad hc)
    · exact .inr rfl
    · exact .inl (isDigit_of_mem_pad hc)

theorem Apart.follows (h : Apart rest) : Library.Segments.Follows (fun c => !c.isDigit) rest := by
  intro c hc
  rcases h c hc with rfl | rfl <;> decide

theorem pad_unique {m n width : ℕ} {rest' : List Char}
    (hrest : Library.Segments.Follows (fun c => !c.isDigit) rest)
    (hrest' : Library.Segments.Follows (fun c => !c.isDigit) rest')
    (h : pad (toString m) width ++ rest = pad (toString n) width ++ rest') : m = n ∧ rest = rest' := by
  have hfree : ∀ k : ℕ, Library.Segments.Free (fun c => !c.isDigit) (pad (toString k) width) :=
    fun k c hc => by simp [isDigit_of_mem_pad hc]
  obtain ⟨hpad, hrests⟩ := Library.Segments.segment_unique (hfree m) (hfree n) hrest hrest' h
  exact ⟨by rw [← ofDigitChars_pad m width, hpad, ofDigitChars_pad], hrests⟩

/-- A name says one season and one episode. -/
theorem numbers_unique {season episode season' episode' : ℕ} {rest' : List Char} (hrest : Apart rest)
    (hrest' : Apart rest')
    (h : numbers season episode ++ rest = numbers season' episode' ++ rest') :
    season = season' ∧ episode = episode' := by
  have hE : ∀ more, Library.Segments.Follows (fun c => !c.isDigit) ('E' :: more) := by
    intro more c hc
    rw [List.head?_cons, Option.mem_some_iff] at hc
    rw [← hc]
    decide
  rw [numbers, numbers, List.append_assoc, List.append_assoc] at h
  obtain ⟨hseason, hmore⟩ := pad_unique (hE _) (hE _) h
  exact ⟨hseason, (pad_unique hrest.follows hrest'.follows (List.cons.inj hmore).2).1⟩

end UltraTorrent.MediaRenamer.EpisodeSegment
