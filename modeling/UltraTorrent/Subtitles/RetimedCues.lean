import UltraTorrent.Library.InternetAddress
import UltraTorrent.Subtitles.RetimedTimes

/-! The cues of a retimed subtitle: which of them the validator still finds, with what times and with what
texts. -/
namespace UltraTorrent.Subtitles.RetimedCues

open Library Library.Replacement Library.RunRewriting Library.WhiteSpace Library.Segments
open Timestamp Retime SubtitleValidator RetimedTimes

/-! ### Patterns on rewritten lines -/

section Patterns

variable {β : Type} {sep : Char → Bool} {shift : List Char → List Char} {φ : β → β}
  {next : List Char → Option β} {text segment rest : List Char} {c : Char}

/-- Nothing that begins inside a run is matched. -/
def Between (sep : Char → Bool) (next : List Char → Option β) : Prop :=
  ∀ c rest, sep c = false → next (c :: rest) = none

/-- On a rewritten text the pattern finds the rewritten match. -/
def Commutes (shift : List Char → List Char) (φ : β → β) (next : List Char → Option β) : Prop :=
  ∀ text, next (shift text) = (next text).map φ

theorem prefix_of_lazily {front : List Char} {b : β} (h : lazily next text = some (front, b)) :
    front <+: text := by
  induction text generalizing front with
  | nil => cases h
  | cons c text ih =>
    rw [lazily] at h
    split_ifs at h
    split at h
    · cases h
      exact List.cons_prefix_cons.2 ⟨rfl, List.nil_prefix⟩
    · obtain ⟨⟨front, b⟩, hfound, heq⟩ := Option.map_eq_some_iff.1 h
      cases heq
      exact List.cons_prefix_cons.2 ⟨rfl, ih hfound⟩

/-- A match that begins with a run takes the whole of it. -/
theorem lazily_run (hterminator : ∀ c, isLineTerminator c = true → sep c = true) (hnext : Between sep next)
    (hne : segment ≠ []) (hfree : Free sep segment) (rest : List Char) : lazily next (segment ++ rest) =
      ((next rest).map fun b => (segment, b)).or ((lazily next rest).map fun found => (segment ++ found.1, found.2)) := by
  induction segment with
  | nil => exact absurd rfl hne
  | cons c segment ih =>
    rw [Free, List.forall_mem_cons] at hfree
    have hc : ¬isLineTerminator c = true := fun h => by
      rw [hterminator c h] at hfree
      cases hfree.1
    rw [List.cons_append, lazily, if_neg hc]
    cases segment with
    | nil =>
      rw [List.nil_append]
      cases next rest <;> rfl
    | cons d segment =>
      have hnone : next (d :: segment ++ rest) = none := hnext d _ (hfree.2 d List.mem_cons_self)
      rw [hnone, ih (List.cons_ne_nil _ _) hfree.2]
      cases next rest with
      | some b => rfl
      | none => cases lazily next rest <;> rfl

theorem commutes_lazily (h : RunWise sep shift) (hterminator : ∀ c, isLineTerminator c = true → sep c = true)
    (hbetween : Between sep next) (hnext : Commutes shift φ next) :
    Commutes shift (Prod.map shift φ) (lazily next) := by
  intro text
  induction text using run_induction sep with
  | nil => rw [h.nil]; rfl
  | separator c text hc ih =>
    rw [h.cons hc, lazily, lazily]
    split_ifs
    · rfl
    · rw [hnext, ih]
      cases next text with
      | some b => simp [h.cons hc, h.nil]
      | none => cases lazily next text <;> simp [h.cons hc]
  | run segment rest hne hfree hrest ih =>
    obtain ⟨hne', hfree'⟩ := h.run segment hne hfree
    rw [h.run_append hrest, lazily_run hterminator hbetween hne' hfree', lazily_run hterminator hbetween hne hfree,
      hnext, ih]
    cases next rest with
    | some b => rfl
    | none =>
      cases hfound : lazily next rest with
      | none => rfl
      | some found =>
        have hfollows : Follows sep found.1 := fun d hd => by
          obtain ⟨tail, htail⟩ := prefix_of_lazily hfound
          refine hrest d ?_
          rw [← htail, List.head?_append, Option.mem_def.1 hd]
          rfl
        simp [h.run_append hfollows]

theorem between_spaces (hspace : ∀ c, isWhiteSpace c = true → sep c = true) (hnext : Between sep next) :
    Between sep (spaces next) := by
  intro c rest hc
  have hwhite : ¬isWhiteSpace c = true := fun h => by
    rw [hspace c h] at hc
    cases hc
  rw [spaces, if_neg hwhite, hnext c rest hc]

theorem commutes_spaces (h : RunWise sep shift) (hspace : ∀ c, isWhiteSpace c = true → sep c = true)
    (hnext : Commutes shift φ next) : Commutes shift φ (spaces next) := by
  have hrun : ∀ {d : Char} {tail : List Char}, sep d = false → spaces next (d :: tail) = next (d :: tail) := by
    intro d tail hd
    rw [spaces, if_neg]
    intro hwhite
    rw [hspace d hwhite] at hd
    cases hd
  intro text
  induction text using run_induction sep with
  | nil =>
    have hnil := hnext []
    rw [h.nil] at hnil ⊢
    exact hnil
  | separator c text hc ih =>
    have hhere := hnext (c :: text)
    rw [h.cons hc] at hhere ⊢
    rw [spaces, spaces]
    split_ifs
    · rw [ih, hhere]
      cases spaces next text <;> rfl
    · exact hhere
  | run segment rest hne hfree hrest _ =>
    have hhere := hnext (segment ++ rest)
    obtain ⟨d, tail, hd, hsep⟩ := h.exists_cons hne hfree
    obtain ⟨e, segment, rfl⟩ := List.exists_cons_of_ne_nil hne
    rw [h.run_append hrest, hd, List.cons_append] at hhere ⊢
    rw [hrun hsep, hhere, List.cons_append, hrun (hfree e List.mem_cons_self)]

theorem between_arrowHead (hdash : sep '-' = true) : Between sep (arrowHead next) := by
  intro c rest hc
  unfold arrowHead
  split
  · rename_i heq
    rw [(List.cons.inj heq).1, hdash] at hc
    cases hc
  · rfl

theorem shift_eq_cons (h : RunWise sep shift) (hc : sep c = true) {tail : List Char} (heq : shift text = c :: tail) :
    ∃ rest, text = c :: rest ∧ tail = shift rest := by
  induction text using run_induction sep with
  | nil =>
    rw [h.nil] at heq
    cases heq
  | separator d text hd _ =>
    rw [h.cons hd, List.cons.injEq] at heq
    obtain ⟨rfl, rfl⟩ := heq
    exact ⟨text, rfl, rfl⟩
  | run segment rest hne hfree hrest _ =>
    obtain ⟨d, front, hd, hsep⟩ := h.exists_cons hne hfree
    rw [h.run_append hrest, hd, List.cons_append, List.cons.injEq] at heq
    rw [heq.1, hc] at hsep
    cases hsep

theorem commutes_arrowHead (h : RunWise sep shift) (hdash : sep '-' = true) (hhead : sep '>' = true)
    (hnext : Commutes shift φ next) : Commutes shift φ (arrowHead next) := by
  intro text
  by_cases harrow : ∃ rest, text = '-' :: '-' :: '>' :: rest
  · obtain ⟨rest, rfl⟩ := harrow
    rw [h.cons hdash, h.cons hdash, h.cons hhead]
    exact hnext rest
  · have hnone : ∀ {l : List Char}, (¬∃ rest, l = '-' :: '-' :: '>' :: rest) → arrowHead next l = none := by
      intro l hl
      unfold arrowHead
      split
      · exact absurd ⟨_, rfl⟩ hl
      · rfl
    have hshifted : ¬∃ rest, shift text = '-' :: '-' :: '>' :: rest := by
      rintro ⟨rest, heq⟩
      obtain ⟨_, rfl, hfirst⟩ := shift_eq_cons h hdash heq
      obtain ⟨_, rfl, hsecond⟩ := shift_eq_cons h hdash hfirst.symm
      obtain ⟨tail, rfl, -⟩ := shift_eq_cons h hhead hsecond.symm
      exact harrow ⟨tail, rfl⟩
    rw [hnone hshifted, hnone harrow]
    rfl

theorem between_stops (hspace : ∀ c, isWhiteSpace c = true → sep c = true) : Between sep stops := by
  intro c rest hc
  rw [stops, if_neg]
  intro hwhite
  rw [hspace c hwhite] at hc
  cases hc

theorem commutes_stops (h : RunWise sep shift) (hspace : ∀ c, isWhiteSpace c = true → sep c = true) :
    Commutes shift id stops := by
  intro text
  rw [Option.map_id, id]
  induction text using run_induction sep with
  | nil => rw [h.nil]
  | separator c text hc _ => rw [h.cons hc, stops, stops]
  | run segment rest hne hfree hrest _ =>
    obtain ⟨d, tail, hd, hsep⟩ := h.exists_cons hne hfree
    obtain ⟨e, segment, rfl⟩ := List.exists_cons_of_ne_nil hne
    rw [h.run_append hrest, hd, List.cons_append, List.cons_append, between_stops hspace d _ hsep,
      between_stops hspace e _ (hfree e List.mem_cons_self)]

theorem isWhiteSpace_of_isLineTerminator (h : isLineTerminator c = true) : isWhiteSpace c = true := by
  simp only [isLineTerminator, Bool.or_eq_true, decide_eq_true_eq] at h
  rcases h with ((rfl | rfl) | h) | h
  · rfl
  · rfl
  · simp [isWhiteSpace, h]
  · simp [isWhiteSpace, h]

variable (h : RunWise sep shift) (hspace : ∀ c, isWhiteSpace c = true → sep c = true) (hdash : sep '-' = true)
  (hhead : sep '>' = true)

include hspace hdash in
theorem between_arrowHead_spaces (next : List Char → Option β) : Between sep (spaces (arrowHead next)) :=
  between_spaces hspace (between_arrowHead hdash)

include h hspace hdash hhead in
theorem commutes_arrowAt : Commutes shift (Prod.map shift (Prod.map shift id)) arrowAt := by
  have hterminator : ∀ c, isLineTerminator c = true → sep c = true := fun c hc =>
    hspace c (isWhiteSpace_of_isLineTerminator hc)
  exact commutes_lazily h hterminator (between_arrowHead_spaces hspace hdash _)
    (commutes_spaces h hspace (commutes_arrowHead h hdash hhead
      (commutes_spaces h hspace (commutes_lazily h hterminator (between_stops hspace) (commutes_stops h hspace)))))

include hspace hdash in
theorem arrow_run (hne : segment ≠ []) (hfree : Free sep segment) (rest : List Char) : arrow (segment ++ rest) =
    ((arrowAt (segment ++ rest)).map fun found => (found.1, found.2.1)).or (arrow rest) := by
  have hterminator : ∀ c, isLineTerminator c = true → sep c = true := fun c hc =>
    hspace c (isWhiteSpace_of_isLineTerminator hc)
  induction segment with
  | nil => exact absurd rfl hne
  | cons c segment ih =>
    rw [List.cons_append, arrow]
    cases segment with
    | nil => rfl
    | cons d segment =>
      have htail : Free sep (d :: segment) := fun e he => hfree e (List.mem_cons_of_mem c he)
      rw [ih (List.cons_ne_nil _ _) htail]
      cases hfound : arrowAt (c :: (d :: segment ++ rest)) with
      | some found => rfl
      | none =>
        have hbetween := between_arrowHead_spaces hspace hdash (spaces (lazily stops))
        rw [arrowAt, ← List.cons_append, lazily_run hterminator hbetween (List.cons_ne_nil _ _) hfree,
          Option.or_eq_none_iff, Option.map_eq_none_iff, Option.map_eq_none_iff] at hfound
        rw [arrowAt, lazily_run hterminator hbetween (List.cons_ne_nil _ _) htail, hfound.1, hfound.2]
        rfl

include h hspace hdash hhead in
theorem arrow_shift (line : List Char) : arrow (shift line) = (arrow line).map (Prod.map shift shift) := by
  have hhere := commutes_arrowAt h hspace hdash hhead
  induction line using run_induction sep with
  | nil => rw [h.nil]; rfl
  | separator c text hc ih =>
    have hat := hhere (c :: text)
    rw [h.cons hc] at hat ⊢
    rw [arrow, arrow, hat, ih]
    cases arrowAt (c :: text) <;> rfl
  | run segment rest hne hfree hrest ih =>
    obtain ⟨hne', hfree'⟩ := h.run segment hne hfree
    have hat := hhere (segment ++ rest)
    rw [h.run_append hrest] at hat ⊢
    rw [arrow_run hspace hdash hne' hfree', arrow_run hspace hdash hne hfree, hat, ih]
    cases arrowAt (segment ++ rest) <;> rfl

end Patterns

/-! ### Cues of rewritten lines -/

section Lines

variable {shift : List Char → List Char} {read : List Char → List (List Char) → Reading} {g : ℕ → ℕ}
  {lines : List (List Char)}

/-- What is compared of a cue. -/
def content (c : Cue) : List Char × ℕ × ℕ := (c.text, c.startMs, c.endMs)

def moved (g : ℕ → ℕ) (c : Cue) : List Char × ℕ × ℕ := (c.text, g c.startMs, g c.endMs)

/-- A line is a cue after the rewriting where it was one before, if it can be read. -/
structure Follow (shift : List Char → List Char) (read : List Char → List (List Char) → Reading) : Prop where
  other : ∀ line rest, read line rest = .other → read (shift line) (rest.map shift) = .other
  cue : ∀ line rest startMs endMs text, read line rest = .cue startMs endMs text →
    read (shift line) (rest.map shift) ≠ .other

def Readable (read : List Char → List (List Char) → Reading) (lines : List (List Char)) : Prop :=
  ∀ line rest, line :: rest <:+ lines → read line rest ≠ .malformed

theorem readable_of_collect {i : ℕ} (h : (collect read i lines).2 = 0) : Readable read lines := by
  induction lines generalizing i with
  | nil => exact fun line rest hsuffix => absurd (List.suffix_nil.1 hsuffix) (List.cons_ne_nil _ _)
  | cons line rest ih =>
    have hrest : read line rest ≠ .malformed ∧ Readable read rest := by
      rw [collect] at h
      split at h
      · rename_i heq
        exact ⟨by rw [heq]; nofun, ih h⟩
      · cases h
      · rename_i heq
        exact ⟨by rw [heq]; nofun, ih h⟩
    intro l r hsuffix
    rcases List.suffix_cons_iff.1 hsuffix with heq | hsuffix
    · cases heq
      exact hrest.1
    · exact hrest.2 l r hsuffix

theorem Readable.tail {line : List Char} {rest : List (List Char)} (h : Readable read (line :: rest)) :
    Readable read rest := fun l r hsuffix => h l r (hsuffix.trans (List.suffix_cons line rest))

/-- No cue comes from nothing. -/
theorem length_collect_le (h : Follow shift read) (hread : Readable read lines) (i j : ℕ) :
    (collect read i (lines.map shift)).1.length ≤ (collect read j lines).1.length := by
  induction lines generalizing i j with
  | nil => exact le_rfl
  | cons line rest ih =>
    rw [List.map_cons, collect, collect]
    cases hline : read line rest with
    | other =>
      rw [h.other line rest hline]
      exact ih hread.tail i j
    | malformed => exact absurd hline (hread line rest List.suffix_rfl)
    | cue startMs endMs text =>
      have hrest := ih hread.tail (i + 1) (j + 1)
      cases hshifted : read (shift line) (rest.map shift) with
      | other => exact absurd hshifted (h.cue line rest startMs endMs text hline)
      | malformed => exact hrest.trans (Nat.le_succ _)
      | cue _ _ _ => exact Nat.succ_le_succ hrest

/-- The cue of one line is moved. -/
def Moves (shift : List Char → List Char) (read : List Char → List (List Char) → Reading) (g : ℕ → ℕ)
    (line : List Char) (rest : List (List Char)) : Prop :=
  ∀ startMs endMs text, read line rest = .cue startMs endMs text →
    read (shift line) (rest.map shift) = .cue (g startMs) (g endMs) text

/-- The cues are the moved ones exactly when that of each line is. -/
theorem collect_shift_iff (h : Follow shift read) (hread : Readable read lines) (i : ℕ) :
    (collect read i (lines.map shift)).1.map content = (collect read i lines).1.map (moved g) ↔
      ∀ line rest, line :: rest <:+ lines → Moves shift read g line rest := by
  induction lines generalizing i with
  | nil =>
    refine ⟨fun _ line rest hsuffix => absurd (List.suffix_nil.1 hsuffix) (List.cons_ne_nil _ _), fun _ => rfl⟩
  | cons line rest ih =>
    have hsplit : (∀ l r, l :: r <:+ line :: rest → Moves shift read g l r) ↔
        Moves shift read g line rest ∧ ∀ l r, l :: r <:+ rest → Moves shift read g l r := by
      simp only [List.suffix_cons_iff, List.cons.injEq, or_imp, forall_and, and_imp, forall_eq, forall_eq_apply_imp_iff]
    rw [hsplit, List.map_cons, collect, collect]
    cases hline : read line rest with
    | other =>
      rw [h.other line rest hline, ih hread.tail i]
      refine (and_iff_right ?_).symm
      intro startMs endMs text hcue
      rw [hline] at hcue
      cases hcue
    | malformed => exact absurd hline (hread line rest List.suffix_rfl)
    | cue startMs endMs text =>
      have hmoves : Moves shift read g line rest ↔
          read (shift line) (rest.map shift) = .cue (g startMs) (g endMs) text := by
        constructor
        · exact fun h => h startMs endMs text hline
        · intro h s e t hcue
          rw [hline] at hcue
          cases hcue
          exact h
      rw [hmoves]
      cases hshifted : read (shift line) (rest.map shift) with
      | other => exact absurd hshifted (h.cue line rest startMs endMs text hline)
      | malformed =>
        have hlength := length_collect_le h hread.tail (i + 1) (i + 1)
        constructor
        · intro heq
          have hlen := congrArg List.length heq
          simp only [List.map_cons, List.length_cons, List.length_map] at hlen
          omega
        · rintro ⟨⟨⟩, -⟩
      | cue s e t =>
        simp only [List.map_cons, List.cons.injEq, content, moved, Prod.mk.injEq, Reading.cue.injEq]
        rw [← ih hread.tail (i + 1)]
        tauto

end Lines

/-! ### Lines of a text -/

section Texts

variable {sep : Char → Bool} {shift : List Char → List Char} {c : Char}

theorem head?_shift (h : RunWise sep shift) (hc : sep c = true) (text : List Char) :
    (shift text).head? = some c ↔ text.head? = some c := by
  rw [List.head?_eq_some_iff, List.head?_eq_some_iff]
  constructor
  · rintro ⟨tail, heq⟩
    obtain ⟨rest, rfl, -⟩ := shift_eq_cons h hc heq
    exact ⟨rest, rfl⟩
  · rintro ⟨rest, rfl⟩
    exact ⟨shift rest, h.cons hc rest⟩

theorem unixLines_cons (hc : c ≠ '\r') (text : List Char) : unixLines (c :: text) = c :: unixLines text :=
  unixLines.eq_3 c text fun _ h _ => hc h

theorem unixLines_cr (text : List Char) :
    unixLines ('\r' :: text) = if text.head? = some '\n' then unixLines text else '\r' :: unixLines text := by
  split_ifs with hhead
  · obtain ⟨rest, rfl⟩ := List.head?_eq_some_iff.1 hhead
    rw [unixLines, unixLines_cons (by decide)]
  · refine unixLines.eq_3 '\r' text fun rest _ h => hhead ?_
    rw [h, List.head?_cons]

theorem unixLines_append {front : List Char} (h : '\r' ∉ front) (text : List Char) :
    unixLines (front ++ text) = front ++ unixLines text := by
  induction front with
  | nil => rfl
  | cons d front ih =>
    rw [List.mem_cons, not_or] at h
    rw [List.cons_append, unixLines_cons (Ne.symm h.1), ih h.2, List.cons_append]

theorem unixLines_shift (h : RunWise sep shift) (hcr : sep '\r' = true) (hlf : sep '\n' = true)
    (text : List Char) : unixLines (shift text) = shift (unixLines text) := by
  have hfree : ∀ {l : List Char}, Free sep l → '\r' ∉ l := fun hl hmem => by
    rw [hl _ hmem] at hcr
    cases hcr
  induction text using run_induction sep with
  | nil => rw [h.nil, unixLines, h.nil]
  | separator c text hc ih =>
    rw [h.cons hc]
    by_cases hreturn : c = '\r'
    · subst hreturn
      rw [unixLines_cr, unixLines_cr, ih]
      by_cases hhead : text.head? = some '\n'
      · rw [if_pos hhead, if_pos ((head?_shift h hlf text).2 hhead)]
      · rw [if_neg hhead, if_neg (mt (head?_shift h hlf text).1 hhead), h.cons hc]
    · rw [unixLines_cons hreturn, unixLines_cons hreturn, ih, h.cons hc]
  | run segment rest hne hsegment hrest ih =>
    have hfollows : Follows sep (unixLines rest) := by
      cases rest with
      | nil => exact follows_nil
      | cons d rest =>
        have hd : sep d = true := hrest d rfl
        intro e he
        by_cases hreturn : d = '\r'
        · subst hreturn
          rw [unixLines_cr] at he
          split_ifs at he with hhead
          · obtain ⟨rest, rfl⟩ := List.head?_eq_some_iff.1 hhead
            rw [unixLines_cons (by decide)] at he
            obtain rfl := Option.mem_some_iff.1 he
            exact hlf
          · obtain rfl := Option.mem_some_iff.1 he
            exact hd
        · rw [unixLines_cons hreturn] at he
          obtain rfl := Option.mem_some_iff.1 he
          exact hd
    rw [h.run_append hrest, unixLines_append (hfree (h.run segment hne hsegment).2), ih,
      unixLines_append (hfree hsegment), h.run_append hfollows]

theorem dropBom_shift (h : RunWise sep shift) (hbom : sep bom = true) (text : List Char) :
    dropBom (shift text) = shift (dropBom text) := by
  unfold dropBom
  by_cases hhead : text.head? = some bom
  · obtain ⟨rest, rfl⟩ := List.head?_eq_some_iff.1 hhead
    rw [if_pos hhead, if_pos ((head?_shift h hbom _).2 hhead), h.cons hbom]
    rfl
  · rw [if_neg hhead, if_neg (mt (head?_shift h hbom _).1 hhead)]

theorem map_eq_self_iff {f : List Char → List Char} {l : List (List Char)} :
    l.map f = l ↔ ∀ p ∈ l, f p = p := by
  have h := List.map_inj_left (f := f) (g := id) (l := l)
  rwa [List.map_id] at h

theorem notMem_of_mem_splitOn {text piece : List Char} (h : piece ∈ text.splitOn c) : c ∉ piece := fun hmem => by
  have hfree := free_of_mem_splitOnP h c hmem
  simp at hfree

theorem intercalate_shift_eq_iff (h : RunWise sep shift) (hc : sep c = true) {pieces : List (List Char)}
    (hpieces : ∀ p ∈ pieces, c ∉ p) :
    [c].intercalate (pieces.map shift) = [c].intercalate pieces ↔ ∀ p ∈ pieces, shift p = p := by
  cases pieces with
  | nil => simp
  | cons p pieces =>
    constructor
    · intro heq
      have hsplit := congrArg (List.splitOn c) heq
      rw [List.splitOn_intercalate c hpieces (List.cons_ne_nil _ _), List.splitOn_intercalate c _ (by simp)] at hsplit
      · exact map_eq_self_iff.1 hsplit
      · intro l hl
        obtain ⟨p, hp, rfl⟩ := List.mem_map.1 hl
        exact mt (h.mem_iff hc).1 (hpieces p hp)
    · intro hsame
      rw [map_eq_self_iff.2 hsame]

end Texts

/-! ### The lines of either format -/

section Formats

variable {offsetMs driftFactor : ℚ} {line : List Char} {rest : List (List Char)}

theorem srtVttLines_shift (text : List Char) : srtVttLines (srtVttShift offsetMs driftFactor text) =
    (srtVttLines text).map (srtVttShift offsetMs driftFactor) := by
  have h := runWise_srtVttShift offsetMs driftFactor
  rw [srtVttLines, unixLines_shift h (by decide) (by decide), dropBom_shift h (by decide), h.splitOn (by decide),
    srtVttLines]

theorem assLines_shift (text : List Char) : assLines (assShift offsetMs driftFactor text) =
    (assLines text).map (assShift offsetMs driftFactor) := by
  have h := runWise_assShift offsetMs driftFactor
  rw [assLines, unixLines_shift h (by decide) (by decide), h.splitOn (by decide), assLines]

theorem srtVttBody_shift (rest : List (List Char)) : srtVttBody (rest.map (srtVttShift offsetMs driftFactor)) =
    (srtVttBody rest).map (srtVttShift offsetMs driftFactor) := by
  have h := runWise_srtVttShift offsetMs driftFactor
  rw [srtVttBody, List.takeWhile_map, srtVttBody]
  congr 2
  funext l
  simp only [Function.comp_apply, trimmed_srtVttShift, ne_eq, h.eq_nil_iff]

theorem arrow_srtVttShift (line : List Char) : arrow (srtVttShift offsetMs driftFactor line) =
    (arrow line).map (Prod.map (srtVttShift offsetMs driftFactor) (srtVttShift offsetMs driftFactor)) :=
  arrow_shift (runWise_srtVttShift offsetMs driftFactor) (fun _ => foreign_of_isWhiteSpace (by decide)) (by decide)
    (by decide) line

theorem follow_srtVttShift (offsetMs driftFactor : ℚ) : Follow (srtVttShift offsetMs driftFactor) srtVttReading where
  other line rest h := by
    have hnone : arrow line = none := by
      unfold srtVttReading at h
      split at h
      · assumption
      · split at h <;> cases h
    rw [srtVttReading, arrow_srtVttShift, hnone]
    rfl
  cue line rest startMs endMs text h := by
    unfold srtVttReading at h
    split at h
    · cases h
    · rename_i start stop harrow
      rw [srtVttReading, arrow_srtVttShift, harrow]
      dsimp only [Option.map_some, Prod.map]
      split <;> nofun

theorem srtVttReading_eq_cue {startMs endMs : ℕ} {text : List Char} :
    srtVttReading line rest = .cue startMs endMs text ↔ ∃ start stop, arrow line = some (start, stop) ∧
      parseSrtVttTime start = some startMs ∧ parseSrtVttTime stop = some endMs ∧ joinLines (srtVttBody rest) = text := by
  unfold srtVttReading
  cases harrow : arrow line with
  | none => simp
  | some groups =>
    obtain ⟨start, stop⟩ := groups
    cases hstart : parseSrtVttTime start <;> cases hstop : parseSrtVttTime stop <;> simp [hstart, hstop]

/-- The times of the cue are kept, and those in its text are their own moved ones. -/
def SrtVttLineKept (offsetMs driftFactor : ℚ) (line : List Char) (rest : List (List Char)) : Prop :=
  ∀ start stop startMs endMs, arrow line = some (start, stop) → parseSrtVttTime start = some startMs →
    parseSrtVttTime stop = some endMs → SrtVttKept offsetMs driftFactor start startMs ∧
      SrtVttKept offsetMs driftFactor stop endMs ∧
        ∀ l ∈ srtVttBody rest, ∀ c ∈ found srtVttClock l, retimedSrtVtt offsetMs driftFactor c = c.text

theorem moves_srtVttShift_iff (hrest : ∀ l ∈ rest, '\n' ∉ l) :
    Moves (srtVttShift offsetMs driftFactor) srtVttReading (fun ms => applyTiming ms offsetMs driftFactor) line rest ↔
      SrtVttLineKept offsetMs driftFactor line rest := by
  have hbody : joinLines ((srtVttBody rest).map (srtVttShift offsetMs driftFactor)) = joinLines (srtVttBody rest) ↔
      ∀ l ∈ srtVttBody rest, ∀ c ∈ found srtVttClock l, retimedSrtVtt offsetMs driftFactor c = c.text := by
    have hlines : ∀ l ∈ srtVttBody rest, '\n' ∉ l := fun l hl => hrest l ((List.takeWhile_prefix _).subset hl)
    rw [joinLines, joinLines, intercalate_shift_eq_iff (runWise_srtVttShift offsetMs driftFactor) (by decide) hlines]
    simp only [srtVttShift_eq_self_iff]
  simp only [Moves, srtVttReading_eq_cue, arrow_srtVttShift, srtVttBody_shift, Option.map_eq_some_iff,
    Prod.exists, Prod.map_apply, Prod.mk.injEq]
  constructor
  · intro h start stop startMs endMs harrow hstart hstop
    obtain ⟨_, _, ⟨a, b, hab, rfl, rfl⟩, ha, hb, htext⟩ := h startMs endMs _ ⟨start, stop, harrow, hstart, hstop, rfl⟩
    rw [harrow] at hab
    cases hab
    exact ⟨(parseSrtVttTime_shift hstart).1 ha, (parseSrtVttTime_shift hstop).1 hb, hbody.1 htext⟩
  · rintro h startMs endMs text ⟨start, stop, harrow, hstart, hstop, rfl⟩
    obtain ⟨hkeptStart, hkeptStop, htext⟩ := h start stop startMs endMs harrow hstart hstop
    exact ⟨_, _, ⟨start, stop, harrow, rfl, rfl⟩, (parseSrtVttTime_shift hstart).2 hkeptStart,
      (parseSrtVttTime_shift hstop).2 hkeptStop, hbody.2 htext⟩

/-! ### Dialogue -/

theorem isDialogue_iff : isDialogue line = true ↔
    ∃ word tail, line = word ++ ':' :: tail ∧ word.map Char.toLower = "dialogue".toList := by
  rw [isDialogue, decide_eq_true_eq]
  constructor
  · intro h
    have h : (line.take 9).map Char.toLower = "dialogue".toList ++ [':'] := h
    obtain ⟨word, mark, htake, hword, hmark⟩ := List.map_eq_append_iff.1 h
    obtain rfl := InternetAddress.eq_of_map_toLower hmark (by simp)
    refine ⟨word, line.drop 9, ?_, hword⟩
    calc line = line.take 9 ++ line.drop 9 := (List.take_append_drop 9 line).symm
      _ = word ++ ':' :: line.drop 9 := by rw [htake, List.append_assoc, List.singleton_append]
  · rintro ⟨word, tail, rfl, hword⟩
    have hlength : word.length = 8 := by
      rw [← List.length_map (f := Char.toLower), hword]
      rfl
    rw [List.take_append, hlength, List.take_of_length_le (by omega), List.map_append, hword]
    rfl

theorem foreign_of_dialogue {word : List Char} (h : word.map Char.toLower = "dialogue".toList) :
    ∀ c ∈ word, foreign ['.'] c = true := by
  intro c hc
  have hlower : foreign ['.'] c.toLower = true := by
    have hall : ∀ d ∈ "dialogue".toList, foreign ['.'] d = true := List.all_eq_true.1 (by decide)
    exact hall _ (h ▸ List.mem_map_of_mem hc)
  by_contra hnot
  have hplain : c.toLower = c := by
    have hcases : (c.isDigit = true ∨ c = ':') ∨ c = '.' := by
      rw [Bool.not_eq_true, foreign, Bool.not_eq_false'] at hnot
      simpa only [Bool.or_eq_true, decide_eq_true_eq, List.contains_iff_mem, List.mem_singleton] using hnot
    rcases hcases with (hdigit | rfl) | rfl
    · exact (InternetAddress.case_of_isDigit (.inr hdigit)).2
    · rfl
    · rfl
  exact hnot (hplain ▸ hlower)

theorem shift_append {sep : Char → Bool} {shift : List Char → List Char} (h : RunWise sep shift) {word : List Char}
    (hword : ∀ c ∈ word, sep c = true) (text : List Char) : shift (word ++ text) = word ++ shift text := by
  induction word with
  | nil => rfl
  | cons c word ih =>
    rw [List.forall_mem_cons] at hword
    rw [List.cons_append, h.cons hword.1, ih hword.2, List.cons_append]

theorem shift_eq_append {sep : Char → Bool} {shift : List Char → List Char} (h : RunWise sep shift)
    {word text tail : List Char} (hword : ∀ c ∈ word, sep c = true) (heq : shift text = word ++ tail) :
    ∃ rest, text = word ++ rest ∧ tail = shift rest := by
  induction word generalizing text with
  | nil => exact ⟨text, rfl, heq.symm⟩
  | cons c word ih =>
    rw [List.forall_mem_cons] at hword
    obtain ⟨rest, rfl, hrest⟩ := shift_eq_cons h hword.1 heq
    obtain ⟨rest, rfl, htail⟩ := ih hword.2 hrest.symm
    exact ⟨rest, rfl, htail⟩

theorem assShift_colon (text : List Char) :
    assShift offsetMs driftFactor (':' :: text) = ':' :: assShift offsetMs driftFactor text :=
  replaceAll_cons rfl

/-- What is put in the place of a time begins with a digit. -/
theorem eq_colon_of_assShift {text tail : List Char} (h : assShift offsetMs driftFactor text = ':' :: tail) :
    ∃ rest, text = ':' :: rest := by
  cases text with
  | nil => cases h
  | cons c text =>
    cases hfound : assClock (c :: text) with
    | none =>
      rw [assShift, replaceAll_cons hfound, List.cons.injEq] at h
      exact ⟨text, by rw [h.1]⟩
    | some found =>
      have hreplaced : assShift offsetMs driftFactor (c :: text) = retimedAss offsetMs driftFactor found.1 ++ _ :=
        replaceAll_match (consumes_clock foreign_dot) hfound
      rw [hreplaced, retimedAss, msToAss_natCast] at h
      obtain ⟨d, ds, hds⟩ := List.exists_cons_of_ne_nil
        (Nat.toDigits_ne_nil (b := 10) (n := applyTiming (assMs found.1) offsetMs driftFactor / 3600000))
      have hdigit : d.isDigit = true :=
        Nat.isDigit_of_mem_toDigits (by decide) (by decide) (hds ▸ List.mem_cons_self)
      rw [Clock.text, assClockOf] at h
      dsimp only at h
      rw [hds, List.cons_append, List.cons_append, List.cons.injEq] at h
      rw [h.1] at hdigit
      cases hdigit

theorem isDialogue_assShift (line : List Char) : isDialogue (assShift offsetMs driftFactor line) = isDialogue line := by
  have h := runWise_assShift offsetMs driftFactor
  rw [Bool.eq_iff_iff, isDialogue_iff, isDialogue_iff]
  constructor
  · rintro ⟨word, tail, hline, hword⟩
    obtain ⟨text, rfl, htail⟩ := shift_eq_append h (foreign_of_dialogue hword) hline
    obtain ⟨rest, rfl⟩ := eq_colon_of_assShift htail.symm
    exact ⟨word, rest, rfl, hword⟩
  · rintro ⟨word, tail, rfl, hword⟩
    exact ⟨word, _, by rw [shift_append h (foreign_of_dialogue hword), assShift_colon], hword⟩

theorem assFields_assShift (h : isDialogue line = true) : assFields (assShift offsetMs driftFactor line) =
    (assFields line).map (assShift offsetMs driftFactor) := by
  have hshift := runWise_assShift offsetMs driftFactor
  obtain ⟨word, tail, rfl, hword⟩ := isDialogue_iff.1 h
  have hforeign := foreign_of_dialogue hword
  have hcolon : ∀ c ∈ word, decide (c ≠ ':') = true := fun c hc => decide_eq_true fun heq => by
    have := hforeign c hc
    rw [heq] at this
    cases this
  have hfields : ∀ text, assFields (word ++ ':' :: text) = text.splitOn ',' := fun text => by
    rw [assFields, List.dropWhile_append_of_pos hcolon]
    rfl
  rw [shift_append hshift hforeign, assShift_colon, hfields, hfields, hshift.splitOn (by decide)]

def assField (line : List Char) (n : ℕ) : List Char := (assFields line)[n]?.getD []

theorem assField_assShift (h : isDialogue line = true) (n : ℕ) :
    assField (assShift offsetMs driftFactor line) n = assShift offsetMs driftFactor (assField line n) := by
  rw [assField, assFields_assShift h, List.getElem?_map, assField]
  cases (assFields line)[n]? <;> rfl

theorem assReading_eq_cue {startMs endMs : ℕ} {text : List Char} :
    assReading line rest = .cue startMs endMs text ↔ isDialogue line = true ∧
      parseAssTime (assField line 1) = some startMs ∧ parseAssTime (assField line 2) = some endMs ∧
        [','].intercalate ((assFields line).drop 9) = text := by
  unfold assReading assField
  by_cases hline : isDialogue line = true
  · cases hstart : parseAssTime ((assFields line)[1]?.getD []) <;>
      cases hstop : parseAssTime ((assFields line)[2]?.getD []) <;> simp [hline, hstart, hstop]
  · simp [hline]

theorem follow_assShift (offsetMs driftFactor : ℚ) : Follow (assShift offsetMs driftFactor) assReading where
  other line rest h := by
    have hline : ¬isDialogue line = true := fun hline => by
      rw [assReading, if_pos hline] at h
      dsimp only at h
      split at h <;> cases h
    rw [assReading, isDialogue_assShift, if_neg hline]
  cue line rest startMs endMs text h := by
    have hline := (assReading_eq_cue.1 h).1
    rw [assReading, isDialogue_assShift, if_pos hline]
    dsimp only
    split <;> nofun

/-- The times of the cue are kept, and those in its text are their own moved ones. -/
def AssLineKept (offsetMs driftFactor : ℚ) (line : List Char) : Prop :=
  ∀ startMs endMs, isDialogue line = true → parseAssTime (assField line 1) = some startMs →
    parseAssTime (assField line 2) = some endMs → AssKept offsetMs driftFactor (assField line 1) ∧
      AssKept offsetMs driftFactor (assField line 2) ∧
        ∀ field ∈ (assFields line).drop 9, ∀ c ∈ found assClock field, retimedAss offsetMs driftFactor c = c.text

theorem moves_assShift_iff : Moves (assShift offsetMs driftFactor) assReading
    (fun ms => applyTiming ms offsetMs driftFactor / 10 * 10) line rest ↔ AssLineKept offsetMs driftFactor line := by
  have hcomma : ∀ field ∈ (assFields line).drop 9, ',' ∉ field := fun field hfield =>
    notMem_of_mem_splitOn (List.mem_of_mem_drop hfield)
  have htext : [','].intercalate (((assFields line).map (assShift offsetMs driftFactor)).drop 9) =
      [','].intercalate ((assFields line).drop 9) ↔
        ∀ field ∈ (assFields line).drop 9, ∀ c ∈ found assClock field, retimedAss offsetMs driftFactor c = c.text := by
    rw [← List.map_drop, intercalate_shift_eq_iff (runWise_assShift offsetMs driftFactor) (by decide) hcomma]
    simp only [assShift_eq_self_iff]
  simp only [Moves, assReading_eq_cue, isDialogue_assShift]
  constructor
  · intro h startMs endMs hline hstart hstop
    obtain ⟨-, ha, hb, hfields⟩ := h startMs endMs _ ⟨hline, hstart, hstop, rfl⟩
    rw [assField_assShift hline] at ha hb
    rw [assFields_assShift hline] at hfields
    exact ⟨(parseAssTime_shift hstart).1 ha, (parseAssTime_shift hstop).1 hb, htext.1 hfields⟩
  · rintro h startMs endMs text ⟨hline, hstart, hstop, rfl⟩
    obtain ⟨hkeptStart, hkeptStop, hfields⟩ := h startMs endMs hline hstart hstop
    rw [assField_assShift hline, assField_assShift hline, assFields_assShift hline]
    exact ⟨hline, (parseAssTime_shift hstart).2 hkeptStart, (parseAssTime_shift hstop).2 hkeptStop, htext.2 hfields⟩

end Formats

/-! ### Retiming a valid subtitle -/

def name : Format → String
  | .srt => "srt"
  | .vtt => "vtt"
  | .ass => "ass"
  | .unknown => "unknown"

def precise (format : Format) (ms : ℕ) : ℕ := if format = .ass then ms / 10 * 10 else ms

/-- The validator finds the same cues with the same texts, at the moved times. -/
def Retimed (text : List Char) (format : Format) (offsetMs driftFactor : ℚ) : Prop :=
  (parseCues (shiftTimestamps text (name format) offsetMs driftFactor) format).1.map content =
    (parseCues text format).1.map (moved fun ms => precise format (applyTiming ms offsetMs driftFactor))

instance (text : List Char) (format : Format) (offsetMs driftFactor : ℚ) :
    Decidable (Retimed text format offsetMs driftFactor) := inferInstanceAs (Decidable (_ = _))

/-- All cues are kept. -/
def Kept (text : List Char) (format : Format) (offsetMs driftFactor : ℚ) : Prop :=
  if format = .ass then ∀ line ∈ assLines text, AssLineKept offsetMs driftFactor line
  else ∀ line rest, line :: rest <:+ srtVttLines text → SrtVttLineKept offsetMs driftFactor line rest

variable {text : List Char} {ext : Option String} {offsetMs driftFactor : ℚ}

theorem shiftTimestamps_ass : shiftTimestamps text (name .ass) offsetMs driftFactor =
    assShift offsetMs driftFactor text := by
  rw [shiftTimestamps, if_pos (by decide)]
  rfl

theorem shiftTimestamps_of_ne {format : Format} (h : format ≠ .ass) :
    shiftTimestamps text (name format) offsetMs driftFactor = srtVttShift offsetMs driftFactor text := by
  rw [shiftTimestamps, if_neg (by revert h; cases format <;> decide)]
  rfl

theorem retimed_ass_iff (hread : (parseCues text .ass).2 = 0) :
    Retimed text .ass offsetMs driftFactor ↔ Kept text .ass offsetMs driftFactor := by
  have hread : (collect assReading 0 (assLines text)).2 = 0 := hread
  have hiff := collect_shift_iff (g := fun ms => applyTiming ms offsetMs driftFactor / 10 * 10)
    (follow_assShift offsetMs driftFactor) (readable_of_collect hread) 0
  rw [← assLines_shift] at hiff
  rw [Retimed, shiftTimestamps_ass, Kept, if_pos rfl]
  refine hiff.trans ?_
  simp only [moves_assShift_iff]
  constructor
  · intro h line hline
    obtain ⟨before, rest, hsplit⟩ := List.append_of_mem hline
    exact h line rest ⟨before, hsplit.symm⟩
  · exact fun h line rest hsuffix => h line (hsuffix.subset List.mem_cons_self)

theorem retimed_srtVtt_iff {format : Format} (h : format ≠ .ass) (hread : (parseCues text format).2 = 0) :
    Retimed text format offsetMs driftFactor ↔ Kept text format offsetMs driftFactor := by
  have hparse : ∀ text, parseCues text format = collect srtVttReading 0 (srtVttLines text) := fun text => if_neg h
  have hprecise : precise format = id := funext fun ms => if_neg h
  rw [hparse] at hread
  have hiff := collect_shift_iff (g := fun ms => applyTiming ms offsetMs driftFactor)
    (follow_srtVttShift offsetMs driftFactor) (readable_of_collect hread) 0
  rw [← srtVttLines_shift] at hiff
  rw [Retimed, shiftTimestamps_of_ne h, hparse, hparse, hprecise, Kept, if_neg h]
  refine hiff.trans ?_
  refine forall_congr' fun line => forall_congr' fun rest => forall_congr' fun hsuffix => moves_srtVttShift_iff ?_
  exact fun l hl => notMem_of_mem_splitOn (hsuffix.subset (List.mem_cons_of_mem line hl))

/-- The cues of a valid subtitle are retimed exactly when all of them are kept. -/
theorem retimed_iff (text : List Char) (ext : Option String) (offsetMs driftFactor : ℚ)
    (h : (validateSubtitle text ext).valid = true) :
    Retimed text (validateSubtitle text ext).format offsetMs driftFactor ↔
      Kept text (validateSubtitle text ext).format offsetMs driftFactor := by
  obtain ⟨-, hread⟩ := of_valid h
  by_cases hass : (validateSubtitle text ext).format = .ass
  · rw [hass] at hread ⊢
    exact retimed_ass_iff hread
  · exact retimed_srtVtt_iff hass hread

def greeting : String := "1\n00:00:01,000 --> 00:00:04,000\nHello."

theorem retimed_greeting_iff : Retimed greeting.toList (validateSubtitle greeting.toList (some "srt")).format 2000 1 ↔
    Kept greeting.toList (validateSubtitle greeting.toList (some "srt")).format 2000 1 :=
  retimed_iff greeting.toList (some "srt") 2000 1 (by decide +kernel)

/-- A valid subtitle whose times have no hours. -/
def shortVtt : String := "WEBVTT\n\n00:01.000 --> 00:04.000\nHello."

theorem not_retimed_short : (validateSubtitle shortVtt.toList (some "vtt")).valid = true ∧
    ¬Retimed shortVtt.toList (validateSubtitle shortVtt.toList (some "vtt")).format 1000 1 := by
  decide +kernel

end UltraTorrent.Subtitles.RetimedCues
