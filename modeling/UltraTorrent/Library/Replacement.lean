import Mathlib.Algebra.BigOperators.Group.List.Basic
import Mathlib.Data.List.Infix
import Mathlib.Data.List.Flatten
import UltraTorrent.Library.Segments

/-! `text.replace(pattern, f)`: a text is read from left to right, and where the pattern matches, what
it matched is replaced and reading goes on behind it. -/
namespace UltraTorrent.Library.Replacement

open Segments

variable {α β : Type*}

/-- What a pattern finds at the front of a text, and what follows. -/
abbrev Matcher (α β : Type*) := List α → Option (β × List α)

/-- A match takes something away. -/
def Consumes (m : Matcher α β) : Prop :=
  ∀ text b rest, m text = some (b, rest) → ∃ front, front ≠ [] ∧ text = front ++ rest

/-- A text as matches and other symbols; what a match covers is skipped. -/
def pieces (m : Matcher α β) : ℕ → List α → List (α ⊕ β)
  | _, [] => []
  | skip + 1, _ :: text => pieces m skip text
  | 0, c :: text =>
    match m (c :: text) with
    | none => .inl c :: pieces m 0 text
    | some (b, rest) => .inr b :: pieces m (text.length - rest.length) text

/-- With the global flag. -/
def replaceAll (m : Matcher α β) (f : β → List α) (text : List α) : List α :=
  (pieces m 0 text).flatMap (Sum.elim (fun c => [c]) f)

def found (m : Matcher α β) (text : List α) : List β := (pieces m 0 text).filterMap Sum.getRight?

/-- Without it: the first match only. -/
def replaceFirst (m : Matcher α β) (f : β → List α) : List α → List α
  | [] => []
  | c :: text =>
    match m (c :: text) with
    | none => c :: replaceFirst m f text
    | some (b, rest) => f b ++ rest

/-- The pieces of a text, one after the other. -/
inductive Cut (m : Matcher α β) : List α → List (α ⊕ β) → Prop
  | nil : Cut m [] []
  | other {c : α} {text : List α} {ps : List (α ⊕ β)} (h : m (c :: text) = none) (hrest : Cut m text ps) :
    Cut m (c :: text) (.inl c :: ps)
  | hit {text rest : List α} {b : β} {ps : List (α ⊕ β)} (h : m text = some (b, rest))
    (hrest : Cut m rest ps) : Cut m text (.inr b :: ps)

variable {m : Matcher α β} {f : β → List α} {text rest : List α} {b : β} {c : α}

theorem pieces_skip (m : Matcher α β) (skip : ℕ) (text : List α) :
    pieces m skip text = pieces m 0 (text.drop skip) := by
  induction text generalizing skip with
  | nil => cases skip <;> rfl
  | cons c text ih =>
    cases skip with
    | zero => rfl
    | succ skip => rw [pieces, ih, List.drop_succ_cons]

theorem pieces_match (hm : Consumes m) (h : m (c :: text) = some (b, rest)) :
    pieces m 0 (c :: text) = .inr b :: pieces m 0 rest := by
  obtain ⟨front, hfront, heq⟩ := hm _ _ _ h
  cases front with
  | nil => exact absurd rfl hfront
  | cons d front =>
    rw [List.cons_append, List.cons.injEq] at heq
    obtain ⟨rfl, rfl⟩ := heq
    have hskip : (front ++ rest).length - rest.length = front.length := by simp
    rw [pieces, h]
    dsimp only
    rw [hskip, pieces_skip, List.drop_left]

theorem cut_pieces (hm : Consumes m) (text : List α) : Cut m text (pieces m 0 text) := by
  induction hn : text.length using Nat.strong_induction_on generalizing text with
  | h n ih =>
    cases text with
    | nil => exact .nil
    | cons c text =>
      cases h : m (c :: text) with
      | none =>
        rw [pieces, h]
        exact .other h (ih _ (by simp [← hn]) text rfl)
      | some result =>
        obtain ⟨b, rest⟩ := result
        obtain ⟨front, hfront, heq⟩ := hm _ _ _ h
        have hlt : rest.length < n := by
          have := List.length_pos_of_ne_nil hfront
          rw [← hn, heq, List.length_append]
          omega
        rw [pieces_match hm h]
        exact .hit h (ih _ hlt rest rfl)

/-! ### What replacing leaves -/

/-- Symbols that are not replaced have a property the replacements have: then so has the result. -/
theorem forall_replaceAll {P : α → Prop} (hm : Consumes m)
    (hother : ∀ c rest, m (c :: rest) = none → c ∈ text → P c) (hf : ∀ b, ∀ c ∈ f b, P c) :
    ∀ c ∈ replaceAll m f text, P c := by
  have hcut := cut_pieces hm text
  rw [replaceAll]
  generalize pieces m 0 text = ps at hcut
  induction hcut with
  | nil => simp
  | other h _ ih =>
    rw [List.flatMap_cons, List.forall_mem_append]
    refine ⟨?_, ih fun c rest hnone hc => hother c rest hnone (List.mem_cons_of_mem _ hc)⟩
    rintro d hd
    rw [Sum.elim_inl, List.mem_singleton] at hd
    exact hd ▸ hother _ _ h List.mem_cons_self
  | hit h _ ih =>
    obtain ⟨front, -, rfl⟩ := hm _ _ _ h
    rw [List.flatMap_cons, List.forall_mem_append]
    exact ⟨hf _, ih fun c rest hnone hc => hother c rest hnone (List.mem_append_right _ hc)⟩

theorem count_replaceAll_le [DecidableEq α] (s : α) (w : β → ℕ) (hm : Consumes m)
    (hw : ∀ text b rest, m text = some (b, rest) → w b + rest.count s ≤ text.count s)
    (hf : ∀ b ∈ found m text, (f b).count s ≤ w b) : (replaceAll m f text).count s ≤ text.count s := by
  have hcut := cut_pieces hm text
  rw [found] at hf
  rw [replaceAll]
  generalize pieces m 0 text = ps at hcut hf
  induction hcut with
  | nil => simp
  | other h _ ih =>
    have hrest := ih fun b hb => hf b (by simpa using hb)
    rw [List.flatMap_cons, List.count_append, Sum.elim_inl, List.count_cons, List.count_cons,
      List.count_nil]
    omega
  | hit h _ ih =>
    simp only [List.filterMap_cons, Sum.getRight?_inr, List.forall_mem_cons] at hf
    have hrest := ih hf.2
    have hmatch := hw _ _ _ h
    rw [List.flatMap_cons, List.count_append, Sum.elim_inr]
    have hfirst := hf.1
    omega

theorem exists_of_mem_found (f : β → List α) (h : b ∈ found m text) :
    ∃ front rest, replaceAll m f text = front ++ (f b ++ rest) := by
  obtain ⟨piece, hpiece, hright⟩ := List.mem_filterMap.1 h
  obtain ⟨front, rest, hpieces⟩ := List.append_of_mem hpiece
  rw [Sum.getRight?_eq_some_iff] at hright
  subst hright
  refine ⟨front.flatMap (Sum.elim (fun c => [c]) f), rest.flatMap (Sum.elim (fun c => [c]) f), ?_⟩
  rw [replaceAll, hpieces, List.flatMap_append, List.flatMap_cons, Sum.elim_inr]

theorem replaceFirst_sublist (h : ∀ text b rest, m text = some (b, rest) → (f b ++ rest).Sublist text)
    (text : List α) : (replaceFirst m f text).Sublist text := by
  induction text with
  | nil => exact .slnil
  | cons c text ih =>
    rw [replaceFirst]
    split
    · exact ih.cons_cons c
    · exact h _ _ _ ‹_›

theorem replaceAll_congr {g : β → List α} (h : ∀ b ∈ found m text, f b = g b) :
    replaceAll m f text = replaceAll m g text := by
  refine List.flatMap_congr fun piece hpiece => ?_
  cases piece with
  | inl c => rfl
  | inr b => exact h b (List.mem_filterMap.2 ⟨.inr b, hpiece, rfl⟩)

/-! ### What no match covers -/

theorem replaceAll_cons (h : m (c :: text) = none) :
    replaceAll m f (c :: text) = c :: replaceAll m f text := by
  rw [replaceAll, pieces, h]
  rfl

theorem replaceAll_match (hm : Consumes m) (h : m text = some (b, rest)) :
    replaceAll m f text = f b ++ replaceAll m f rest := by
  obtain ⟨front, hfront, heq⟩ := hm _ _ _ h
  obtain ⟨d, front, rfl⟩ := List.exists_cons_of_ne_nil hfront
  rw [List.cons_append] at heq
  rw [heq] at h ⊢
  rw [replaceAll, pieces_match hm h, List.flatMap_cons, Sum.elim_inr, ← replaceAll]

theorem replaceAll_append {front : List α} (h : ∀ u, u ≠ [] → u <:+ front → m (u ++ text) = none) :
    replaceAll m f (front ++ text) = front ++ replaceAll m f text := by
  induction front with
  | nil => rfl
  | cons d front ih =>
    have hnone : m (d :: (front ++ text)) = none := h (d :: front) (List.cons_ne_nil _ _) List.suffix_rfl
    rw [List.cons_append, replaceAll_cons hnone,
      ih fun u hu hsuffix => h u hu (hsuffix.trans (List.suffix_cons d front)), List.cons_append]

theorem replaceFirst_append {front : List α} (h : ∀ u, u ≠ [] → u <:+ front → m (u ++ text) = none) :
    replaceFirst m f (front ++ text) = front ++ replaceFirst m f text := by
  induction front with
  | nil => rfl
  | cons d front ih =>
    have hnone : m (d :: (front ++ text)) = none := h (d :: front) (List.cons_ne_nil _ _) List.suffix_rfl
    rw [List.cons_append, replaceFirst, hnone]
    dsimp only
    rw [ih fun u hu hsuffix => h u hu (hsuffix.trans (List.suffix_cons d front)), List.cons_append]

/-- No match covers this symbol, and what stands behind it decides nothing in front of it. -/
def StopsAt (m : Matcher α β) (s : α) : Prop :=
  ∀ u, (∀ v, m (u ++ s :: v) = none) ∨
    ∃ front b rest, front ≠ [] ∧ u = front ++ rest ∧ ∀ v, m (u ++ s :: v) = some (b, rest ++ s :: v)

theorem StopsAt.replaceAll_cons {s : α} (h : StopsAt m s) (v : List α) :
    replaceAll m f (s :: v) = s :: replaceAll m f v := by
  rcases h [] with hnone | ⟨front, b, rest, hfront, hnil, -⟩
  · exact Replacement.replaceAll_cons (hnone v)
  · exact absurd (List.append_eq_nil_iff.1 hnil.symm).1 hfront

/-- Where every replacement ends as the text before the symbol does, so does what is put there. -/
theorem StopsAt.replaceAll_append {s e : α} (hm : Consumes m) (h : StopsAt m s)
    (hf : ∀ b, ∃ g, f b = g ++ [e]) (w : List α) :
    ∃ w', ∀ v, replaceAll m f (w ++ e :: s :: v) = w' ++ e :: s :: replaceAll m f v := by
  induction hn : w.length using Nat.strong_induction_on generalizing w with
  | h n ih =>
    rcases h (w ++ [e]) with hnone | ⟨front, b, rest, hfront, hw, hmatch⟩
    · simp only [List.append_assoc, List.singleton_append] at hnone
      cases w with
      | nil =>
        refine ⟨[], fun v => ?_⟩
        rw [List.nil_append, Replacement.replaceAll_cons (hnone v), h.replaceAll_cons, List.nil_append]
      | cons a w =>
        obtain ⟨w', hw'⟩ := ih w.length (by simp [← hn]) w rfl
        refine ⟨a :: w', fun v => ?_⟩
        have hhead : m (a :: (w ++ e :: s :: v)) = none := hnone v
        rw [List.cons_append, Replacement.replaceAll_cons hhead, hw', List.cons_append]
    · simp only [List.append_assoc, List.singleton_append] at hmatch
      obtain ⟨g, hg⟩ := hf b
      rcases List.eq_nil_or_concat' rest with rfl | ⟨rest, last, rfl⟩
      · refine ⟨g, fun v => ?_⟩
        rw [replaceAll_match hm (hmatch v), hg, List.nil_append, h.replaceAll_cons, List.append_assoc,
          List.singleton_append]
      · rw [← List.append_assoc, List.append_singleton_inj] at hw
        obtain ⟨rfl, rfl⟩ := hw
        have hpos := List.length_pos_of_ne_nil hfront
        obtain ⟨w', hw'⟩ := ih rest.length (by rw [← hn, List.length_append]; omega) rest rfl
        refine ⟨f b ++ w', fun v => ?_⟩
        have hrest : m (front ++ rest ++ e :: s :: v) = some (b, rest ++ e :: s :: v) := by
          simpa using hmatch v
        rw [replaceAll_match hm hrest, hw', List.append_assoc]

theorem replaceAll_self {g : β → List α} (hm : Consumes m)
    (hg : ∀ text b rest, m text = some (b, rest) → text = g b ++ rest) (text : List α) :
    replaceAll m g text = text := by
  have hcut := cut_pieces hm text
  generalize pieces m 0 text = ps at hcut
  induction hcut with
  | nil => rfl
  | other h _ ih => rw [replaceAll_cons h, ih]
  | hit h _ ih => rw [replaceAll_match hm h, ih, ← hg _ _ _ h]

theorem found_cons (h : m (c :: text) = none) : found m (c :: text) = found m text := by
  rw [found, pieces, h]
  rfl

theorem found_match (hm : Consumes m) (h : m text = some (b, rest)) : found m text = b :: found m rest := by
  obtain ⟨front, hfront, heq⟩ := hm _ _ _ h
  obtain ⟨d, front, rfl⟩ := List.exists_cons_of_ne_nil hfront
  rw [List.cons_append] at heq
  rw [heq] at h ⊢
  rw [found, pieces_match hm h, List.filterMap_cons]
  rfl

theorem replaceAll_eq_self_iff {g : β → List α} (hm : Consumes m)
    (hg : ∀ text b rest, m text = some (b, rest) → text = g b ++ rest)
    (hcode : ∀ text b rest, m text = some (b, rest) → ∀ v, f b ++ v = text → f b = g b) (text : List α) :
    replaceAll m f text = text ↔ ∀ b ∈ found m text, f b = g b := by
  constructor
  · have hcut := cut_pieces hm text
    generalize pieces m 0 text = ps at hcut
    induction hcut with
    | nil => exact fun _ => nofun
    | other h _ ih =>
      intro heq
      rw [replaceAll_cons h, List.cons.injEq] at heq
      rw [found_cons h]
      exact ih heq.2
    | @hit text rest b _ h _ ih =>
      intro heq
      rw [replaceAll_match hm h] at heq
      have hsame := hcode _ _ _ h _ heq
      rw [hsame, hg _ _ _ h, List.append_cancel_left_eq] at heq
      rw [found_match hm h, List.forall_mem_cons]
      exact ⟨hsame, ih heq⟩
  · intro h
    rw [replaceAll_congr h, replaceAll_self hm hg]

/-! ### One pattern after another -/

namespace Matcher

variable {γ : Type*}

/-- Nothing is left to match. -/
def done (b : β) : Matcher α β := fun text => some (b, text)

def andThen (m : Matcher α β) (next : β → Matcher α γ) : Matcher α γ := fun text =>
  (m text).bind fun found => next found.1 found.2

/-- One symbol of a kind. -/
def item (p : α → Bool) : Matcher α α
  | [] => none
  | c :: text => if p c then some (c, text) else none

/-- As many symbols of a kind as there are, up to a number. -/
def upTo (p : α → Bool) : ℕ → List α → List α × List α
  | 0, text => ([], text)
  | _ + 1, [] => ([], [])
  | n + 1, c :: text => if p c then (c :: (upTo p n text).1, (upTo p n text).2) else ([], c :: text)

/-- `p{least,most}`, in front of something of another kind: no shorter match would do. -/
def between (p : α → Bool) (least most : ℕ) : Matcher α (List α) := fun text =>
  if least ≤ (upTo p most text).1.length then some (upTo p most text) else none

variable {m : Matcher α β} {p : α → Bool}

theorem andThen_eq_some {next : β → Matcher α γ} {text rest : List α} {b : γ} :
    m.andThen next text = some (b, rest) ↔ ∃ a middle, m text = some (a, middle) ∧ next a middle = some (b, rest) := by
  rw [andThen, Option.bind_eq_some_iff]
  constructor
  · rintro ⟨⟨a, middle⟩, ha, hb⟩
    exact ⟨a, middle, ha, hb⟩
  · rintro ⟨a, middle, ha, hb⟩
    exact ⟨(a, middle), ha, hb⟩

theorem item_eq_some {text rest : List α} {c : α} :
    item p text = some (c, rest) ↔ text = c :: rest ∧ p c = true := by
  cases text with
  | nil => simp [item]
  | cons d text =>
    rw [item]
    split_ifs with hd
    · constructor
      · rintro ⟨⟩
        exact ⟨rfl, hd⟩
      · rintro ⟨⟨⟩, -⟩
        rfl
    · constructor
      · nofun
      · rintro ⟨⟨⟩, hc⟩
        exact absurd hc hd

theorem upTo_eq_iff {n : ℕ} {text taken rest : List α} : upTo p n text = (taken, rest) ↔
    text = taken ++ rest ∧ (∀ c ∈ taken, p c = true) ∧ taken.length ≤ n ∧
      (taken.length = n ∨ ∀ c ∈ rest.head?, p c = false) := by
  induction n generalizing text taken with
  | zero =>
    rw [upTo, Prod.mk.injEq]
    constructor
    · rintro ⟨rfl, rfl⟩
      exact ⟨rfl, nofun, le_rfl, .inl rfl⟩
    · rintro ⟨rfl, -, hlength, -⟩
      obtain rfl := List.eq_nil_of_length_eq_zero (Nat.le_zero.1 hlength)
      exact ⟨rfl, rfl⟩
  | succ n ih =>
    cases text with
    | nil =>
      rw [upTo, Prod.mk.injEq]
      constructor
      · rintro ⟨rfl, rfl⟩
        exact ⟨rfl, nofun, Nat.zero_le _, .inr nofun⟩
      · rintro ⟨hnil, -⟩
        obtain ⟨rfl, rfl⟩ := List.append_eq_nil_iff.1 hnil.symm
        exact ⟨rfl, rfl⟩
    | cons d text =>
      rw [upTo]
      split_ifs with hd
      · rw [Prod.mk.injEq]
        constructor
        · rintro ⟨rfl, hrest⟩
          obtain ⟨htext, htaken, hlength, hend⟩ := ih.1 (Prod.ext rfl hrest)
          refine ⟨by rw [List.cons_append, ← htext], List.forall_mem_cons.2 ⟨hd, htaken⟩, ?_, ?_⟩
          · exact Nat.succ_le_succ hlength
          · exact hend.imp_left (congrArg Nat.succ)
        · rintro ⟨htext, htaken, hlength, hend⟩
          cases taken with
          | nil =>
            obtain rfl : d :: text = rest := htext
            rcases hend with hzero | hfalse
            · cases hzero
            · rw [hfalse d rfl] at hd
              cases hd
          | cons e taken =>
            rw [List.cons_append, List.cons.injEq] at htext
            obtain ⟨rfl, htext⟩ := htext
            have hupTo := ih.2 ⟨htext, (List.forall_mem_cons.1 htaken).2, Nat.le_of_succ_le_succ hlength,
              hend.imp_left Nat.succ_inj.1⟩
            rw [hupTo]
            exact ⟨rfl, rfl⟩
      · rw [Prod.mk.injEq]
        constructor
        · rintro ⟨rfl, rfl⟩
          refine ⟨rfl, nofun, Nat.zero_le _, .inr fun c hc => ?_⟩
          obtain rfl := Option.mem_some_iff.1 hc
          simpa using hd
        · rintro ⟨htext, htaken, -, -⟩
          cases taken with
          | nil => exact ⟨rfl, htext⟩
          | cons e taken =>
            obtain ⟨rfl, -⟩ := List.cons.inj htext
            exact absurd (htaken d List.mem_cons_self) hd

/-- What is taken is one of the ways to take something, and the longest. -/
theorem between_eq_some {least most : ℕ} {text taken rest : List α} :
    between p least most text = some (taken, rest) ↔
      text = taken ++ rest ∧ ((∀ c ∈ taken, p c = true) ∧ least ≤ taken.length ∧ taken.length ≤ most) ∧
        (taken.length = most ∨ ∀ c ∈ rest.head?, p c = false) := by
  rw [between, Option.ite_none_right_eq_some, Option.some_inj]
  constructor
  · rintro ⟨hleast, h⟩
    obtain ⟨htext, htaken, hmost, hend⟩ := upTo_eq_iff.1 h
    rw [h] at hleast
    exact ⟨htext, ⟨htaken, hleast, hmost⟩, hend⟩
  · rintro ⟨htext, ⟨htaken, hleast, hmost⟩, hend⟩
    have h := upTo_eq_iff.2 ⟨htext, htaken, hmost, hend⟩
    rw [h]
    exact ⟨hleast, rfl⟩

end Matcher

/-! ### Runs of symbols -/

section Collapse

variable {p : α → Bool} {mark : α}

/-- The longest run of such symbols. -/
def run (p : α → Bool) : Matcher α Unit
  | [] => none
  | c :: text => if p c then some ((), text.dropWhile p) else none

def collapse (p : α → Bool) (mark : α) (text : List α) : List α := replaceAll (run p) (fun _ => [mark]) text

theorem consumes_run (p : α → Bool) : Consumes (run p) := by
  intro text b rest h
  cases text with
  | nil => cases h
  | cons c text =>
    rw [run] at h
    split_ifs at h
    cases h
    exact ⟨c :: text.takeWhile p, List.cons_ne_nil _ _, by
      rw [List.cons_append, List.takeWhile_append_dropWhile]⟩

theorem collapse_cons (h : p c = true) : collapse p mark (c :: text) = mark :: collapse p mark (text.dropWhile p) :=
  replaceAll_match (consumes_run p) (if_pos h)

theorem collapse_append {front : List α} (h : ∀ c ∈ front, p c = false) :
    collapse p mark (front ++ text) = front ++ collapse p mark text := by
  refine replaceAll_append fun u hu hsuffix => ?_
  obtain ⟨c, u, rfl⟩ := List.exists_cons_of_ne_nil hu
  rw [List.cons_append, run, if_neg (by simp [h c (hsuffix.subset List.mem_cons_self)])]

/-- Between the marks stands what stood between the separators. -/
theorem parts_collapse (hmark : p mark = true) : parts p (collapse p mark text) = parts p text := by
  induction hn : text.length using Nat.strong_induction_on generalizing text with
  | h n ih =>
    cases text with
    | nil => rfl
    | cons c text =>
      cases hc : p c with
      | true =>
        have hlength := (List.dropWhile_suffix p (l := text)).length_le
        rw [collapse_cons hc, parts_cons hmark, parts_cons hc, ih _ (by simp [← hn]; omega) rfl, parts_dropWhile]
      | false =>
        obtain ⟨segment, rest, htext, hne, hfree, hrest⟩ := exists_segment hc text
        have hlt : rest.length < n := by
          have hpos := List.length_pos_of_ne_nil hne
          rw [← hn, htext, List.length_append]
          omega
        have hfollows : Follows p (collapse p mark rest) := by
          cases rest with
          | nil => exact follows_nil
          | cons d rest =>
            rw [collapse_cons (hrest d rfl)]
            intro e he
            obtain rfl := Option.mem_some_iff.1 he
            exact hmark
        rw [htext, collapse_append hfree, parts_append hne hfree hfollows, parts_append hne hfree hrest,
          ih _ hlt rfl]

end Collapse

end UltraTorrent.Library.Replacement
