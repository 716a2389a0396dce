import UltraTorrent.Library.Replacement
import UltraTorrent.Library.WhiteSpace

/-! Rewritings of a text that change each run between separators by itself, so that the separators stay
where they are and the runs stay runs. Splitting, trimming and everything else that looks at separators
only commutes with them. -/
namespace UltraTorrent.Library.RunRewriting

open Segments Replacement WhiteSpace

variable {α β : Type*} {sep : α → Bool} {rewrite : List α → List α} {text : List α} {c : α}

structure RunWise (sep : α → Bool) (rewrite : List α → List α) : Prop where
  nil : rewrite [] = []
  append : ∀ c, sep c = true → ∀ a b, rewrite (a ++ c :: b) = rewrite a ++ c :: rewrite b
  run : ∀ a, a ≠ [] → Free sep a → rewrite a ≠ [] ∧ Free sep (rewrite a)

variable (sep) in
theorem run_induction {P : List α → Prop} (nil : P [])
    (separator : ∀ c text, sep c = true → P text → P (c :: text))
    (run : ∀ segment rest, segment ≠ [] → Free sep segment → Follows sep rest → P rest → P (segment ++ rest))
    (text : List α) : P text := by
  induction hn : text.length using Nat.strong_induction_on generalizing text with
  | h n ih =>
    cases text with
    | nil => exact nil
    | cons c text =>
      cases hc : sep c with
      | true => exact separator c text hc (ih _ (by simp [← hn]) text rfl)
      | false =>
        obtain ⟨segment, rest, htext, hne, hfree, hrest⟩ := exists_segment hc text
        have hlt : rest.length < n := by
          have hpos := List.length_pos_of_ne_nil hne
          rw [← hn, htext, List.length_append]
          omega
        rw [htext]
        exact run segment rest hne hfree hrest (ih _ hlt rest rfl)

namespace RunWise

theorem cons (h : RunWise sep rewrite) (hc : sep c = true) (text : List α) :
    rewrite (c :: text) = c :: rewrite text := by
  have happend := h.append c hc [] text
  rwa [h.nil, List.nil_append, List.nil_append] at happend

theorem run_append (h : RunWise sep rewrite) {segment rest : List α} (hrest : Follows sep rest) :
    rewrite (segment ++ rest) = rewrite segment ++ rewrite rest := by
  cases rest with
  | nil => rw [h.nil, List.append_nil, List.append_nil]
  | cons c rest =>
    have hc : sep c = true := hrest c rfl
    rw [h.append c hc, h.cons hc]

theorem mem_iff (h : RunWise sep rewrite) (hc : sep c = true) : c ∈ rewrite text ↔ c ∈ text := by
  induction text using run_induction sep with
  | nil => rw [h.nil]
  | separator d text hd ih => rw [h.cons hd, List.mem_cons, List.mem_cons, ih]
  | run segment rest hne hfree hrest ih =>
    have hnotMem : ∀ {l : List α}, Free sep l → c ∉ l := fun hl hmem => by
      rw [hl c hmem] at hc
      cases hc
    rw [h.run_append hrest, List.mem_append, List.mem_append, ih]
    simp [hnotMem hfree, hnotMem (h.run segment hne hfree).2]

theorem splitOn [DecidableEq α] (h : RunWise sep rewrite) (hc : sep c = true) (text : List α) :
    (rewrite text).splitOn c = (text.splitOn c).map rewrite := by
  induction hn : text.length using Nat.strong_induction_on generalizing text with
  | h n ih =>
    by_cases hmem : c ∈ text
    · obtain ⟨a, b, rfl, ha⟩ := List.eq_append_cons_of_mem hmem
      have hlt : b.length < n := by
        rw [← hn, List.length_append, List.length_cons]
        omega
      rw [h.append c hc, List.splitOn_append_cons_self_of_not_mem (mt (h.mem_iff hc).1 ha),
        List.splitOn_append_cons_self_of_not_mem ha, ih _ hlt b rfl, List.map_cons]
    · rw [List.splitOn_eq_singleton hmem, List.splitOn_eq_singleton (mt (h.mem_iff hc).1 hmem)]
      rfl

theorem exists_cons (h : RunWise sep rewrite) {segment : List α} (hne : segment ≠ [])
    (hfree : Free sep segment) : ∃ d tail, rewrite segment = d :: tail ∧ sep d = false := by
  obtain ⟨hne', hfree'⟩ := h.run segment hne hfree
  obtain ⟨d, tail, hd⟩ := List.exists_cons_of_ne_nil hne'
  exact ⟨d, tail, hd, hfree' d (by rw [hd]; exact List.mem_cons_self)⟩

theorem dropWhile (h : RunWise sep rewrite) {p : α → Bool} (hp : ∀ c, p c = true → sep c = true)
    (text : List α) : (rewrite text).dropWhile p = rewrite (text.dropWhile p) := by
  have hkept : ∀ {d : α}, sep d = false → p d = false := fun {d} hd => by
    by_contra hpd
    rw [hp d (by simpa using hpd)] at hd
    cases hd
  induction text using run_induction sep with
  | nil => rw [h.nil, List.dropWhile_nil, h.nil]
  | separator c text hc ih =>
    rw [h.cons hc, List.dropWhile_cons, List.dropWhile_cons]
    split_ifs
    · exact ih
    · exact (h.cons hc text).symm
  | run segment rest hne hfree hrest _ =>
    obtain ⟨d, tail, hd, hsep⟩ := h.exists_cons hne hfree
    obtain ⟨e, segment, rfl⟩ := List.exists_cons_of_ne_nil hne
    have he := hkept (hfree e List.mem_cons_self)
    rw [List.cons_append, List.dropWhile_cons_of_neg (by simp [he]), ← List.cons_append, h.run_append hrest, hd,
      List.cons_append, List.dropWhile_cons_of_neg (by simp [hkept hsep])]

theorem reverse (h : RunWise sep rewrite) : RunWise sep fun text => (rewrite text.reverse).reverse where
  nil := by rw [List.reverse_nil, h.nil, List.reverse_nil]
  append c hc a b := by
    rw [List.reverse_append, List.reverse_cons, List.append_assoc, List.singleton_append, h.append c hc,
      List.reverse_append, List.reverse_cons, List.append_assoc, List.singleton_append]
  run a hne hfree := by
    obtain ⟨hne', hfree'⟩ := h.run a.reverse (by simpa using hne) fun c hc => hfree c (List.mem_reverse.1 hc)
    exact ⟨by simpa using hne', fun c hc => hfree' c (List.mem_reverse.1 hc)⟩

theorem rdropWhile (h : RunWise sep rewrite) {p : α → Bool} (hp : ∀ c, p c = true → sep c = true)
    (text : List α) : (rewrite text).rdropWhile p = rewrite (text.rdropWhile p) := by
  have hreverse := h.reverse.dropWhile hp text.reverse
  rw [List.reverse_reverse] at hreverse
  rw [List.rdropWhile, List.rdropWhile, hreverse, List.reverse_reverse]

theorem trimmed {rewrite : List Char → List Char} {sep : Char → Bool} (h : RunWise sep rewrite)
    (hsep : ∀ c, isWhiteSpace c = true → sep c = true) (text : List Char) :
    trimmed (rewrite text) = rewrite (trimmed text) := by
  rw [WhiteSpace.trimmed, h.dropWhile hsep, h.rdropWhile hsep, ← WhiteSpace.trimmed]

theorem eq_nil_iff (h : RunWise sep rewrite) : rewrite text = [] ↔ text = [] := by
  constructor
  · intro hnil
    induction text using run_induction sep with
    | nil => rfl
    | separator c text hc _ =>
      rw [h.cons hc] at hnil
      cases hnil
    | run segment rest hne hfree hrest _ =>
      rw [h.run_append hrest, List.append_eq_nil_iff] at hnil
      exact absurd hnil.1 (h.run segment hne hfree).1
  · rintro rfl
    exact h.nil

end RunWise

/-! ### Replacing within runs -/

/-- A separator ends what a pattern sees. -/
def Closes (sep : α → Bool) (m : Matcher α β) : Prop :=
  ∀ c, sep c = true → ∀ u v, m (u ++ c :: v) = (m u).map fun found => (found.1, found.2 ++ c :: v)

section Closes

variable {γ : Type*} {m : Matcher α β} {p : α → Bool}

theorem closes_done (b : β) : Closes sep (Matcher.done b) := fun _ _ _ _ => rfl

theorem Closes.andThen {next : β → Matcher α γ} (hm : Closes sep m) (hnext : ∀ b, Closes sep (next b)) :
    Closes sep (m.andThen next) := by
  intro c hc u v
  rw [Matcher.andThen, Matcher.andThen, hm c hc, Option.bind_map, Option.map_bind]
  congr 1
  funext found
  exact hnext found.1 c hc found.2 v

theorem closes_item (hp : ∀ c, sep c = true → p c = false) : Closes sep (Matcher.item p) := by
  intro c hc u v
  cases u with
  | nil => exact if_neg (by simp [hp c hc])
  | cons d u =>
    rw [List.cons_append, Matcher.item, Matcher.item]
    split_ifs <;> rfl

theorem upTo_append (hp : p c = false) (n : ℕ) (u v : List α) :
    Matcher.upTo p n (u ++ c :: v) = ((Matcher.upTo p n u).1, (Matcher.upTo p n u).2 ++ c :: v) := by
  induction n generalizing u with
  | zero => rfl
  | succ n ih =>
    cases u with
    | nil => exact if_neg (by simp [hp])
    | cons d u =>
      rw [List.cons_append, Matcher.upTo, Matcher.upTo, ih]
      split_ifs <;> rfl

theorem closes_between (hp : ∀ c, sep c = true → p c = false) (least most : ℕ) :
    Closes sep (Matcher.between p least most) := by
  intro c hc u v
  rw [Matcher.between, Matcher.between, upTo_append (hp c hc)]
  split_ifs <;> rfl

end Closes

theorem runWise_replaceAll {m : Matcher α β} {f : β → List α} (hm : Consumes m) (hcloses : Closes sep m)
    (hf : ∀ b, f b ≠ [] ∧ Free sep (f b)) : RunWise sep (replaceAll m f) where
  nil := rfl
  append c hc a b := by
    have hnil : m [] = none := by
      rw [Option.eq_none_iff_forall_ne_some]
      rintro ⟨x, rest⟩ hx
      obtain ⟨front, hfront, heq⟩ := hm _ _ _ hx
      exact hfront (List.append_eq_nil_iff.1 heq.symm).1
    have hempty : m (c :: b) = none := by
      have := hcloses c hc [] b
      rwa [hnil] at this
    have hcut := cut_pieces hm a
    generalize pieces m 0 a = ps at hcut
    induction hcut with
    | nil => exact replaceAll_cons hempty
    | @other d a _ hd _ ih =>
      have hnone : m (d :: (a ++ c :: b)) = none := by
        rw [← List.cons_append, hcloses c hc, hd]
        rfl
      rw [List.cons_append, replaceAll_cons hnone, ih, replaceAll_cons hd, List.cons_append]
    | @hit a rest x _ hx _ ih =>
      have hsome : m (a ++ c :: b) = some (x, rest ++ c :: b) := by
        rw [hcloses c hc, hx]
        rfl
      rw [replaceAll_match hm hsome, ih, replaceAll_match hm hx, List.append_assoc]
  run a hne hfree := by
    constructor
    · obtain ⟨c, a, rfl⟩ := List.exists_cons_of_ne_nil hne
      cases hfound : m (c :: a) with
      | none =>
        rw [replaceAll_cons hfound]
        exact List.cons_ne_nil _ _
      | some found =>
        rw [replaceAll_match hm hfound]
        exact List.append_ne_nil_of_left_ne_nil (hf found.1).1 _
    · exact forall_replaceAll hm (fun c _ _ hc => hfree c hc) fun b => (hf b).2

end UltraTorrent.Library.RunRewriting
