import Mathlib.Data.List.Sort
import Mathlib.Order.Lex
import UltraTorrent.Library.EcmaScript

/-! Sorting by a key and, where keys are equal, by the collation of a name. A collation may take
different texts for spellings of one another; where it does not, the sorted list is the same in
whatever order the entries are listed. -/
namespace UltraTorrent.Library.Collation

/-- The collation is a total preorder, and none of these texts is another spelling of another one. -/
structure Collates (collate : String → String → ℤ) (texts : List String) : Prop where
  total : ∀ a b, collate a b ≤ 0 ∨ collate b a ≤ 0
  trans : ∀ a b c, collate a b ≤ 0 → collate b c ≤ 0 → collate a c ≤ 0
  antisymm : ∀ a ∈ texts, ∀ b ∈ texts, collate a b ≤ 0 → collate b a ≤ 0 → a = b

theorem Collates.subset {collate : String → String → ℤ} {texts some : List String}
    (h : Collates collate texts) (hsome : some ⊆ texts) : Collates collate some :=
  ⟨h.total, h.trans, fun a ha b hb => h.antisymm a (hsome ha) b (hsome hb)⟩

theorem collates_ascii (texts : List String) : Collates EcmaScript.Runtime.ascii.localeCompare texts where
  total a b := by
    rw [EcmaScript.Runtime.ascii_localeCompare, EcmaScript.Runtime.ascii_localeCompare]
    exact String.le_total a b
  trans a b c := by
    simp only [EcmaScript.Runtime.ascii_localeCompare]
    exact String.le_trans
  antisymm a _ b _ := by
    simp only [EcmaScript.Runtime.ascii_localeCompare]
    exact String.le_antisymm

variable {α β : Type*} [LinearOrder β] (collate : String → String → ℤ) (key : α → β) (name : α → String)

def before (a b : α) : Bool := key a < key b ∨ key a = key b ∧ collate (name a) (name b) ≤ 0

/-- The entries in their order. -/
def ranked (l : List α) : List α := l.mergeSort (before collate key name)

variable {collate key name} {l l' : List α} {a b c : α}

theorem before_iff : before collate key name a b ↔
    key a < key b ∨ key a = key b ∧ collate (name a) (name b) ≤ 0 := decide_eq_true_iff

theorem key_le_of_before (h : before collate key name a b) : key a ≤ key b := by
  obtain hlt | ⟨heq, -⟩ := before_iff.1 h
  · exact hlt.le
  · exact heq.le

theorem ranked_perm (l : List α) : (ranked collate key name l).Perm l := List.mergeSort_perm ..

@[simp] theorem mem_ranked : a ∈ ranked collate key name l ↔ a ∈ l := (ranked_perm l).mem_iff

section

variable {texts : List String} (h : Collates collate texts)
include h

theorem before_total (a b : α) : (before collate key name a b || before collate key name b a) = true := by
  rw [Bool.or_eq_true, before_iff, before_iff]
  rcases lt_trichotomy (key a) (key b) with hlt | heq | hlt
  · exact .inl (.inl hlt)
  · exact (h.total (name a) (name b)).imp (fun hle => .inr ⟨heq, hle⟩) fun hle => .inr ⟨heq.symm, hle⟩
  · exact .inr (.inl hlt)

theorem before_trans (a b c : α) (hab : before collate key name a b) (hbc : before collate key name b c) :
    before collate key name a c := by
  rw [before_iff] at *
  rcases hab with hab | ⟨hab, hle⟩
  · rcases hbc with hbc | ⟨hbc, -⟩
    · exact .inl (hab.trans hbc)
    · exact .inl (hbc ▸ hab)
  · rcases hbc with hbc | ⟨hbc, hle'⟩
    · exact .inl (hab ▸ hbc)
    · exact .inr ⟨hab.trans hbc, h.trans _ _ _ hle hle'⟩

theorem pairwise_ranked (l : List α) :
    (ranked collate key name l).Pairwise fun a b => before collate key name a b :=
  List.pairwise_mergeSort (before_trans h) (before_total h) l

end

theorem before_antisymm (h : Collates collate (l.map name)) (hnodup : (l.map name).Nodup) (ha : a ∈ l)
    (hb : b ∈ l) (hab : before collate key name a b) (hba : before collate key name b a) : a = b := by
  refine List.inj_on_of_nodup_map hnodup ha hb ?_
  rw [before_iff] at hab hba
  rcases hab with hab | ⟨heq, hab⟩
  · rcases hba with hba | ⟨heq, -⟩
    · exact absurd hba (lt_asymm hab)
    · exact absurd heq hab.ne'
  · rcases hba with hba | ⟨-, hba⟩
    · exact absurd heq hba.ne'
    · exact h.antisymm _ (List.mem_map_of_mem ha) _ (List.mem_map_of_mem hb) hab hba

/-- There is only one way to sort the entries. -/
theorem eq_ranked (h : Collates collate (l.map name)) (hnodup : (l.map name).Nodup) (hperm : l'.Perm l)
    (hsorted : l'.Pairwise fun a b => before collate key name a b) : l' = ranked collate key name l := by
  refine List.Perm.eq_of_pairwise (fun a b ha hb hab hba => ?_) hsorted (pairwise_ranked h l)
    (hperm.trans (ranked_perm l).symm)
  exact before_antisymm h hnodup (hperm.mem_iff.1 ha) (mem_ranked.1 hb) hab hba

theorem ranked_eq_of_perm (h : Collates collate (l.map name)) (hnodup : (l.map name).Nodup)
    (hperm : l'.Perm l) : ranked collate key name l' = ranked collate key name l :=
  eq_ranked h hnodup ((ranked_perm l').trans hperm) (pairwise_ranked h l')

/-- The entries that are kept are in the order they have among themselves. -/
theorem filter_ranked {p : α → Bool} {texts : List String} (hall : Collates collate texts)
    (h : Collates collate ((l.filter p).map name)) (hnodup : ((l.filter p).map name).Nodup) :
    (ranked collate key name l).filter p = ranked collate key name (l.filter p) :=
  eq_ranked h hnodup ((ranked_perm l).filter p) ((pairwise_ranked hall l).filter p)

end UltraTorrent.Library.Collation
