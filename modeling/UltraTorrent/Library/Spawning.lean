import Mathlib.Algebra.BigOperators.Group.Finset.Basic
import Mathlib.Algebra.Order.BigOperators.Group.Finset
import Mathlib.Data.List.Chain

/-! Things that start one another, numbered as they come: all but the first are started by one
that came before, from a slot of it that starts one thing only. Where none lies deeper than a
bound, chains are short and there are few of them. -/
namespace UltraTorrent.Library.Spawning

variable {κ : Type*}

/-- Who started what, from which slot, and how far below the first it lies. -/
structure Spawned (size : ℕ) (parent : ℕ → Option (ℕ × κ)) (level : ℕ → ℕ) : Prop where
  first : ∀ i < size, parent i = none → level i = 0
  below : ∀ i < size, ∀ q slot, parent i = some (q, slot) → q < size ∧ level i = level q + 1
  distinct : ∀ i < size, ∀ j < size, parent i = parent j → i = j

/-- The second started the first. -/
def StartedBy (parent : ℕ → Option (ℕ × κ)) (i q : ℕ) : Prop := ∃ slot, parent i = some (q, slot)

variable {size : ℕ} {parent : ℕ → Option (ℕ × κ)} {level : ℕ → ℕ}

/-- One more is started, from a slot that has started nothing. -/
theorem Spawned.start {parent' : ℕ → Option (ℕ × κ)} {level' : ℕ → ℕ} {q : ℕ} {slot : κ}
    (h : Spawned size parent level)
    (hold : ∀ i < size, parent' i = parent i ∧ level' i = level i) (hq : q < size)
    (hparent : parent' size = some (q, slot)) (hlevel : level' size = level q + 1)
    (hunused : ∀ i < size, parent i ≠ some (q, slot)) : Spawned (size + 1) parent' level' := by
  refine ⟨fun i hi hnone => ?_, fun i hi q' slot' hlink => ?_, fun i hi j hj hij => ?_⟩
  · rcases Nat.lt_succ_iff_lt_or_eq.1 hi with hi | rfl
    · rw [(hold i hi).2]
      exact h.first i hi ((hold i hi).1 ▸ hnone)
    · cases hparent.symm.trans hnone
  · rcases Nat.lt_succ_iff_lt_or_eq.1 hi with hi | rfl
    · obtain ⟨hlt, hbelow⟩ := h.below i hi q' slot' ((hold i hi).1 ▸ hlink)
      rw [(hold i hi).2, (hold q' hlt).2]
      exact ⟨hlt.trans (Nat.lt_succ_self _), hbelow⟩
    · cases hparent.symm.trans hlink
      rw [(hold q hq).2]
      exact ⟨hq.trans (Nat.lt_succ_self _), hlevel⟩
  · rcases Nat.lt_succ_iff_lt_or_eq.1 hi with hi | rfl <;>
      rcases Nat.lt_succ_iff_lt_or_eq.1 hj with hj | rfl
    · rw [(hold i hi).1, (hold j hj).1] at hij
      exact h.distinct i hi j hj hij
    · rw [(hold i hi).1, hparent] at hij
      exact absurd hij (hunused i hi)
    · rw [(hold j hj).1, hparent] at hij
      exact absurd hij.symm (hunused j hj)
    · rfl

theorem Spawned.length_le_level (h : Spawned size parent level) {i : ℕ} {chain : List ℕ}
    (hchain : List.IsChain (StartedBy parent) (i :: chain)) (hi : i < size) :
    chain.length ≤ level i := by
  induction chain generalizing i with
  | nil => exact Nat.zero_le _
  | cons q chain ih =>
    obtain ⟨⟨slot, hparent⟩, hrest⟩ := List.isChain_cons_cons.1 hchain
    obtain ⟨hq, hlevel⟩ := h.below i hi q slot hparent
    rw [hlevel, List.length_cons]
    exact Nat.succ_le_succ (ih hrest hq)

theorem Spawned.length_le (h : Spawned size parent level) {depth : ℕ}
    (hdepth : ∀ i < size, level i ≤ depth) {chain : List ℕ}
    (hchain : List.IsChain (StartedBy parent) chain) (hmem : ∀ i ∈ chain, i < size) :
    chain.length ≤ depth + 1 := by
  cases chain with
  | nil => exact Nat.zero_le _
  | cons i chain =>
    have hi := hmem i List.mem_cons_self
    exact Nat.succ_le_succ ((h.length_le_level hchain hi).trans (hdepth i hi))

/-- What lies at one level. -/
def layer (size : ℕ) (level : ℕ → ℕ) (k : ℕ) : Finset ℕ := (Finset.range size).filter fun i => level i = k

theorem mem_layer {i k : ℕ} : i ∈ layer size level k ↔ i < size ∧ level i = k := by
  simp [layer]

theorem Spawned.card_layer_zero (h : Spawned size parent level) : (layer size level 0).card ≤ 1 := by
  refine Finset.card_le_one.2 fun i hi j hj => ?_
  have hroot : ∀ i ∈ layer size level 0, i < size ∧ parent i = none := by
    intro i hi
    obtain ⟨hlt, hlevel⟩ := mem_layer.1 hi
    refine ⟨hlt, Option.eq_none_iff_forall_ne_some.2 fun ⟨q, slot⟩ hparent => ?_⟩
    obtain ⟨-, hbelow⟩ := h.below i hlt q slot hparent
    omega
  obtain ⟨hi, hparent⟩ := hroot i hi
  obtain ⟨hj, hparent'⟩ := hroot j hj
  exact h.distinct i hi j hj (hparent.trans hparent'.symm)

variable [DecidableEq κ] {slots : ℕ → Finset κ} {width : ℕ}

/-- A layer is at most so many times as large as the one above it as each thing has slots. -/
theorem Spawned.card_layer_succ (h : Spawned size parent level)
    (hslots : ∀ i < size, ∀ q slot, parent i = some (q, slot) → slot ∈ slots q)
    (hwidth : ∀ q < size, (slots q).card ≤ width) (k : ℕ) :
    (layer size level (k + 1)).card ≤ (layer size level k).card * width := by
  let started := (layer size level k).biUnion fun q => (slots q).image fun slot => some (q, slot)
  have hmaps : ∀ i ∈ layer size level (k + 1), parent i ∈ started := by
    intro i hi
    obtain ⟨hlt, hlevel⟩ := mem_layer.1 hi
    cases hparent : parent i with
    | none =>
      have hzero := h.first i hlt hparent
      omega
    | some link =>
      obtain ⟨q, slot⟩ := link
      obtain ⟨hq, hbelow⟩ := h.below i hlt q slot hparent
      refine Finset.mem_biUnion.2 ⟨q, mem_layer.2 ⟨hq, by omega⟩, ?_⟩
      exact Finset.mem_image_of_mem _ (hslots i hlt q slot hparent)
  have hinj : Set.InjOn parent (layer size level (k + 1)) := fun i hi j hj hij =>
    h.distinct i (mem_layer.1 hi).1 j (mem_layer.1 hj).1 hij
  refine (Finset.card_le_card_of_injOn parent hmaps hinj).trans ?_
  refine Finset.card_biUnion_le_card_mul _ _ _ fun q hq => ?_
  exact Finset.card_image_le.trans (hwidth q (mem_layer.1 hq).1)

variable (slots) in
theorem Spawned.size_le (h : Spawned size parent level) {depth : ℕ}
    (hdepth : ∀ i < size, level i ≤ depth)
    (hslots : ∀ i < size, ∀ q slot, parent i = some (q, slot) → slot ∈ slots q)
    (hwidth : ∀ q < size, (slots q).card ≤ width) :
    size ≤ ∑ k ∈ Finset.range (depth + 1), width ^ k := by
  have hlayer : ∀ k, (layer size level k).card ≤ width ^ k := by
    intro k
    induction k with
    | zero => exact h.card_layer_zero
    | succ k ih =>
      rw [pow_succ]
      exact (h.card_layer_succ hslots hwidth k).trans (Nat.mul_le_mul_right width ih)
  have hlevels : ∀ i ∈ Finset.range size, level i ∈ Finset.range (depth + 1) := fun i hi =>
    Finset.mem_range.2 (Nat.lt_succ_of_le (hdepth i (Finset.mem_range.1 hi)))
  calc size = (Finset.range size).card := (Finset.card_range size).symm
    _ = ∑ k ∈ Finset.range (depth + 1), (layer size level k).card :=
      Finset.card_eq_sum_card_fiberwise hlevels
    _ ≤ ∑ k ∈ Finset.range (depth + 1), width ^ k := Finset.sum_le_sum fun k _ => hlayer k

end UltraTorrent.Library.Spawning
