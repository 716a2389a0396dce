import Mathlib.Logic.Function.Basic
import Mathlib.Logic.Relation
import Mathlib.Order.Bounds.Basic
import Mathlib.Tactic.SplitIfs

/-! Entries that need others, dropped one after another where something they need is missing, until a
walk drops none. What is left is the largest part that needs nothing outside. -/
namespace UltraTorrent.Library.Pruning

variable {α κ : Type*} [DecidableEq κ] (key : α → κ) (needs : α → List κ)

/-- One walk, and whether anything has been dropped by its end. -/
def walk : List α → (κ → Bool) → Bool → (κ → Bool) × Bool
  | [], kept, changed => (kept, changed)
  | a :: entries, kept, changed =>
    if kept (key a) && (needs a).any fun k => !kept k then
      walk entries (Function.update kept (key a) false) true
    else walk entries kept changed

/-- Walks until one changes nothing; nothing when there are not as many walks. -/
def prune (entries : List α) : ℕ → (κ → Bool) → Option (κ → Bool)
  | 0, _ => none
  | walks + 1, kept =>
    match walk key needs entries kept false with
    | (kept, true) => prune entries walks kept
    | (kept, false) => some kept

/-- Every entry in the part finds what it needs there. -/
def Closed (entries : List α) (part : Set κ) : Prop := ∀ a ∈ entries, key a ∈ part → ∀ k ∈ needs a, k ∈ part

variable {key needs} {entries rest : List α} {kept kept' : κ → Bool} {changed changed' : Bool} {part : Set κ}
  {walks : ℕ} {a : α}

omit [DecidableEq κ] in
theorem drops_iff : (kept (key a) && (needs a).any fun k => !kept k) = true ↔
    kept (key a) = true ∧ ∃ k ∈ needs a, kept k = false := by
  simp

theorem walk_subset (h : walk key needs rest kept changed = (kept', changed')) :
    ∀ k, kept' k = true → kept k = true := by
  induction rest generalizing kept changed with
  | nil =>
    cases h
    exact fun _ hk => hk
  | cons a rest ih =>
    rw [walk] at h
    split_ifs at h
    · intro k hk
      have hkept := ih h k hk
      rw [Function.update_apply] at hkept
      split_ifs at hkept
      exact hkept
    · exact ih h

/-- A walk drops nothing of a closed part. -/
theorem subset_walk (hclosed : Closed key needs entries part) (hrest : ∀ a ∈ rest, a ∈ entries)
    (hpart : ∀ k ∈ part, kept k = true) (h : walk key needs rest kept changed = (kept', changed')) :
    ∀ k ∈ part, kept' k = true := by
  induction rest generalizing kept changed with
  | nil =>
    cases h
    exact hpart
  | cons a rest ih =>
    have htail : ∀ b ∈ rest, b ∈ entries := fun b hb => hrest b (List.mem_cons_of_mem a hb)
    rw [walk] at h
    split_ifs at h with hdrops
    · obtain ⟨-, k, hk, hmissing⟩ := drops_iff.1 hdrops
      have houtside : key a ∉ part := by
        intro ha
        have hkept := hpart k (hclosed a (hrest a List.mem_cons_self) ha k hk)
        rw [hmissing] at hkept
        cases hkept
      refine ih htail (fun l hl => ?_) h
      have hne : l ≠ key a := fun hla => houtside (hla ▸ hl)
      rw [Function.update_of_ne hne]
      exact hpart l hl
    · exact ih htail hpart h

theorem walk_changed (h : walk key needs rest kept true = (kept', changed')) : changed' = true := by
  induction rest generalizing kept with
  | nil =>
    cases h
    rfl
  | cons a rest ih =>
    rw [walk] at h
    split_ifs at h <;> exact ih h

theorem walk_unchanged (h : walk key needs rest kept false = (kept', false)) :
    kept' = kept ∧ Closed key needs rest {k | kept k = true} := by
  induction rest with
  | nil =>
    cases h
    exact ⟨rfl, fun _ ha => absurd ha List.not_mem_nil⟩
  | cons a rest ih =>
    rw [walk] at h
    split_ifs at h with hdrops
    · cases walk_changed h
    · obtain ⟨hkept, hclosed⟩ := ih h
      refine ⟨hkept, fun b hb hbkept k hk => ?_⟩
      rcases List.mem_cons.1 hb with rfl | hb
      · by_contra hmissing
        exact hdrops (drops_iff.2 ⟨hbkept, k, hk, Bool.eq_false_iff.2 hmissing⟩)
      · exact hclosed b hb hbkept k hk

theorem prune_greatest (h : prune key needs entries walks kept = some kept') :
    IsGreatest {part | part ⊆ {k | kept k = true} ∧ Closed key needs entries part} {k | kept' k = true} := by
  induction walks generalizing kept with
  | zero => cases h
  | succ walks ih =>
    rw [prune] at h
    cases hwalk : walk key needs entries kept false with
    | mk next changed =>
      rw [hwalk] at h
      have hsubset := walk_subset hwalk
      cases changed with
      | true =>
        obtain ⟨⟨hnext, hclosed⟩, hgreatest⟩ := ih h
        refine ⟨⟨fun k hk => hsubset k (hnext hk), hclosed⟩, ?_⟩
        rintro part ⟨hpart, hpartClosed⟩
        exact hgreatest ⟨subset_walk hpartClosed (fun _ ha => ha) hpart hwalk, hpartClosed⟩
      | false =>
        cases h
        obtain ⟨rfl, hclosed⟩ := walk_unchanged hwalk
        exact ⟨⟨subset_rfl, hclosed⟩, fun part hpart => hpart.1⟩

/-- An entry of the first key needs the second. -/
def Needs (key : α → κ) (needs : α → List κ) (entries : List α) (k l : κ) : Prop := ∃ a ∈ entries, key a = k ∧ l ∈ needs a

/-- An entry is left exactly when it and all it leads to were there. -/
theorem prune_iff (h : prune key needs entries walks kept = some kept') (k : κ) :
    kept' k = true ↔ ∀ l, Relation.ReflTransGen (Needs key needs entries) k l → kept l = true := by
  obtain ⟨⟨hsubset, hclosed⟩, hgreatest⟩ := prune_greatest h
  constructor
  · intro hk l hpath
    have hl : kept' l = true := by
      induction hpath with
      | refl => exact hk
      | tail _ hneeds ih =>
        obtain ⟨a, ha, rfl, hl⟩ := hneeds
        exact hclosed a ha ih _ hl
    exact hsubset hl
  · intro hk
    refine hgreatest (a := {k | ∀ l, Relation.ReflTransGen (Needs key needs entries) k l → kept l = true})
      ⟨fun k hk => hk k .refl, fun a ha hkey l hl m hpath => ?_⟩ hk
    exact hkey m (.head ⟨a, ha, rfl, hl⟩ hpath)

/-! ### Enough walks -/

/-- The entries still kept. -/
def remaining (key : α → κ) (entries : List α) (kept : κ → Bool) : ℕ := entries.countP fun a => kept (key a)

omit [DecidableEq κ] in
theorem remaining_le (hsubset : ∀ k, kept' k = true → kept k = true) :
    remaining key entries kept' ≤ remaining key entries kept :=
  List.countP_mono_left fun a _ => hsubset (key a)

omit [DecidableEq κ] in
theorem remaining_lt (hsubset : ∀ k, kept' k = true → kept k = true) (ha : a ∈ entries)
    (hkept : kept (key a) = true) (hdropped : kept' (key a) = false) :
    remaining key entries kept' < remaining key entries kept := by
  unfold remaining
  induction entries with
  | nil => cases ha
  | cons b entries ih =>
    rw [List.countP_cons, List.countP_cons]
    have hb := hsubset (key b)
    rcases List.mem_cons.1 ha with rfl | ha
    · have hle : entries.countP (fun a => kept' (key a)) ≤ entries.countP (fun a => kept (key a)) := remaining_le hsubset
      simp only [hdropped, hkept, Bool.false_eq_true, if_false, if_true]
      omega
    · have hlt := ih ha
      split_ifs with hdrop hkeep
      · omega
      · exact absurd (hb hdrop) hkeep
      · omega
      · omega

theorem walk_dropped (hrest : ∀ a ∈ rest, a ∈ entries) (h : walk key needs rest kept false = (kept', true)) :
    remaining key entries kept' < remaining key entries kept := by
  induction rest generalizing kept with
  | nil => cases h
  | cons a rest ih =>
    have htail : ∀ b ∈ rest, b ∈ entries := fun b hb => hrest b (List.mem_cons_of_mem a hb)
    rw [walk] at h
    split_ifs at h with hdrops
    · have hsubset := walk_subset h
      refine remaining_lt (fun k hk => ?_) (hrest a List.mem_cons_self) (drops_iff.1 hdrops).1 ?_
      · have hkept := hsubset k hk
        rw [Function.update_apply] at hkept
        split_ifs at hkept
        exact hkept
      · rw [Bool.eq_false_iff]
        intro hkept
        have := hsubset _ hkept
        rw [Function.update_self] at this
        cases this
    · exact ih htail h

/-- One walk more than there are entries is enough. -/
theorem prune_isSome (h : remaining key entries kept < walks) : (prune key needs entries walks kept).isSome = true := by
  induction walks generalizing kept with
  | zero => exact absurd h (Nat.not_lt_zero _)
  | succ walks ih =>
    rw [prune]
    cases hwalk : walk key needs entries kept false with
    | mk next changed =>
      cases changed with
      | true =>
        have hless := walk_dropped (fun _ ha => ha) hwalk
        exact ih (by omega)
      | false => rfl

end UltraTorrent.Library.Pruning
