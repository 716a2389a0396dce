import Mathlib.Algebra.Order.BigOperators.Group.List
import Mathlib.Algebra.Order.Group.Nat
import Mathlib.Algebra.Order.Ring.Nat
import Mathlib.Data.List.Nodup

/-! Lists of entries filed under distinct keys, and sums over them when one entry
changes. -/
namespace UltraTorrent.Library.Keyed

variable {α κ : Type*} [DecidableEq κ] (key : α → κ)

/-- Changes the entry filed under `k`. -/
def modifyAt (k : κ) (f : α → α) (l : List α) : List α :=
  l.map fun a => if key a = k then f a else a

theorem map_key_modifyAt {f : α → α} (hf : ∀ a, key (f a) = key a) (k : κ) (l : List α) :
    (modifyAt key k f l).map key = l.map key := by
  rw [modifyAt, List.map_map]
  apply List.map_congr_left
  intro a _
  change key (if key a = k then f a else a) = key a
  split_ifs
  · exact hf a
  · rfl

theorem modifyAt_of_notMem {f : α → α} {k : κ} {l : List α} (h : k ∉ l.map key) :
    modifyAt key k f l = l := by
  rw [modifyAt]
  apply (List.map_congr_left _).trans (List.map_id l)
  intro a ha
  have hne : key a ≠ k := fun he => h (List.mem_map.2 ⟨a, ha, he⟩)
  rw [if_neg hne]
  rfl

/-- Replaces the entry filed under the key of `a`, or files `a` at the end. -/
def upsert (a : α) (l : List α) : List α :=
  if key a ∈ l.map key then modifyAt key (key a) (fun _ => a) l else l ++ [a]

theorem eq_or_mem_of_mem_upsert {a b : α} {l : List α} (h : b ∈ upsert key a l) :
    b = a ∨ b ∈ l ∧ key b ≠ key a := by
  unfold upsert at h
  split_ifs at h with hmem
  · obtain ⟨c, hc, rfl⟩ := List.mem_map.1 h
    by_cases hkey : key c = key a
    · exact .inl (if_pos hkey)
    · rw [if_neg hkey]
      exact .inr ⟨hc, hkey⟩
  · rcases List.mem_append.1 h with hb | hb
    · exact .inr ⟨hb, fun hkey => hmem (List.mem_map.2 ⟨b, hb, hkey⟩)⟩
    · exact .inl (List.mem_singleton.1 hb)

/-- With distinct keys a change that adds at most `n` adds at most `n` to the sum. -/
theorem sum_modifyAt_le {f : α → α} {g g' : α → ℕ} {n : ℕ} (k : κ) {l : List α}
    (hnodup : (l.map key).Nodup) (hmoved : ∀ a, g' (f a) ≤ g a + n)
    (hkept : ∀ a, key a ≠ k → g' a ≤ g a) :
    ((modifyAt key k f l).map g').sum ≤ (l.map g).sum + n := by
  induction l with
  | nil => simp [modifyAt]
  | cons a l ih =>
    rw [List.map_cons, List.nodup_cons] at hnodup
    obtain ⟨hfresh, hnodup⟩ := hnodup
    by_cases ha : key a = k
    · have hrest : modifyAt key k f l = l := modifyAt_of_notMem key (ha ▸ hfresh)
      have hle : (l.map g').sum ≤ (l.map g).sum := by
        apply List.sum_le_sum
        intro b hb
        apply hkept
        rintro hbk
        exact hfresh (List.mem_map.2 ⟨b, hb, hbk.trans ha.symm⟩)
      have hcons : modifyAt key k f (a :: l) = f a :: modifyAt key k f l := by
        simp [modifyAt, ha]
      rw [hcons, hrest, List.map_cons, List.sum_cons, List.map_cons, List.sum_cons]
      have := hmoved a
      omega
    · have hcons : modifyAt key k f (a :: l) = a :: modifyAt key k f l := by
        simp [modifyAt, ha]
      rw [hcons, List.map_cons, List.sum_cons, List.map_cons, List.sum_cons]
      have := ih hnodup
      have := hkept a ha
      omega

end UltraTorrent.Library.Keyed
