import Mathlib.Algebra.Order.Group.Int
import Mathlib.Data.List.Basic
import Mathlib.Tactic.SplitIfs

/-! How often something happened in any window of a given width. -/
namespace UltraTorrent.Library.RollingWindow

/-- How many of the times are no earlier than `s`. -/
def since (s : ℤ) (times : List ℤ) : ℕ := times.countP fun t => s ≤ t

/-- No window of the width holds more than `limit` of the times. -/
def Paced (width : ℤ) (limit : ℕ) (times : List ℤ) : Prop :=
  ∀ s, times.countP (fun t => s ≤ t ∧ t ≤ s + width) ≤ limit

variable {width s t : ℤ} {limit : ℕ} {times : List ℤ}

theorem since_anti (h : s ≤ t) : since t times ≤ since s times :=
  List.countP_mono_left fun _ _ ht => decide_eq_true (h.trans (of_decide_eq_true ht))

theorem since_cons : since s (t :: times) = since s times + if s ≤ t then 1 else 0 := by
  simp [since, List.countP_cons]

/-- What is not in the future is in a window that reaches up to now. -/
theorem Paced.since_le {now : ℤ} (h : Paced width limit times) (hpast : ∀ t ∈ times, t ≤ now)
    (hs : now - width ≤ s) : since s times ≤ limit := by
  refine le_trans (List.countP_mono_left fun t ht hst => ?_) (h s)
  have hlate := hpast t ht
  have hearly := of_decide_eq_true hst
  exact decide_eq_true ⟨hearly, by omega⟩

theorem Paced.cons (h : Paced width limit times) (hroom : since (t - width) times < limit) :
    Paced width limit (t :: times) := by
  intro s
  rw [List.countP_cons]
  split_ifs with hin
  · obtain ⟨-, hlate⟩ := of_decide_eq_true hin
    have hwindow : times.countP (fun t => s ≤ t ∧ t ≤ s + width) ≤ since s times :=
      List.countP_mono_left fun _ _ ht => decide_eq_true (of_decide_eq_true ht).1
    have hanti : since s times ≤ since (t - width) times := since_anti (by omega)
    omega
  · exact h s

end UltraTorrent.Library.RollingWindow
