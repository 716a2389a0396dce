import Mathlib.Data.List.Basic
import Mathlib.Data.Int.Order.Basic
import Mathlib.Tactic.Cases
import Mathlib.Tactic.Push

/-! A walk visits the entries of a list in order, carrying a state and emitting one
output for each entry. Everything said about a walk is said about its visits: each
entry together with the state the walk found when it reached it. -/
namespace UltraTorrent.Library.Walk

variable {σ α β : Type*} (visit : σ → α → σ × β)

/-- The state a walk leaves behind. -/
def finish : σ → List α → σ
  | s, [] => s
  | s, a :: as => finish (visit s a).1 as

def outputs : σ → List α → List β
  | _, [] => []
  | s, a :: as => (visit s a).2 :: outputs (visit s a).1 as

/-- Each entry with the state the walk is in when it reaches that entry. -/
def visits : σ → List α → List (σ × α)
  | _, [] => []
  | s, a :: as => (s, a) :: visits (visit s a).1 as

theorem outputs_eq_map (s : σ) (as : List α) :
    outputs visit s as = (visits visit s as).map fun v => (visit v.1 v.2).2 := by
  induction as generalizing s with
  | nil => rfl
  | cons a as ih => simp only [outputs, visits, List.map_cons, ih]

theorem visits_map_snd (s : σ) (as : List α) : (visits visit s as).map Prod.snd = as := by
  induction as generalizing s with
  | nil => rfl
  | cons a as ih => simp only [visits, List.map_cons, ih]

theorem visits_append (s : σ) (as bs : List α) :
    visits visit s (as ++ bs) = visits visit s as ++ visits visit (finish visit s as) bs := by
  induction as generalizing s with
  | nil => rfl
  | cons a as ih => simp only [List.cons_append, visits, finish, ih]

theorem finish_append (s : σ) (as bs : List α) :
    finish visit s (as ++ bs) = finish visit (finish visit s as) bs := by
  induction as generalizing s with
  | nil => rfl
  | cons a as ih => simp only [List.cons_append, finish, ih]

theorem mem_of_mem_visits {s : σ} {as : List α} {v : σ × α} (h : v ∈ visits visit s as) : v.2 ∈ as := by
  rw [← visits_map_snd visit s as]
  exact List.mem_map_of_mem h

/-- A visit is a place where the list splits, with the state the prefix left. -/
theorem mem_visits_iff {s : σ} {as : List α} {v : σ × α} :
    v ∈ visits visit s as ↔ ∃ pre post, as = pre ++ v.2 :: post ∧ v.1 = finish visit s pre := by
  constructor
  · intro h
    induction as generalizing s with
    | nil => exact absurd h List.not_mem_nil
    | cons a as ih =>
      rcases List.mem_cons.1 h with rfl | h
      · exact ⟨[], as, rfl, rfl⟩
      · obtain ⟨pre, post, rfl, hv⟩ := ih h
        exact ⟨a :: pre, post, rfl, hv⟩
  · rintro ⟨pre, post, rfl, hv⟩
    rw [visits_append, visits, ← hv]
    exact List.mem_append_right _ List.mem_cons_self

/-! ### Invariants -/

section Invariant

variable {visit} {I : σ → Prop} {C : σ × α → Prop} {s : σ} {as : List α}

theorem finish_invariant (hstep : ∀ v, C v → I v.1 → I (visit v.1 v.2).1) (hs : I s)
    (hC : ∀ v ∈ visits visit s as, C v) : I (finish visit s as) := by
  induction as generalizing s with
  | nil => exact hs
  | cons a as ih =>
    rw [visits, List.forall_mem_cons] at hC
    exact ih (hstep (s, a) hC.1 hs) hC.2

theorem visits_invariant (hstep : ∀ v, C v → I v.1 → I (visit v.1 v.2).1) (hs : I s)
    (hC : ∀ v ∈ visits visit s as, C v) : ∀ v ∈ visits visit s as, I v.1 := by
  intro v hv
  obtain ⟨pre, post, rfl, hreached⟩ := (mem_visits_iff visit).1 hv
  rw [visits_append] at hC
  rw [hreached]
  exact finish_invariant hstep hs fun u hu => hC u (List.mem_append_left _ hu)

theorem visits_pairwise {R : σ → σ → Prop} (hrefl : ∀ s, R s s)
    (htrans : ∀ s t u, R s t → R t u → R s u) (hstep : ∀ s a, R s (visit s a).1) (s : σ)
    (as : List α) : (visits visit s as).Pairwise fun v w => R (visit v.1 v.2).1 w.1 := by
  induction as generalizing s with
  | nil => exact List.Pairwise.nil
  | cons a as ih =>
    refine List.pairwise_cons.2 ⟨?_, ih _⟩
    exact visits_invariant (C := fun _ => True) (fun v _ hv => htrans _ _ _ hv (hstep v.1 v.2))
      (hrefl _) fun _ _ => trivial

end Invariant

/-! ### Counters -/

section Counter

variable {visit} {f : σ → ℕ} {s : σ} {as : List α}

/-- A counter raised by one on the visits that satisfy `p` ends up counting them. -/
theorem finish_counter {p : σ × α → Bool}
    (hstep : ∀ s, ∀ a ∈ as, f (visit s a).1 = f s + if p (s, a) then 1 else 0) :
    f (finish visit s as) = f s + (visits visit s as).countP p := by
  induction as generalizing s with
  | nil => simp only [finish, visits, List.countP_nil, Nat.add_zero]
  | cons a as ih =>
    rw [finish, ih fun s b hb => hstep s b (List.mem_cons_of_mem _ hb),
      hstep s a List.mem_cons_self, visits, List.countP_cons]
    omega

theorem le_finish (hstep : ∀ s, ∀ a ∈ as, f s ≤ f (visit s a).1) : f s ≤ f (finish visit s as) := by
  induction as generalizing s with
  | nil => exact Nat.le_refl _
  | cons a as ih =>
    exact Nat.le_trans (hstep s a List.mem_cons_self)
      (ih fun s b hb => hstep s b (List.mem_cons_of_mem _ hb))

end Counter

/-! ### Capacity -/

section Capacity

variable {visit} {f : σ → ℕ} {cap : ℤ}

/-- A visit takes a further unit although the capacity is already used up. -/
def Overfills (visit : σ → α → σ × β) (f : σ → ℕ) (cap : ℤ) (v : σ × α) : Prop :=
  cap ≤ f v.1 ∧ f (visit v.1 v.2).1 = f v.1 + 1

theorem finish_le_iff {s : σ} (as : List α)
    (hstep : ∀ s, ∀ a ∈ as, f (visit s a).1 = f s ∨ f (visit s a).1 = f s + 1) (hs : (f s : ℤ) ≤ cap) :
    (f (finish visit s as) : ℤ) ≤ cap ↔ ∀ v ∈ visits visit s as, ¬ Overfills visit f cap v := by
  induction as generalizing s with
  | nil => simpa [finish, visits] using hs
  | cons a as ih =>
    have htail : ∀ s, ∀ b ∈ as, f (visit s b).1 = f s ∨ f (visit s b).1 = f s + 1 :=
      fun s b hb => hstep s b (List.mem_cons_of_mem _ hb)
    have hmono : ∀ s, ∀ b ∈ as, f s ≤ f (visit s b).1 := fun s b hb => by
      rcases htail s b hb with h | h <;> omega
    rw [finish, visits, List.forall_mem_cons]
    by_cases ho : Overfills visit f cap (s, a)
    · have hle : f (visit s a).1 ≤ f (finish visit (visit s a).1 as) := le_finish hmono
      obtain ⟨hfull, hup⟩ := ho
      refine ⟨fun h => ?_, fun h => absurd ⟨hfull, hup⟩ h.1⟩
      simp only at hfull hup
      omega
    · have hroom : (f (visit s a).1 : ℤ) ≤ cap := by
        rcases hstep s a List.mem_cons_self with h | h
        · rw [h]; exact hs
        · have : ¬ cap ≤ f s := fun hfull => ho ⟨hfull, h⟩
          omega
      exact (ih htail hroom).trans ⟨fun h => ⟨ho, h⟩, fun h => h.2⟩

/-- Once a unit was started within the capacity, the walk ends within it exactly when no
later visit takes a unit beyond it. -/
theorem started_within_iff {starts : σ × α → Prop} (hstarts : ∀ v, starts v → (f v.1 : ℤ) < cap)
    (s : σ) (as : List α)
    (hstep : ∀ s, ∀ a ∈ as, f (visit s a).1 = f s ∨ f (visit s a).1 = f s + 1) :
    ((∃ v ∈ visits visit s as, starts v) → (f (finish visit s as) : ℤ) ≤ cap) ↔
      (visits visit s as).Pairwise fun v w => starts v → ¬ Overfills visit f cap w := by
  induction as generalizing s with
  | nil => simp [visits]
  | cons a as ih =>
    have htail : ∀ s, ∀ b ∈ as, f (visit s b).1 = f s ∨ f (visit s b).1 = f s + 1 :=
      fun s b hb => hstep s b (List.mem_cons_of_mem _ hb)
    rw [visits, List.pairwise_cons, ← ih _ htail]
    simp only [List.exists_mem_cons_iff, finish]
    have hhead : (starts (s, a) → (f (finish visit (visit s a).1 as) : ℤ) ≤ cap) ↔
        ∀ w ∈ visits visit (visit s a).1 as, starts (s, a) → ¬ Overfills visit f cap w := by
      by_cases hst : starts (s, a)
      · have hroom : (f (visit s a).1 : ℤ) ≤ cap := by
          have := hstarts _ hst
          simp only at this
          rcases hstep s a List.mem_cons_self with h | h <;> omega
        simpa [hst] using finish_le_iff as htail hroom
      · simp [hst]
    rw [or_imp, hhead]

end Capacity
end UltraTorrent.Library.Walk
