import Mathlib.Logic.Function.Basic
import Mathlib.Tactic.SplitIfs

/-! Calls that share a store. Each call is a sequence of atomic actions, and a run
interleaves the actions of any number of calls in any order. A call that dies, or is never
heard of again, is one that takes no further action. -/
namespace UltraTorrent.Library.Interleaving

/-- The store, and where each call stands. -/
structure Config (ι σ κ : Type*) where
  store : σ
  call : ι → κ

variable {ι σ κ ν : Type*} [DecidableEq ι]

/-- One action of call `i`, given what it is answered from outside; `none` when the call has
no such action there. -/
def step (act : σ → κ → ν → Option (σ × κ)) (c : Config ι σ κ) (i : ι) (answer : ν) :
    Option (Config ι σ κ) :=
  (act c.store (c.call i) answer).map fun next => ⟨next.1, Function.update c.call i next.2⟩

/-- Runs whose actions are all taken where they are allowed. -/
inductive Run (act : σ → κ → ν → Option (σ × κ)) (allowed : Config ι σ κ → ι → Prop)
    (start : Config ι σ κ) : Config ι σ κ → Prop
  | refl : Run act allowed start start
  | tail {c c' : Config ι σ κ} (i : ι) (answer : ν) : Run act allowed start c →
      allowed c i → step act c i answer = some c' → Run act allowed start c'

/-- A condition on the store and on the call that acts alone. -/
def alone (p : σ → κ → Prop) (c : Config ι σ κ) (i : ι) : Prop := p c.store (c.call i)

instance {p : σ → κ → Prop} [∀ s k, Decidable (p s k)] (c : Config ι σ κ) (i : ι) :
    Decidable (alone p c i) :=
  inferInstanceAs (Decidable (p c.store (c.call i)))

variable {act : σ → κ → ν → Option (σ × κ)} {allowed : Config ι σ κ → ι → Prop}
  {start c c' : Config ι σ κ}

theorem step_eq_some {i : ι} {answer : ν} :
    step act c i answer = some c' ↔ ∃ s k, act c.store (c.call i) answer = some (s, k) ∧
      c' = ⟨s, Function.update c.call i k⟩ := by
  simp only [step, Option.map_eq_some_iff, Prod.exists, @eq_comm _ c']

/-- What every allowed action keeps, every run keeps. -/
theorem Run.invariant {P : Config ι σ κ → Prop} (hstart : P start)
    (hstep : ∀ c i answer s k, P c → allowed c i →
      act c.store (c.call i) answer = some (s, k) → P ⟨s, Function.update c.call i k⟩)
    (h : Run act allowed start c) : P c := by
  induction h with
  | refl => exact hstart
  | tail i answer _ hallowed hs ih =>
    obtain ⟨s, k, hact, rfl⟩ := step_eq_some.1 hs
    exact hstep _ i answer s k ih hallowed hact

theorem Run.mono {allowed' : Config ι σ κ → ι → Prop} (h : Run act allowed start c)
    (himp : ∀ c i, allowed c i → allowed' c i) : Run act allowed' start c := by
  induction h with
  | refl => exact .refl
  | tail i answer _ hallowed hs ih => exact .tail i answer ih (himp _ _ hallowed) hs

theorem Run.call_eq {i : ι} (h : Run act allowed start c) (hi : ∀ c, ¬ allowed c i) :
    c.call i = start.call i := by
  refine h.invariant (P := fun c => c.call i = start.call i) rfl ?_
  intro c j answer s k hc hallowed _
  have hij : i ≠ j := by
    rintro rfl
    exact hi c hallowed
  exact (Function.update_of_ne hij _ _).trans hc

/-- The actions that meet a condition, which may look at what they are answered. -/
def guarded (p : σ → κ → ν → Bool) (act : σ → κ → ν → Option (σ × κ)) (s : σ) (k : κ) (answer : ν) :
    Option (σ × κ) :=
  if p s k answer then act s k answer else none

theorem guarded_eq_some {p : σ → κ → ν → Bool} {s s' : σ} {k k' : κ} {answer : ν} :
    guarded p act s k answer = some (s', k') ↔ p s k answer = true ∧ act s k answer = some (s', k') := by
  unfold guarded
  split_ifs with h <;> simp [h]

/-! ### Invariants with a part for each call -/

/-- A fact about the store, one about each call, and one about every two calls. -/
structure Inv (I : σ → Prop) (J : σ → κ → Prop) (R : κ → κ → Prop) (c : Config ι σ κ) : Prop where
  store : I c.store
  call : ∀ i, J c.store (c.call i)
  pair : ∀ i j, i ≠ j → R (c.call i) (c.call j)

/-- Only the parts of the call that acted can be new; the facts about the others may be of another
kind than before. -/
theorem Inv.of_update {I : σ → Prop} {J : σ → κ → Prop} {R : κ → κ → Prop} {i : ι} {s : σ} {k : κ}
    (hsymm : ∀ k l, R k l → R l k) (hpair : ∀ i j, i ≠ j → R (c.call i) (c.call j)) (hstore : I s)
    (hcall : J s k) (hrest : ∀ j, j ≠ i → J s (c.call j) ∧ R k (c.call j)) :
    Inv I J R ⟨s, Function.update c.call i k⟩ := by
  refine ⟨hstore, fun j => ?_, fun j l hjl => ?_⟩ <;> dsimp only
  · by_cases hj : j = i
    · rw [hj, Function.update_self]
      exact hcall
    · rw [Function.update_of_ne hj]
      exact (hrest j hj).1
  · by_cases hj : j = i
    · have hl : l ≠ i := fun hl => hjl (hj.trans hl.symm)
      rw [hj, Function.update_self, Function.update_of_ne hl]
      exact (hrest l hl).2
    · by_cases hl : l = i
      · rw [hl, Function.update_self, Function.update_of_ne hj]
        exact hsymm _ _ (hrest j hj).2
      · rw [Function.update_of_ne hj, Function.update_of_ne hl]
        exact hpair j l hjl

theorem Inv.update {I : σ → Prop} {J : σ → κ → Prop} {R : κ → κ → Prop} {i : ι} {s : σ} {k : κ}
    (hsymm : ∀ k l, R k l → R l k) (hinv : Inv I J R c) (hstore : I s) (hcall : J s k)
    (hrest : ∀ j, j ≠ i → J s (c.call j) ∧ R k (c.call j)) :
    Inv I J R ⟨s, Function.update c.call i k⟩ :=
  .of_update hsymm hinv.pair hstore hcall hrest

/-- It is enough that an action keeps the part of the call that takes it, and that of any
other call. -/
theorem Run.inv {p : σ → κ → Prop} {I : σ → Prop} {J : σ → κ → Prop} {R : κ → κ → Prop}
    (hsymm : ∀ k l, R k l → R l k) (hstart : Inv I J R start)
    (hown : ∀ s k answer s' k', I s → J s k → p s k → act s k answer = some (s', k') →
      I s' ∧ J s' k')
    (hother : ∀ s k answer s' k' l, I s → J s k → J s l → R k l → p s k →
      act s k answer = some (s', k') → J s' l ∧ R k' l)
    (h : Run act (alone p) start c) : Inv I J R c := by
  refine h.invariant hstart ?_
  intro c i answer s k hinv hallowed hact
  obtain ⟨hstore, hcall⟩ := hown _ _ answer s k hinv.store (hinv.call i) hallowed hact
  exact hinv.update hsymm hstore hcall fun j hj => hother _ _ answer s k _ hinv.store (hinv.call i)
    (hinv.call j) (hinv.pair i j hj.symm) hallowed hact

/-! ### Schedules -/

/-- Runs a given schedule of calls and answers. -/
def exec (act : σ → κ → ν → Option (σ × κ)) (allowed : Config ι σ κ → ι → Prop)
    [∀ c i, Decidable (allowed c i)] (c : Config ι σ κ) : List (ι × ν) → Option (Config ι σ κ)
  | [] => some c
  | (i, answer) :: rest =>
    if allowed c i then
      (step act c i answer).bind fun c' => exec act allowed c' rest
    else none

/-- A schedule that can be carried out is a run. -/
theorem run_of_exec [∀ c i, Decidable (allowed c i)] {schedule : List (ι × ν)}
    (h : exec act allowed start schedule = some c) : Run act allowed start c := by
  suffices ∀ c₀, Run act allowed start c₀ → exec act allowed c₀ schedule = some c →
      Run act allowed start c from this start .refl h
  clear h
  induction schedule with
  | nil =>
    rintro c₀ hrun hexec
    cases hexec
    exact hrun
  | cons head rest ih =>
    intro c₀ hrun hexec
    by_cases hallowed : allowed c₀ head.1
    · rw [exec, if_pos hallowed] at hexec
      obtain ⟨c₁, hstep, hrest⟩ := Option.bind_eq_some_iff.1 hexec
      exact ih c₁ (.tail head.1 head.2 hrun hallowed hstep) hrest
    · rw [exec, if_neg hallowed] at hexec
      cases hexec

theorem run_of_exec_any (act : σ → κ → ν → Option (σ × κ))
    (allowed : Config ι σ κ → ι → Prop) [∀ c i, Decidable (allowed c i)] (start : Config ι σ κ)
    (schedule : List (ι × ν)) (p : Config ι σ κ → Bool)
    (h : (exec act allowed start schedule).any p = true) :
    ∃ c, Run act allowed start c ∧ p c = true := by
  cases hexec : exec act allowed start schedule with
  | none =>
    rw [hexec] at h
    cases h
  | some c =>
    rw [hexec] at h
    exact ⟨c, run_of_exec hexec, h⟩

end UltraTorrent.Library.Interleaving
