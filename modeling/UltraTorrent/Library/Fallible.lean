import Mathlib.Logic.Basic
import Mathlib.Order.Basic

/-! Computations that may loop, run on a step budget. Running out of the budget is an
outcome of its own, so it is never mistaken for a failure the program raises. -/
namespace UltraTorrent.Library.Fuel

inductive Outcome (ε α : Type*) where
  | timeout
  | thrown (error : ε)
  | ok (value : α)
  deriving DecidableEq

namespace Outcome

variable {ε : Type*} {α β : Type}

def bind (x : Outcome ε α) (f : α → Outcome ε β) : Outcome ε β :=
  match x with
  | .timeout => .timeout
  | .thrown e => .thrown e
  | .ok a => f a

instance : Monad (Outcome ε) where
  pure := .ok
  bind := bind

theorem bind_eq_ok {x : Outcome ε α} {f : α → Outcome ε β} {b : β} :
    x >>= f = .ok b ↔ ∃ a, x = .ok a ∧ f a = .ok b := by
  cases x with
  | timeout => exact ⟨nofun, by simp⟩
  | thrown e => exact ⟨nofun, by simp⟩
  | ok a =>
    refine ⟨fun h => ⟨a, rfl, h⟩, ?_⟩
    rintro ⟨a', ha, h⟩
    cases ha
    exact h

theorem bind_ne_timeout {x : Outcome ε α} {f : α → Outcome ε β} (hx : x ≠ .timeout)
    (hf : ∀ a, x = .ok a → f a ≠ .timeout) : x >>= f ≠ .timeout := by
  cases x with
  | timeout => exact absurd rfl hx
  | thrown e => exact nofun
  | ok a => exact hf a rfl

theorem bind_eq_timeout {x : Outcome ε α} {f : α → Outcome ε β} (hx : x = .timeout) :
    x >>= f = .timeout := by
  rw [hx]
  rfl

/-- Ends within its budget, with a value that is so or an error that is so. -/
def Ends (P : β → Prop) (Q : ε → Prop) : Outcome ε β → Prop
  | .timeout => False
  | .thrown e => Q e
  | .ok b => P b

variable {P : β → Prop} {Q : ε → Prop}

theorem Ends.bind {P' : α → Prop} {x : Outcome ε α} {f : α → Outcome ε β} (hx : x.Ends P' Q)
    (hf : ∀ a, P' a → (f a).Ends P Q) : (x >>= f).Ends P Q := by
  cases x with
  | timeout => exact hx
  | thrown e => exact hx
  | ok a => exact hf a hx

theorem Ends.imp {P' : β → Prop} {x : Outcome ε β} (hx : x.Ends P' Q) (h : ∀ b, P' b → P b) : x.Ends P Q := by
  cases x with
  | timeout => exact hx
  | thrown e => exact hx
  | ok b => exact h b hx

/-- A loop, by what is so of the part of the list it is past. -/
theorem Ends.foldlM {f : β → α → Outcome ε β} {seen rest : List α} {b : β} {I : List α → β → Prop}
    (hstart : I seen b) (hstep : ∀ seen a b, a ∈ rest → I seen b → (f b a).Ends (I (seen ++ [a])) Q) :
    (rest.foldlM f b).Ends (I (seen ++ rest)) Q := by
  induction rest generalizing seen b with
  | nil =>
    rw [List.append_nil]
    exact hstart
  | cons a rest ih =>
    rw [List.foldlM_cons]
    refine (hstep seen a b List.mem_cons_self hstart).bind fun b' hb' => ?_
    have hrest := ih hb' fun seen c b hc => hstep seen c b (List.mem_cons_of_mem a hc)
    simpa using hrest

end Outcome
end UltraTorrent.Library.Fuel

/-! Computations that return a result or throw, taken apart at their binds. -/
namespace UltraTorrent.Library.Fallible

universe u

variable {ε α β : Type u}

theorem bind_eq_ok {x : Except ε α} {f : α → Except ε β} {b : β} :
    x >>= f = .ok b ↔ ∃ a, x = .ok a ∧ f a = .ok b := by
  cases x with
  | error e =>
    refine ⟨fun h => absurd h nofun, ?_⟩
    rintro ⟨a, h, -⟩
    exact absurd h nofun
  | ok a =>
    refine ⟨fun h => ⟨a, rfl, h⟩, ?_⟩
    rintro ⟨a', h, hf⟩
    obtain rfl := Except.ok.inj h
    exact hf

variable {P : β → Prop}

/-- What a computation returns, if it returns, is so. -/
def Returns (P : β → Prop) (x : Except ε β) : Prop := ∀ b, x = .ok b → P b

namespace Returns

theorem error (e : ε) : Returns P (.error e) := nofun

theorem ok {b : β} (h : P b) : Returns P (.ok b : Except ε β) := fun _ hb => Except.ok.inj hb ▸ h

theorem bind {x : Except ε α} {f : α → Except ε β} (h : ∀ a, Returns P (f a)) :
    Returns P (x >>= f) := by
  intro b hb
  obtain ⟨a, -, ha⟩ := bind_eq_ok.1 hb
  exact h a b ha

end Returns

end UltraTorrent.Library.Fallible
