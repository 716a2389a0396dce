import Mathlib.Data.List.Basic
import Mathlib.Tactic.SplitIfs
import UltraTorrent.Library.EcmaScript

/-! Strong Kleene verdicts over conjunctions and disjunctions. A question is
settled for, settled against, or left open because something was not measured,
and an open answer is never read as either of the other two. -/
namespace UltraTorrent.Library.Kleene

inductive Verdict where
  | yes
  | no
  | unknown
  deriving DecidableEq

namespace Verdict

def ofBool (b : Bool) : Verdict := if b then .yes else .no

/-- One refusal settles a conjunction, otherwise one open answer leaves it open. -/
def all (vs : List Verdict) : Verdict :=
  if .no ∈ vs then .no else if .unknown ∈ vs then .unknown else .yes

/-- One agreement settles a disjunction, otherwise one open answer leaves it open. -/
def any (vs : List Verdict) : Verdict :=
  if .yes ∈ vs then .yes else if .unknown ∈ vs then .unknown else .no

@[simp] theorem ofBool_eq_yes (b : Bool) : ofBool b = .yes ↔ b = true := by
  cases b <;> simp [ofBool]

theorem eq_yes_of_ne {v : Verdict} (hn : v ≠ .no) (hu : v ≠ .unknown) : v = .yes := by
  cases v with
  | yes => rfl
  | no => exact absurd rfl hn
  | unknown => exact absurd rfl hu

theorem all_eq_yes {vs : List Verdict} : all vs = .yes ↔ ∀ v ∈ vs, v = .yes := by
  unfold all
  split_ifs with hn hu
  · exact ⟨nofun, fun h => absurd (h _ hn) nofun⟩
  · exact ⟨nofun, fun h => absurd (h _ hu) nofun⟩
  · refine ⟨fun _ v hv => eq_yes_of_ne ?_ ?_, fun _ => rfl⟩
    · rintro rfl; exact hn hv
    · rintro rfl; exact hu hv

theorem all_eq_no {vs : List Verdict} : all vs = .no ↔ .no ∈ vs := by
  unfold all
  split_ifs with hn hu <;> simp [hn]

theorem any_eq_yes {vs : List Verdict} : any vs = .yes ↔ .yes ∈ vs := by
  unfold any
  split_ifs with hy hu <;> simp [hy]

theorem any_eq_no {vs : List Verdict} : any vs = .no ↔ ∀ v ∈ vs, v = .no := by
  unfold any
  split_ifs with hy hu
  · exact ⟨nofun, fun h => absurd (h _ hy) nofun⟩
  · exact ⟨nofun, fun h => absurd (h _ hu) nofun⟩
  · refine ⟨fun _ v hv => ?_, fun _ => rfl⟩
    cases v with
    | yes => exact absurd hv hy
    | no => rfl
    | unknown => exact absurd hv hu

/-- The order of information: a settled answer stays as it is, an open one may be settled. -/
def Refines (v w : Verdict) : Prop := v ≠ .unknown → w = v

theorem Refines.refl (v : Verdict) : Refines v v := fun _ => rfl

section Groups

variable {α : Type*} {f g : α → Verdict} {cs : List α}

/-- What is settled by its members with one answer stays settled when they are refined. -/
theorem map_settled {v : Verdict} (hv : v ≠ .unknown) (h : ∀ c ∈ cs, Refines (f c) (g c))
    (hf : ∀ w ∈ cs.map f, w = v) : ∀ w ∈ cs.map g, w = v := by
  intro w hw
  obtain ⟨c, hc, rfl⟩ := List.mem_map.1 hw
  have hfc := hf _ (List.mem_map_of_mem hc)
  rw [h c hc (by rwa [hfc]), hfc]

theorem mem_map_settled {v : Verdict} (hv : v ≠ .unknown) (h : ∀ c ∈ cs, Refines (f c) (g c))
    (hf : v ∈ cs.map f) : v ∈ cs.map g := by
  obtain ⟨c, hc, rfl⟩ := List.mem_map.1 hf
  exact List.mem_map.2 ⟨c, hc, h c hc hv⟩

theorem Refines.all (h : ∀ c ∈ cs, Refines (f c) (g c)) :
    Refines (.all (cs.map f)) (.all (cs.map g)) := by
  intro hsettled
  cases hall : Verdict.all (cs.map f) with
  | yes => exact all_eq_yes.2 (map_settled (by simp) h (all_eq_yes.1 hall))
  | no => exact all_eq_no.2 (mem_map_settled (by simp) h (all_eq_no.1 hall))
  | unknown => exact absurd hall hsettled

theorem Refines.any (h : ∀ c ∈ cs, Refines (f c) (g c)) :
    Refines (.any (cs.map f)) (.any (cs.map g)) := by
  intro hsettled
  cases hany : Verdict.any (cs.map f) with
  | yes => exact any_eq_yes.2 (mem_map_settled (by simp) h (any_eq_yes.1 hany))
  | no => exact any_eq_no.2 (map_settled (by simp) h (any_eq_no.1 hany))
  | unknown => exact absurd hany hsettled

end Groups

end Verdict

/-- Nested groups over leaves of any kind. -/
inductive Formula (α : Type*) where
  | leaf (a : α)
  | all (children : List (Formula α))
  | any (children : List (Formula α))

namespace Formula

variable {α : Type*}

/-- Children are reached through membership, never through a position. -/
@[elab_as_elim, induction_eliminator]
theorem induction {motive : Formula α → Prop} (leaf : ∀ a, motive (.leaf a))
    (all : ∀ cs, (∀ c ∈ cs, motive c) → motive (.all cs))
    (any : ∀ cs, (∀ c ∈ cs, motive c) → motive (.any cs)) (t : Formula α) : motive t :=
  @Formula.rec α motive (fun cs => ∀ c ∈ cs, motive c) leaf all any
    (fun _ h => absurd h List.not_mem_nil)
    (fun _ _ hc hcs _ hm => (List.mem_cons.1 hm).elim (fun he => he ▸ hc) (hcs _)) t

mutual

def eval (f : α → Verdict) : Formula α → Verdict
  | .leaf a => f a
  | .all cs => .all (evalEach f cs)
  | .any cs => .any (evalEach f cs)

def evalEach (f : α → Verdict) : List (Formula α) → List Verdict
  | [] => []
  | c :: cs => eval f c :: evalEach f cs

end

mutual

/-- All leaves, left to right. -/
def leaves : Formula α → List α
  | .leaf a => [a]
  | .all cs | .any cs => leavesEach cs

def leavesEach : List (Formula α) → List α
  | [] => []
  | c :: cs => leaves c ++ leavesEach cs

end

mutual

/-- The leaves a conjunction cannot do without: those below `all` groups only. -/
def spine : Formula α → List α
  | .leaf a => [a]
  | .all cs => spineEach cs
  | .any _ => []

def spineEach : List (Formula α) → List α
  | [] => []
  | c :: cs => spine c ++ spineEach cs

end

theorem evalEach_eq_map (f : α → Verdict) (cs : List (Formula α)) : evalEach f cs = cs.map (eval f) := by
  induction cs with
  | nil => rfl
  | cons c cs ih => simp only [evalEach, ih, List.map_cons]

theorem leavesEach_eq_flatMap (cs : List (Formula α)) : leavesEach cs = cs.flatMap leaves := by
  induction cs with
  | nil => rfl
  | cons c cs ih => simp only [leavesEach, ih, List.flatMap_cons]

theorem spineEach_eq_flatMap (cs : List (Formula α)) : spineEach cs = cs.flatMap spine := by
  induction cs with
  | nil => rfl
  | cons c cs ih => simp only [spineEach, ih, List.flatMap_cons]

/-- The leaves of a group are those of its members. -/
@[simp] theorem mem_leaves_all {a : α} {cs : List (Formula α)} :
    a ∈ leaves (.all cs) ↔ ∃ c ∈ cs, a ∈ leaves c := by
  rw [leaves, leavesEach_eq_flatMap, List.mem_flatMap]

@[simp] theorem mem_leaves_any {a : α} {cs : List (Formula α)} :
    a ∈ leaves (.any cs) ↔ ∃ c ∈ cs, a ∈ leaves c := by
  rw [leaves, leavesEach_eq_flatMap, List.mem_flatMap]

@[simp] theorem eval_leaf (f : α → Verdict) (a : α) : eval f (.leaf a) = f a := rfl

@[simp] theorem eval_all (f : α → Verdict) (cs : List (Formula α)) :
    eval f (.all cs) = .all (cs.map (eval f)) := by
  rw [eval, evalEach_eq_map]

@[simp] theorem eval_any (f : α → Verdict) (cs : List (Formula α)) :
    eval f (.any cs) = .any (cs.map (eval f)) := by
  rw [eval, evalEach_eq_map]

theorem spine_of_eval_yes (f : α → Verdict) (t : Formula α) (h : eval f t = .yes) :
    ∀ a ∈ spine t, f a = .yes := by
  induction t with
  | leaf a => simpa [spine] using h
  | all cs ih =>
    intro a ha
    rw [spine, spineEach_eq_flatMap, List.mem_flatMap] at ha
    obtain ⟨c, hc, hac⟩ := ha
    rw [eval_all, Verdict.all_eq_yes] at h
    exact ih c hc (h _ (List.mem_map_of_mem hc)) a hac
  | any cs _ => simp [spine]

theorem eval_refines {f g : α → Verdict} (t : Formula α)
    (h : ∀ a ∈ leaves t, Verdict.Refines (f a) (g a)) : Verdict.Refines (eval f t) (eval g t) := by
  induction t with
  | leaf a => exact h a (List.mem_singleton_self a)
  | all cs ih =>
    rw [eval_all, eval_all]
    exact .all fun c hc => ih c hc fun a ha => h a (mem_leaves_all.2 ⟨c, hc, ha⟩)
  | any cs ih =>
    rw [eval_any, eval_any]
    exact .any fun c hc => ih c hc fun a ha => h a (mem_leaves_any.2 ⟨c, hc, ha⟩)

/-- No group is empty. -/
inductive Populated : Formula α → Prop
  | leaf (a : α) : Populated (.leaf a)
  | all {cs : List (Formula α)} (hne : cs ≠ []) (h : ∀ c ∈ cs, Populated c) : Populated (.all cs)
  | any {cs : List (Formula α)} (hne : cs ≠ []) (h : ∀ c ∈ cs, Populated c) : Populated (.any cs)

/-- An empty conjunction would answer yes by itself; without one some leaf does. -/
theorem Populated.exists_leaf {f : α → Verdict} {t : Formula α} (h : Populated t)
    (heval : eval f t = .yes) : ∃ a ∈ leaves t, f a = .yes := by
  induction h with
  | leaf a => exact ⟨a, List.mem_singleton_self a, heval⟩
  | @all cs hne _ ih =>
    rw [eval_all, Verdict.all_eq_yes] at heval
    obtain ⟨c, hc⟩ := List.exists_mem_of_ne_nil cs hne
    obtain ⟨a, ha, hyes⟩ := ih c hc (heval _ (List.mem_map_of_mem hc))
    exact ⟨a, mem_leaves_all.2 ⟨c, hc, ha⟩, hyes⟩
  | @any cs hne _ ih =>
    rw [eval_any, Verdict.any_eq_yes] at heval
    obtain ⟨c, hc, hyes⟩ := List.mem_map.1 heval
    obtain ⟨a, ha, hyes⟩ := ih c hc hyes
    exact ⟨a, mem_leaves_any.2 ⟨c, hc, ha⟩, hyes⟩

end Formula
end UltraTorrent.Library.Kleene

/-! Filters over nullable columns. A comparison with `NULL` is unknown, and a row is
returned only when the whole conjunction is true. -/
namespace UltraTorrent.Library.Sql

open EcmaScript Kleene

inductive Datum where
  | text (s : String)
  | number (n : Numeric)
  | timestamp (t : Instant)
  deriving DecidableEq

inductive Comparison where
  | equals
  | lt
  | lte
  | gt
  | gte
  deriving DecidableEq

/-- The stored value on the left, the operand on the right. -/
def Comparison.test : Comparison → Datum → Datum → Bool
  | .equals, .text a, .text b => a = b
  | .equals, .number a, .number b => a.eq b
  | .lt, .number a, .number b => a.lt b
  | .lte, .number a, .number b => a.le b
  | .gt, .number a, .number b => b.lt a
  | .gte, .number a, .number b => b.le a
  | .equals, .timestamp a, .timestamp b => a = b
  | .lt, .timestamp a, .timestamp b => a < b
  | .lte, .timestamp a, .timestamp b => a ≤ b
  | .gt, .timestamp a, .timestamp b => b < a
  | .gte, .timestamp a, .timestamp b => b ≤ a
  | _, _, _ => false

variable {κ : Type*}

/-- One comparison of a column with a constant. -/
structure Term (κ : Type*) where
  column : κ
  comparison : Comparison
  operand : Datum
  deriving DecidableEq

abbrev Row (κ : Type*) := κ → Option Datum

def Term.verdict (row : Row κ) (t : Term κ) : Verdict :=
  match row t.column with
  | none => .unknown
  | some stored => .ofBool (t.comparison.test stored t.operand)

/-- The row passes a conjunction of terms. -/
def Satisfies (row : Row κ) (conjunction : List (Term κ)) : Prop :=
  Verdict.all (conjunction.map (Term.verdict row)) = .yes

instance (row : Row κ) (conjunction : List (Term κ)) : Decidable (Satisfies row conjunction) :=
  inferInstanceAs (Decidable (_ = _))

theorem verdict_eq_yes {row : Row κ} {t : Term κ} :
    t.verdict row = .yes ↔ ∃ stored, row t.column = some stored ∧
      t.comparison.test stored t.operand = true := by
  unfold Term.verdict
  cases row t.column with
  | none => simp
  | some stored => simp

theorem satisfies_iff {row : Row κ} {conjunction : List (Term κ)} :
    Satisfies row conjunction ↔ ∀ t ∈ conjunction, t.verdict row = .yes := by
  rw [Satisfies, Verdict.all_eq_yes]
  simp

end UltraTorrent.Library.Sql
