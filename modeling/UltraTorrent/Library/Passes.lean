import Mathlib.Data.List.Perm.Basic

/-! Several passes over one list, each of which takes some of its elements: no element is taken twice,
and all of them are taken when the passes together leave none out. -/
namespace UltraTorrent.Library.Passes

variable {α β γ : Type*} {xs : List α} {p q : α → Bool} {passes : List (α → Bool)} {key : α → γ}
  {name : β → γ} {take : α → Option β}

theorem map_filterMap_eq (h : ∀ a ∈ xs, ∀ b ∈ take a, name b = key a) :
    (xs.filterMap take).map name = (xs.filter fun a => (take a).isSome).map key := by
  induction xs with
  | nil => rfl
  | cons a xs ih =>
    rw [List.forall_mem_cons] at h
    cases htake : take a with
    | none => simpa [List.filterMap_cons, List.filter_cons, htake] using ih h.2
    | some b => simpa [List.filterMap_cons, List.filter_cons, htake, h.1 b htake] using ih h.2

theorem filter_append_filter_perm (h : ∀ a ∈ xs, p a = true → q a = false) :
    (xs.filter p ++ xs.filter q).Perm (xs.filter fun a => p a || q a) := by
  induction xs with
  | nil => rfl
  | cons a xs ih =>
    rw [List.forall_mem_cons] at h
    cases hp : p a with
    | true => simpa [List.filter_cons, hp, h.1 hp] using ih h.2
    | false =>
      cases hq : q a with
      | true => simpa [List.filter_cons, hp, hq] using List.perm_middle.trans ((ih h.2).cons a)
      | false => simpa [List.filter_cons, hp, hq] using ih h.2

/-- Each element is taken by one of these passes only. -/
def Exclusive (passes : List (α → Bool)) (xs : List α) : Prop :=
  passes.Pairwise fun p q => ∀ a ∈ xs, p a = true → q a = false

theorem taken_perm (h : Exclusive passes xs) :
    (passes.flatMap fun p => xs.filter p).Perm (xs.filter fun a => passes.any fun p => p a) := by
  induction passes with
  | nil => simp
  | cons p passes ih =>
    obtain ⟨hp, hrest⟩ := List.pairwise_cons.1 h
    simp only [List.flatMap_cons, List.any_cons]
    refine (List.Perm.append_left _ (ih hrest)).trans (filter_append_filter_perm fun a ha hpa => ?_)
    simpa using fun q hq => hp q hq a ha hpa

theorem map_filter_perm_iff : ((xs.filter p).map key).Perm (xs.map key) ↔ ∀ a ∈ xs, p a = true := by
  refine ⟨fun h => ?_, fun h => by rw [List.filter_eq_self.2 h]⟩
  have hlength := h.length_eq
  rw [List.length_map, List.length_map] at hlength
  exact List.length_filter_eq_length_iff.1 hlength

/-- Passes that exclude each other take every element once when they take every element. -/
theorem once_iff (h : Exclusive passes xs) :
    ((passes.flatMap fun p => xs.filter p).map key).Perm (xs.map key) ↔
      ∀ a ∈ xs, ∃ p ∈ passes, p a = true := by
  have hperm := (taken_perm h).map key
  have hall : (∀ a ∈ xs, ∃ p ∈ passes, p a = true) ↔ ∀ a ∈ xs, (passes.any fun p => p a) = true :=
    forall₂_congr fun a _ => List.any_eq_true.symm
  rw [hall, ← map_filter_perm_iff]
  exact ⟨hperm.symm.trans, hperm.trans⟩

end UltraTorrent.Library.Passes
