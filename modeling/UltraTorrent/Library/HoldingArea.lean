import Mathlib.Data.List.Nodup
import UltraTorrent.Library.FileTree

/-! Holding areas: directories of one reserved name, below any number of roots, whose entries
are all accounted for by a list of slots. -/
namespace UltraTorrent.Library.HoldingArea

open FileTree

def slot (dir : String) (root : Path) (name : String) : Path := root ++ [dir, name]

def IsEntry (dir : String) (p : Path) : Prop := ∃ root name, p = slot dir root name

/-- An entry whose own root lies in no holding area. -/
def Sited (dir : String) (p : Path) : Prop :=
  ∃ root name, dir ∉ root ∧ name ≠ dir ∧ p = slot dir root name

variable {ν : Type*} {dir name : String} {p q root source target : Path} {t t' s : Volume ν}

theorem Sited.isEntry (h : Sited dir p) : IsEntry dir p := by
  obtain ⟨root, name, -, -, hp⟩ := h
  exact ⟨root, name, hp⟩

theorem IsEntry.mem (h : IsEntry dir p) : dir ∈ p := by
  obtain ⟨root, name, rfl⟩ := h
  simp [slot]

theorem not_isEntry_nil : ¬ IsEntry dir [] := fun h => List.not_mem_nil h.mem

theorem not_mem_of_prefix (hdir : dir ∉ q) (h : p <+: q) : dir ∉ p := fun hp => hdir (h.subset hp)

/-- The reserved name tells where the root of a slot ends. -/
theorem Sited.eq_of_below (hp : Sited dir p) (hq : Sited dir q) (h : p <+: q) : p = q := by
  obtain ⟨root, name, -, -, rfl⟩ := hp
  obtain ⟨root', name', hroot', hname', rfl⟩ := hq
  obtain ⟨rest, hrest⟩ := h
  have hsplit : root' ++ dir :: [name'] = root ++ dir :: (name :: rest) := by
    simpa [slot] using hrest.symm
  have hname : dir ∉ [name'] := by simpa using hname'.symm
  obtain ⟨rfl, -, hnames⟩ := (List.append_cons_inj_of_notMem hroot' hname).1 hsplit
  simp only [List.cons.injEq] at hnames
  rw [hnames.1]

theorem Sited.apart (hp : Sited dir p) (hq : Sited dir q) (h : p ≠ q) : Apart p q :=
  ⟨fun hpq => h (hp.eq_of_below hq hpq), fun hqp => h (hq.eq_of_below hp hqp).symm⟩

theorem Sited.apart_of_not_mem (hp : Sited dir p) (hq : dir ∉ q) (h : ¬ q <+: p) : Apart q p :=
  ⟨h, fun hpq => hq (hpq.subset hp.isEntry.mem)⟩

theorem isEntry_append (h : IsEntry dir (p ++ q)) :
    q = [] ∧ IsEntry dir p ∨ (∃ root, p = root ++ [dir]) ∨ IsEntry dir q := by
  obtain ⟨root, name, h⟩ := h
  rcases List.eq_nil_or_concat q with rfl | ⟨init, last, rfl⟩
  · exact .inl ⟨rfl, root, name, by simpa using h⟩
  · rcases List.eq_nil_or_concat init with rfl | ⟨init', last', rfl⟩
    · refine .inr (.inl ⟨root, ?_⟩)
      have h' : p ++ [last] = (root ++ [dir]) ++ [name] := by simpa [slot] using h
      exact (List.append_inj' h' rfl).1
    · refine .inr (.inr ⟨init', name, ?_⟩)
      have h' : (p ++ init') ++ [last', last] = root ++ [dir, name] := by simpa [slot] using h
      obtain ⟨-, hlast⟩ := List.append_inj' h' rfl
      simp only [List.cons.injEq, and_true] at hlast
      simp [slot, hlast.1, hlast.2]

theorem isEntry_of_append (hdir : dir ∉ p) (h : IsEntry dir (p ++ q)) : IsEntry dir q := by
  rcases isEntry_append h with ⟨-, hp⟩ | ⟨root, rfl⟩ | hq
  · exact absurd hp.mem hdir
  · simp at hdir
  · exact hq

theorem Sited.isEntry_of_append (hp : Sited dir p) (h : IsEntry dir (p ++ q)) :
    q = [] ∨ IsEntry dir q := by
  rcases isEntry_append h with ⟨hq, -⟩ | ⟨root, hroot⟩ | hq
  · exact .inl hq
  · obtain ⟨root', name', -, hname', rfl⟩ := hp
    have h' : (root' ++ [dir]) ++ [name'] = root ++ [dir] := by simpa [slot] using hroot
    simpa using hname' (by simpa using (List.append_inj' h' rfl).2)
  · exact .inr hq

theorem dropLast_slot : (slot dir root name).dropLast = root ++ [dir] := by
  simp [slot, List.dropLast_append_of_ne_nil]

/-! ### Accounted entries -/

/-- Every entry is in a slot of the list. -/
structure Accounted (dir : String) (t : Volume ν) (slots : List Path) : Prop where
  sited : ∀ p ∈ slots, Sited dir p
  nodup : slots.Nodup
  named : ∀ p, IsEntry dir p → t p ≠ none → p ∈ slots

namespace Accounted

variable {slots slots' : List Path} (h : Accounted dir t slots)

include h

theorem apart (hp : p ∈ slots) (hq : q ∈ slots) (hne : p ≠ q) : Apart p q :=
  (h.sited p hp).apart (h.sited q hq) hne

/-- No slot holds a holding area with entries of its own. -/
theorem below_slot (hp : p ∈ slots) (hq : IsEntry dir q) : below t p q = none := by
  by_contra hne
  have hentry : IsEntry dir (p ++ q) := by
    obtain ⟨root, name, rfl⟩ := hq
    exact ⟨p ++ root, name, by simp [slot]⟩
  have heq := (h.sited p hp).eq_of_below (h.sited _ (h.named _ hentry hne)) (List.prefix_append p q)
  rw [List.self_eq_append_right.1 heq] at hq
  exact not_isEntry_nil hq

theorem below_of_not_prefix (hp : ∀ r ∈ slots, ¬ p <+: r) (hq : IsEntry dir q) : below t p q = none := by
  by_contra hne
  have hentry : IsEntry dir (p ++ q) := by
    obtain ⟨root, name, rfl⟩ := hq
    exact ⟨p ++ root, name, by simp [slot]⟩
  exact hp _ (h.named _ hentry hne) (List.prefix_append p q)

theorem of_le (hle : ∀ p, IsEntry dir p → t' p ≠ none → t p ≠ none) : Accounted dir t' slots where
  sited := h.sited
  nodup := h.nodup
  named p hp hne := h.named p hp (hle p hp hne)

theorem remove (p : Path) : Accounted dir (remove t p) slots := by
  refine h.of_le fun q _ hne => ?_
  by_cases hpq : p <+: q
  · exact absurd (if_pos hpq) hne
  · rwa [remove_apply hpq] at hne

theorem prune (p : Path) (remains : Path → Bool) : Accounted dir (prune t p remains) slots := by
  refine h.of_le fun q _ hne hq => hne ?_
  unfold FileTree.prune
  rw [hq, ite_self]

theorem mkdirs (hp : ∀ q, q <+: p → ¬ IsEntry dir q) (nodes : Path → ν) :
    Accounted dir (mkdirs t p nodes) slots := by
  refine h.of_le fun q hq hne => ?_
  rwa [mkdirs_of_not_below fun hqp => hp q hqp hq] at hne

theorem graft_out (hp : dir ∉ p) (hs : ∀ q, IsEntry dir q → s q = none) :
    Accounted dir (graft t p s) slots := by
  refine h.of_le fun q hq hne => ?_
  by_cases hpq : p <+: q
  · obtain ⟨rest, rfl⟩ := hpq
    have hbelow : below (graft t p s) p rest ≠ none := hne
    rw [below_graft_self] at hbelow
    exact absurd (hs rest (isEntry_of_append hp hq)) hbelow
  · rwa [graft_apply hpq] at hne

theorem graft_in (hp : p ∈ slots) (hs : ∀ q, IsEntry dir q → s q = none) :
    Accounted dir (graft t p s) slots where
  sited := h.sited
  nodup := h.nodup
  named q hq hne := by
    by_cases hpq : p <+: q
    · obtain ⟨rest, rfl⟩ := hpq
      have hbelow : below (graft t p s) p rest ≠ none := hne
      rw [below_graft_self] at hbelow
      rcases (h.sited p hp).isEntry_of_append hq with rfl | hrest
      · rwa [List.append_nil]
      · exact absurd (hs rest hrest) hbelow
    · rw [graft_apply hpq] at hne
      exact h.named q hq hne

theorem graft_hollow (hp : Sited dir p) (hs : ∀ q, IsEntry dir q → s q = none) (hnil : s [] = none) :
    Accounted dir (graft t p s) slots := by
  refine h.of_le fun q hq hne => ?_
  by_cases hpq : p <+: q
  · obtain ⟨rest, rfl⟩ := hpq
    have hbelow : below (graft t p s) p rest ≠ none := hne
    rw [below_graft_self] at hbelow
    rcases hp.isEntry_of_append hq with rfl | hrest
    · exact absurd hnil hbelow
    · exact absurd (hs rest hrest) hbelow
  · rwa [graft_apply hpq] at hne

theorem reserve (hp : Sited dir p) (hnew : p ∉ slots) : Accounted dir t (slots ++ [p]) where
  sited q hq := by
    rcases List.mem_append.1 hq with hold | hlast
    · exact h.sited q hold
    · rwa [List.mem_singleton.1 hlast]
  nodup := List.nodup_append.2 ⟨h.nodup, List.nodup_singleton p, fun q hq r hr => by
    rw [List.mem_singleton.1 hr]
    exact fun heq => hnew (heq ▸ hq)⟩
  named q hq hne := List.mem_append_left _ (h.named q hq hne)

theorem release (hsub : slots'.Sublist slots) (hempty : ∀ p ∈ slots, p ∉ slots' → t p = none) :
    Accounted dir t slots' where
  sited p hp := h.sited p (hsub.subset hp)
  nodup := h.nodup.sublist hsub
  named p hp hne := by
    by_contra hnot
    exact hne (hempty p (h.named p hp hne) hnot)

end Accounted

theorem not_isEntry_of_prefix_area (hroot : dir ∉ root) (h : p <+: root ++ [dir]) : ¬ IsEntry dir p := by
  rcases List.prefix_concat_iff.1 h with rfl | hp
  · rintro ⟨root', name, heq⟩
    have heq' : root ++ [dir] = (root' ++ [dir]) ++ [name] := by simpa [slot] using heq
    exact hroot ((List.append_inj' heq' rfl).1 ▸ by simp)
  · exact fun hentry => hroot (hp.subset hentry.mem)

theorem not_isEntry_of_prefix (hp : dir ∉ p) (h : q <+: p) : ¬ IsEntry dir q :=
  fun hentry => hp (h.subset hentry.mem)

end UltraTorrent.Library.HoldingArea
