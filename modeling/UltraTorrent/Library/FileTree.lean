import Mathlib.Data.List.Infix
import Mathlib.Logic.Function.Basic

/-! Directory trees, as what stands at each path. A path is the list of the names that lead to
it, so what lies below `p` is what has `p` as a prefix. -/
namespace UltraTorrent.Library.FileTree

abbrev Path := List String

/-- `none` where nothing stands. -/
abbrev Volume (ν : Type*) := Path → Option ν

variable {ν : Type*} {t : Volume ν} {p q source target : Path} {node : ν}

/-- The tree seen from `p`. -/
def below (t : Volume ν) (p : Path) : Volume ν := fun q => t (p ++ q)

def remove (t : Volume ν) (p : Path) : Volume ν := fun q => if p <+: q then none else t q

/-- Puts a whole tree in the place of what stands at `p`. -/
def graft (t : Volume ν) (p : Path) (s : Volume ν) : Volume ν :=
  fun q => if p <+: q then s (q.drop p.length) else t q

/-- What stood at the target is gone. -/
def rename (t : Volume ν) (source target : Path) : Volume ν :=
  graft (remove t source) target (below t source)

/-- One entry, and nothing below it. -/
def put (t : Volume ν) (p : Path) (node : ν) : Volume ν := Function.update t p (some node)

def unlink (t : Volume ν) (p : Path) : Volume ν := Function.update t p none

/-- Creates what is missing on the way to `p`, and `p` itself. -/
def mkdirs (t : Volume ν) (p : Path) (node : Path → ν) : Volume ν :=
  fun q => if q <+: p then (t q).or (some (node q)) else t q

/-- A removal that stops half-way: of what lies below `p` some is gone. -/
def prune (t : Volume ν) (p : Path) (remains : Path → Bool) : Volume ν :=
  fun q => if p <+: q ∧ q ≠ p ∧ remains q = false then none else t q

/-- What a copy of `t` may have got to: nothing where `t` has nothing. -/
def partOf (t s : Volume ν) : Volume ν := fun q => if (t q).isSome then s q else none

/-- Nothing stands below `p`. -/
def IsLeaf (t : Volume ν) (p : Path) : Prop := ∀ q, p <+: q → q ≠ p → t q = none

/-- Neither lies at or below the other. -/
def Apart (p q : Path) : Prop := ¬ p <+: q ∧ ¬ q <+: p

theorem Apart.symm (h : Apart p q) : Apart q p := ⟨h.2, h.1⟩

theorem Apart.not_prefix_append (h : Apart p q) (r : Path) : ¬ p <+: q ++ r := by
  intro hp
  rcases List.prefix_or_prefix_of_prefix hp (List.prefix_append q r) with hpq | hqp
  · exact h.1 hpq
  · exact h.2 hqp

/-! ### What an operation leaves -/

theorem remove_apply (h : ¬ p <+: q) : remove t p q = t q := if_neg h

theorem graft_apply {s : Volume ν} (h : ¬ p <+: q) : graft t p s q = t q := if_neg h

theorem rename_apply (hsource : ¬ source <+: q) (htarget : ¬ target <+: q) :
    rename t source target q = t q := by
  rw [rename, graft_apply htarget, remove_apply hsource]

@[simp] theorem put_self : put t p node p = some node := Function.update_self _ _ _

theorem put_of_ne (h : q ≠ p) : put t p node q = t q := Function.update_of_ne h _ _

theorem unlink_of_ne (h : q ≠ p) : unlink t p q = t q := Function.update_of_ne h _ _

/-- What was there stays as it was. -/
theorem mkdirs_of_some {nodes : Path → ν} (h : t q = some node) : mkdirs t p nodes q = some node := by
  rw [mkdirs, h]
  split_ifs <;> rfl

theorem mkdirs_of_not_below {nodes : Path → ν} (h : ¬ q <+: p) : mkdirs t p nodes q = t q := if_neg h

theorem prune_apply {remains : Path → Bool} (h : ¬ p <+: q) : prune t p remains q = t q :=
  if_neg fun hp => h hp.1

theorem partOf_of_none {s : Volume ν} (h : t q = none) : partOf t s q = none := by
  simp [partOf, h]

theorem prune_of_isLeaf {remains : Path → Bool} (h : IsLeaf t p) : prune t p remains = t := by
  funext q
  unfold prune
  split_ifs with hq
  · exact (h q hq.1 hq.2.1).symm
  · rfl

/-! ### Whole trees -/

@[simp] theorem below_graft_self {s : Volume ν} : below (graft t p s) p = s := by
  funext q
  rw [below, graft, if_pos (List.prefix_append p q), List.drop_left]

theorem below_remove (h : Apart p q) : below (remove t p) q = below t q := by
  funext r
  exact if_neg (h.not_prefix_append r)

theorem below_graft {s : Volume ν} (h : Apart p q) : below (graft t p s) q = below t q := by
  funext r
  exact if_neg (h.not_prefix_append r)

theorem below_prune {remains : Path → Bool} (h : Apart p q) :
    below (prune t p remains) q = below t q := by
  funext r
  exact prune_apply (h.not_prefix_append r)

theorem below_mkdirs {nodes : Path → ν} (h : ¬ q <+: p) : below (mkdirs t p nodes) q = below t q := by
  funext r
  exact mkdirs_of_not_below fun hr => h ((List.prefix_append q r).trans hr)

theorem remove_graft (h : Apart source target) {s : Volume ν} :
    remove (graft t target s) source = graft (remove t source) target s := by
  funext q
  show (if source <+: q then none else if target <+: q then s (q.drop target.length) else t q) =
    if target <+: q then s (q.drop target.length) else if source <+: q then none else t q
  by_cases hsource : source <+: q
  · have htarget : ¬ target <+: q := fun htarget => by
      rcases List.prefix_or_prefix_of_prefix hsource htarget with hle | hle
      · exact h.1 hle
      · exact h.2 hle
    rw [if_pos hsource, if_neg htarget, if_pos hsource]
  · rw [if_neg hsource, if_neg hsource]

@[simp] theorem below_rename_target : below (rename t source target) target = below t source :=
  below_graft_self

end UltraTorrent.Library.FileTree
