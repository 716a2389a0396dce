import Mathlib.Algebra.BigOperators.Group.Finset.Basic
import Mathlib.Algebra.Order.BigOperators.Group.Finset
import Mathlib.Data.List.Count
import Mathlib.Data.Finset.Max
import Mathlib.Tactic.SplitIfs

/-! Topological order by counting: a vertex is queued when no edge into it is left. On a graph
without cycles every vertex comes after all that lead to it. -/
namespace UltraTorrent.Library.TopologicalSort

variable {V : Type*} [DecidableEq V]

/-- One edge less into each of the vertices in turn; those into which none is left. -/
def relax : (V → ℤ) → List V → (V → ℤ) × List V
  | indeg, [] => (indeg, [])
  | indeg, w :: ws =>
    let count := Function.update indeg w (indeg w - 1)
    let rest := relax count ws
    (rest.1, if count w ≤ 0 then w :: rest.2 else rest.2)

variable (next : V → List V)

/-- Empties the queue, each vertex once; nothing when the budget is used up. -/
def drain : ℕ → (V → ℤ) → List V → List V → Option (List V)
  | 0, _, _, _ => none
  | _ + 1, _, [], order => some order
  | budget + 1, indeg, v :: queue, order =>
    if v ∈ order then drain budget indeg queue order
    else
      let relaxed := relax indeg (next v)
      drain budget relaxed.1 (queue ++ relaxed.2) (order ++ [v])

/-- Every vertex comes after those that lead to it. -/
def Ordered (vs order : List V) : Prop :=
  ∀ before v after, order = before ++ v :: after → ∀ u ∈ vs, v ∈ next u → u ∈ before

variable {next} {indeg : V → ℤ} {v w : V} {ws vs queue order : List V} {budget : ℕ}

/-! ### Counting -/

theorem relax_fst : (relax indeg ws).1 w = indeg w - ws.count w := by
  induction ws generalizing indeg with
  | nil => simp [relax]
  | cons u ws ih =>
    rw [relax]
    dsimp only
    rw [ih, List.count_cons]
    by_cases hu : w = u
    · rw [hu, Function.update_self]
      simp
      omega
    · rw [Function.update_of_ne hu]
      simp [Ne.symm hu]

theorem relax_snd (hw : w ∈ (relax indeg ws).2) : w ∈ ws ∧ (relax indeg ws).1 w ≤ 0 := by
  induction ws generalizing indeg with
  | nil => cases hw
  | cons u ws ih =>
    have htail : ∀ {count : V → ℤ}, w ∈ (relax count ws).2 →
        w ∈ u :: ws ∧ (relax count ws).1 w ≤ 0 := fun hmem =>
      ⟨List.mem_cons_of_mem u (ih hmem).1, (ih hmem).2⟩
    rw [relax] at hw ⊢
    dsimp only at hw ⊢
    split_ifs at hw with hzero
    · rcases List.mem_cons.1 hw with rfl | hw
      · refine ⟨List.mem_cons_self, ?_⟩
        rw [relax_fst]
        omega
      · exact htail hw
    · exact htail hw

/-- The last edge into a vertex queues it. -/
theorem mem_relax (hpos : 0 < indeg w) (hzero : (relax indeg ws).1 w ≤ 0) : w ∈ (relax indeg ws).2 := by
  induction ws generalizing indeg with
  | nil =>
    rw [relax] at hzero
    dsimp only at hzero
    omega
  | cons u ws ih =>
    rw [relax] at hzero ⊢
    dsimp only at hzero ⊢
    by_cases hlast : Function.update indeg u (indeg u - 1) w ≤ 0
    · by_cases hu : w = u
      · rw [← hu] at hlast ⊢
        rw [if_pos hlast]
        exact List.mem_cons_self
      · rw [Function.update_of_ne hu] at hlast
        omega
    · have hmem := ih (not_le.1 hlast) hzero
      split_ifs
      · exact List.mem_cons_of_mem u hmem
      · exact hmem

theorem length_relax : (relax indeg ws).2.length ≤ ws.length := by
  induction ws generalizing indeg with
  | nil => exact le_rfl
  | cons u ws ih =>
    rw [relax]
    dsimp only
    split_ifs
    · exact Nat.succ_le_succ ih
    · exact ih.trans (Nat.le_succ _)

/-! ### Draining -/

/-- The vertices that are not in the order yet. -/
def left (vs order : List V) : Finset V := vs.toFinset.filter fun v => v ∉ order

theorem mem_left : v ∈ left vs order ↔ v ∈ vs ∧ v ∉ order := by simp [left]

theorem left_append : left vs (order ++ [v]) = (left vs order).erase v := by
  ext u
  rw [mem_left, Finset.mem_erase, mem_left, List.mem_append, List.mem_singleton, not_or]
  tauto

/-- The edges that are left into each vertex are counted, and those without any are queued. -/
structure Draining (next : V → List V) (vs : List V) (indeg : V → ℤ) (queue order : List V) :
    Prop where
  nodup : order.Nodup
  mem : ∀ v ∈ order, v ∈ vs
  queued : ∀ v ∈ queue, v ∈ vs ∧ indeg v = 0
  count : ∀ w ∈ vs, indeg w = ∑ u ∈ left vs order, ((next u).count w : ℤ)
  ready : ∀ v ∈ vs, v ∉ order → indeg v = 0 → v ∈ queue
  ordered : Ordered next vs order

/-- Nothing that is left leads to a vertex without edges left. -/
theorem Draining.mem_order {u : V} (h : Draining next vs indeg queue order) (hmem : v ∈ vs)
    (hzero : indeg v = 0) (hu : u ∈ vs) (hv : v ∈ next u) : u ∈ order := by
  by_contra hnot
  have hsum := h.count v hmem
  rw [hzero] at hsum
  have hnone := (Finset.sum_eq_zero_iff_of_nonneg fun w _ => Int.natCast_nonneg _).1 hsum.symm u
    (mem_left.2 ⟨hu, hnot⟩)
  have hpos : 0 < (next u).count v := List.count_pos_iff.2 hv
  omega

omit [DecidableEq V] in
theorem Ordered.append (h : Ordered next vs order) (hv : ∀ u ∈ vs, v ∈ next u → u ∈ order) :
    Ordered next vs (order ++ [v]) := by
  intro before w after heq u hu hw
  rcases List.eq_nil_or_concat after with rfl | ⟨rest, last, rfl⟩
  · obtain ⟨rfl, hlast⟩ := List.append_inj' heq rfl
    cases hlast
    exact hv u hu hw
  · rw [List.concat_eq_append, ← List.cons_append, ← List.append_assoc] at heq
    obtain ⟨rfl, -⟩ := List.append_inj' heq rfl
    exact h before w rest rfl u hu hw

theorem Ordered.idxOf_lt {u : V} (h : Ordered next vs order) (hv : v ∈ order) (hu : u ∈ vs)
    (hnext : v ∈ next u) : order.idxOf u < order.idxOf v := by
  obtain ⟨before, after, rfl, hnot⟩ := List.eq_append_cons_of_mem hv
  have hbefore := h before v after rfl u hu hnext
  rw [List.idxOf_append_of_mem hbefore, List.idxOf_append_of_notMem hnot, List.idxOf_cons_self]
  exact List.idxOf_lt_length_of_mem hbefore

theorem Draining.skip (h : Draining next vs indeg (v :: queue) order) (hv : v ∈ order) :
    Draining next vs indeg queue order where
  nodup := h.nodup
  mem := h.mem
  queued u hu := h.queued u (List.mem_cons_of_mem v hu)
  count := h.count
  ready u hu hnot hzero := by
    rcases List.mem_cons.1 (h.ready u hu hnot hzero) with rfl | hmem
    · exact absurd hv hnot
    · exact hmem
  ordered := h.ordered

theorem Draining.pop (hclosed : ∀ v ∈ vs, ∀ w ∈ next v, w ∈ vs)
    (h : Draining next vs indeg (v :: queue) order) (hv : v ∉ order) :
    Draining next vs (relax indeg (next v)).1 (queue ++ (relax indeg (next v)).2) (order ++ [v]) := by
  obtain ⟨hmem, hzero⟩ := h.queued v List.mem_cons_self
  have hcount : ∀ w ∈ vs, (relax indeg (next v)).1 w =
      ∑ u ∈ left vs (order ++ [v]), ((next u).count w : ℤ) := by
    intro w hw
    rw [relax_fst, h.count w hw, left_append, ← Finset.add_sum_erase _ _ (mem_left.2 ⟨hmem, hv⟩)]
    omega
  have hnonneg : ∀ w ∈ vs, 0 ≤ (relax indeg (next v)).1 w := by
    intro w hw
    rw [hcount w hw]
    exact Finset.sum_nonneg fun u _ => Int.natCast_nonneg _
  refine ⟨?_, fun u hu => ?_, fun u hu => ?_, hcount, fun u hu hnot hready => ?_,
    h.ordered.append fun u hu hw => h.mem_order hmem hzero hu hw⟩
  · rw [List.nodup_append]
    refine ⟨h.nodup, List.nodup_singleton v, fun a ha b hb => ?_⟩
    rw [List.mem_singleton.1 hb]
    rintro rfl
    exact hv ha
  · rcases List.mem_append.1 hu with hu | hu
    · exact h.mem u hu
    · rw [List.mem_singleton.1 hu]
      exact hmem
  · rcases List.mem_append.1 hu with hu | hu
    · obtain ⟨hin, hnone⟩ := h.queued u (List.mem_cons_of_mem v hu)
      refine ⟨hin, le_antisymm ?_ (hnonneg u hin)⟩
      rw [relax_fst, hnone]
      omega
    · obtain ⟨hnext, hle⟩ := relax_snd hu
      have hin := hclosed v hmem u hnext
      exact ⟨hin, le_antisymm hle (hnonneg u hin)⟩
  · have hout : u ∉ order ∧ u ≠ v := by simpa [not_or] using hnot
    have hbefore : 0 ≤ indeg u := by
      rw [h.count u hu]
      exact Finset.sum_nonneg fun w _ => Int.natCast_nonneg _
    rcases hbefore.eq_or_lt with hnone | hpos
    · rcases List.mem_cons.1 (h.ready u hu hout.1 hnone.symm) with heq | hqueue
      · exact absurd heq hout.2
      · exact List.mem_append_left _ hqueue
    · exact List.mem_append_right _ (mem_relax hpos hready.le)

/-- When the queue is empty nothing is left: of what were, one of the highest rank would have no
edges into it. -/
theorem Draining.finished (h : Draining next vs indeg [] order) {rank : V → ℕ}
    (hrank : ∀ v ∈ vs, ∀ w ∈ next v, rank w < rank v) : ∀ v ∈ vs, v ∈ order := by
  by_contra hsome
  push Not at hsome
  obtain ⟨v, hv, hnot⟩ := hsome
  obtain ⟨top, htop, hmax⟩ := Finset.exists_max_image (left vs order) rank ⟨v, mem_left.2 ⟨hv, hnot⟩⟩
  obtain ⟨hmem, hout⟩ := mem_left.1 htop
  refine absurd (h.ready top hmem hout ?_) List.not_mem_nil
  rw [h.count top hmem]
  refine Finset.sum_eq_zero fun u hu => ?_
  have hnone : (next u).count top = 0 := by
    refine List.count_eq_zero.2 fun hnext => ?_
    have hless := hrank u (mem_left.1 hu).1 top hnext
    exact absurd (hmax u hu) (not_le.2 hless)
  rw [hnone]
  rfl

/-- What is left to be done. -/
def remaining (next : V → List V) (vs queue order : List V) : ℕ :=
  queue.length + ∑ u ∈ left vs order, (next u).length

theorem drain_eq_some (hclosed : ∀ v ∈ vs, ∀ w ∈ next v, w ∈ vs) {rank : V → ℕ}
    (hrank : ∀ v ∈ vs, ∀ w ∈ next v, rank w < rank v) (h : Draining next vs indeg queue order)
    (hbudget : remaining next vs queue order < budget) :
    ∃ final, drain next budget indeg queue order = some final ∧ final.Nodup ∧
      (∀ v, v ∈ final ↔ v ∈ vs) ∧ Ordered next vs final := by
  induction budget generalizing indeg queue order with
  | zero => omega
  | succ budget ih =>
    cases queue with
    | nil =>
      exact ⟨order, rfl, h.nodup, fun v => ⟨h.mem v, h.finished hrank v⟩, h.ordered⟩
    | cons v queue =>
      rw [remaining, List.length_cons] at hbudget
      rw [drain]
      split_ifs with hv
      · refine ih (h.skip hv) ?_
        rw [remaining]
        omega
      · refine ih (h.pop hclosed hv) ?_
        have hmem := (h.queued v List.mem_cons_self).1
        have hsum := Finset.add_sum_erase (left vs order) (fun u => (next u).length)
          (mem_left.2 ⟨hmem, hv⟩)
        have hpushed : (relax indeg (next v)).2.length ≤ (next v).length := length_relax
        rw [remaining, left_append, List.length_append]
        omega

/-- The count a sort begins with. -/
theorem Draining.start (indeg : V → ℤ)
    (hcount : ∀ w ∈ vs, indeg w = ∑ u ∈ vs.toFinset, ((next u).count w : ℤ)) :
    Draining next vs indeg (vs.filter fun v => indeg v = 0) [] where
  nodup := List.nodup_nil
  mem v hv := absurd hv List.not_mem_nil
  queued v hv := by simpa using hv
  count w hw := by
    rw [hcount w hw]
    refine Finset.sum_congr ?_ fun _ _ => rfl
    ext u
    simp [left]
  ready v hv _ hzero := List.mem_filter.2 ⟨hv, decide_eq_true hzero⟩
  ordered before v after heq := by simp at heq

end UltraTorrent.Library.TopologicalSort
