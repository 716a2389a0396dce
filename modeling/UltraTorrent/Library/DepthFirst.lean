import Mathlib.Algebra.BigOperators.Group.Finset.Basic
import Mathlib.Algebra.Order.BigOperators.Group.Finset
import Mathlib.Logic.Relation
import Mathlib.Tactic.SplitIfs

/-! Depth-first search for a cycle, with three colours and an explicit stack: a vertex is gray
while it is on the stack and black when all it leads to is black. A search that meets no gray vertex
leaves the vertices ranked, each above all it leads to. -/
namespace UltraTorrent.Library.DepthFirst

inductive Color where
  | white
  | gray
  | black
  deriving DecidableEq

variable {V : Type*} [DecidableEq V]

/-- A vertex with the successors it has still to look at. -/
abbrev Frame (V : Type*) := V × List V

variable (next : V → List V)

/-- The search from a stack: whether it met a gray vertex, and the colours it leaves; nothing when
the budget is used up. -/
def visit : ℕ → (V → Color) → List (Frame V) → Option (Bool × (V → Color))
  | 0, _, _ => none
  | _ + 1, color, [] => some (false, color)
  | budget + 1, color, (v, []) :: stack => visit budget (Function.update color v .black) stack
  | budget + 1, color, (v, w :: rest) :: stack =>
    match color w with
    | .gray => some (true, color)
    | .white => visit budget (Function.update color w .gray) ((w, next w) :: (v, rest) :: stack)
    | .black => visit budget color ((v, rest) :: stack)

/-- The search from each vertex that is still white. -/
def search (budget : ℕ) : (V → Color) → List V → Option Bool
  | _, [] => some false
  | color, v :: vs =>
    if color v = .white then
      match visit next budget (Function.update color v .gray) [(v, next v)] with
      | none => none
      | some (true, _) => some true
      | some (false, color) => search budget color vs
    else search budget color vs

/-! ### What a search leaves black -/

/-- Vertices in the order they turned black, the last first: each leads to earlier ones only. -/
def Finished : List V → Prop
  | [] => True
  | v :: done => v ∉ done ∧ (∀ w ∈ next v, w ∈ done) ∧ Finished done

/-- Every successor that a frame is past is black, or heads the frame above. -/
def Linked (done : List V) : Option V → List (Frame V) → Prop
  | _, [] => True
  | above, (v, rest) :: stack =>
    (∀ w ∈ next v, w ∈ rest ∨ w ∈ done ∨ above = some w) ∧ Linked done (some v) stack

/-- The colours say which vertices are finished and which are on the stack. -/
structure Colored (color : V → Color) (done : List V) (stack : List (Frame V)) : Prop where
  black : ∀ v, color v = .black ↔ v ∈ done
  gray : ∀ v, color v = .gray ↔ v ∈ stack.map Prod.fst
  nodup : (stack.map Prod.fst).Nodup
  finished : Finished next done
  linked : Linked next done none stack

variable {next} {color color' : V → Color} {done : List V} {stack : List (Frame V)} {v w : V}
  {rest : List V} {budget : ℕ}

omit [DecidableEq V] in
theorem Linked.mono {done' : List V} {above above' : Option V} (h : Linked next done above stack)
    (hblack : ∀ w ∈ done, w ∈ done') (habove : ∀ w, above = some w → w ∈ done' ∨ above' = some w) :
    Linked next done' above' stack := by
  induction stack generalizing above above' with
  | nil => trivial
  | cons frame stack ih =>
    obtain ⟨v, rest⟩ := frame
    refine ⟨fun w hw => ?_, ih h.2 fun w hw => .inr hw⟩
    rcases h.1 w hw with hrest | hdone | hup
    · exact .inl hrest
    · exact .inr (.inl (hblack w hdone))
    · exact .inr (habove w hup)

/-- A frame that has looked at all its successors. -/
theorem Colored.pop (h : Colored next color done ((v, []) :: stack)) :
    Colored next (Function.update color v .black) (v :: done) stack := by
  obtain ⟨hv, hnodup⟩ := List.nodup_cons.1 h.nodup
  have hgray : color v = .gray := (h.gray v).2 List.mem_cons_self
  refine ⟨fun u => ?_, fun u => ?_, hnodup, ⟨fun hmem => ?_, fun w hw => ?_, h.finished⟩, ?_⟩
  · by_cases hu : u = v
    · simp [hu]
    · rw [Function.update_of_ne hu, h.black, List.mem_cons]
      simp [hu]
  · by_cases hu : u = v
    · rw [hu, Function.update_self]
      exact ⟨fun habsurd => absurd habsurd (by decide), fun hmem => absurd hmem hv⟩
    · rw [Function.update_of_ne hu, h.gray, List.map_cons, List.mem_cons]
      simp [hu]
  · rw [(h.black v).2 hmem] at hgray
    cases hgray
  · rcases h.linked.1 w hw with hrest | hdone | hup
    · cases hrest
    · exact hdone
    · cases hup
  · refine h.linked.2.mono (fun w hw => List.mem_cons_of_mem v hw) fun w hw => ?_
    cases hw
    exact .inl List.mem_cons_self

omit [DecidableEq V] in
theorem Colored.skip (h : Colored next color done ((v, w :: rest) :: stack)) (hw : color w = .black) :
    Colored next color done ((v, rest) :: stack) := by
  refine ⟨h.black, h.gray, h.nodup, h.finished, fun u hu => ?_, h.linked.2⟩
  rcases h.linked.1 u hu with hrest | hdone | hup
  · rcases List.mem_cons.1 hrest with rfl | hrest
    · exact .inr (.inl ((h.black u).1 hw))
    · exact .inl hrest
  · exact .inr (.inl hdone)
  · cases hup

theorem Colored.push (h : Colored next color done ((v, w :: rest) :: stack)) (hw : color w = .white) :
    Colored next (Function.update color w .gray) done ((w, next w) :: (v, rest) :: stack) := by
  have hnew : w ∉ ((v, rest) :: stack).map Prod.fst := by
    intro hmem
    rw [(h.gray w).2 hmem] at hw
    cases hw
  refine ⟨fun u => ?_, fun u => ?_, List.nodup_cons.2 ⟨hnew, h.nodup⟩, h.finished,
    fun u hu => .inl hu, fun u hu => ?_, h.linked.2⟩
  · by_cases hu : u = w
    · rw [hu, Function.update_self, ← h.black, hw]
      simp
    · rw [Function.update_of_ne hu, h.black]
  · by_cases hu : u = w
    · simp [hu]
    · rw [Function.update_of_ne hu, h.gray]
      simp [hu]
  · rcases h.linked.1 u hu with hrest | hdone | hup
    · rcases List.mem_cons.1 hrest with rfl | hrest
      · exact .inr (.inr rfl)
      · exact .inl hrest
    · exact .inr (.inl hdone)
    · cases hup

theorem Colored.start (h : Colored next color done []) (hv : color v = .white) :
    Colored next (Function.update color v .gray) done [(v, next v)] := by
  refine ⟨fun u => ?_, fun u => ?_, List.nodup_singleton v, h.finished, fun w hw => .inl hw, trivial⟩
  · by_cases hu : u = v
    · rw [hu, Function.update_self, ← h.black, hv]
      simp
    · rw [Function.update_of_ne hu, h.black]
  · by_cases hu : u = v
    · simp [hu]
    · rw [Function.update_of_ne hu, h.gray]
      simp [hu]

theorem visit_colored (h : Colored next color done stack)
    (hvisit : visit next budget color stack = some (false, color')) :
    ∃ done', Colored next color' done' [] ∧ (∀ u ∈ done, u ∈ done') ∧
      ∀ u ∈ stack.map Prod.fst, u ∈ done' := by
  induction budget generalizing color done stack with
  | zero => cases hvisit
  | succ budget ih =>
    match stack with
    | [] =>
      cases hvisit
      exact ⟨done, h, fun u hu => hu, fun u hu => absurd hu List.not_mem_nil⟩
    | (v, []) :: stack =>
      obtain ⟨done', hcolored, hblack, hstack⟩ := ih h.pop hvisit
      refine ⟨done', hcolored, fun u hu => hblack u (List.mem_cons_of_mem v hu), fun u hu => ?_⟩
      rcases List.mem_cons.1 hu with rfl | hu
      · exact hblack _ List.mem_cons_self
      · exact hstack u hu
    | (v, w :: rest) :: stack =>
      rw [visit] at hvisit
      cases hw : color w with
      | gray =>
        rw [hw] at hvisit
        cases hvisit
      | white =>
        rw [hw] at hvisit
        obtain ⟨done', hcolored, hblack, hstack⟩ := ih (h.push hw) hvisit
        exact ⟨done', hcolored, hblack, fun u hu => hstack u (List.mem_cons_of_mem _ hu)⟩
      | black =>
        rw [hw] at hvisit
        obtain ⟨done', hcolored, hblack, hstack⟩ := ih (h.skip hw) hvisit
        exact ⟨done', hcolored, hblack, hstack⟩

theorem search_finished {vs : List V} (h : Colored next color done [])
    (hsearch : search next budget color vs = some false) :
    ∃ done', Finished next done' ∧ (∀ u ∈ done, u ∈ done') ∧ ∀ v ∈ vs, v ∈ done' := by
  induction vs generalizing color done with
  | nil => exact ⟨done, h.finished, fun u hu => hu, fun v hv => absurd hv List.not_mem_nil⟩
  | cons v vs ih =>
    rw [search] at hsearch
    split_ifs at hsearch with hv
    · cases hvisit : visit next budget (Function.update color v .gray) [(v, next v)] with
      | none =>
        rw [hvisit] at hsearch
        cases hsearch
      | some result =>
        obtain ⟨met, color'⟩ := result
        rw [hvisit] at hsearch
        cases met with
        | true => cases hsearch
        | false =>
          obtain ⟨done', hcolored, hblack, hstack⟩ := visit_colored (h.start hv) hvisit
          obtain ⟨done'', hfinished, hmono, hvs⟩ := ih hcolored hsearch
          refine ⟨done'', hfinished, fun u hu => hmono u (hblack u hu), fun u hu => ?_⟩
          rcases List.mem_cons.1 hu with rfl | hu
          · exact hmono u (hstack u List.mem_cons_self)
          · exact hvs u hu
    · obtain ⟨done', hfinished, hblack, hvs⟩ := ih h hsearch
      refine ⟨done', hfinished, hblack, fun u hu => ?_⟩
      rcases List.mem_cons.1 hu with rfl | hu
      · have hcolor : color u = .black := by
          cases hc : color u with
          | white => exact absurd hc hv
          | gray => exact absurd ((h.gray u).1 hc) List.not_mem_nil
          | black => rfl
        exact hblack u ((h.black u).1 hcolor)
      · exact hvs u hu

theorem Finished.rank (h : Finished next done) :
    ∃ rank : V → ℕ, (∀ v ∈ done, rank v < done.length) ∧
      ∀ v ∈ done, ∀ w ∈ next v, w ∈ done ∧ rank w < rank v := by
  induction done with
  | nil => exact ⟨fun _ => 0, by simp, by simp⟩
  | cons v done ih =>
    obtain ⟨hv, hnext, hfinished⟩ := h
    obtain ⟨rank, hlt, hrank⟩ := ih hfinished
    have hold : ∀ u ∈ done, Function.update rank v done.length u = rank u := fun u hu =>
      Function.update_of_ne (fun huv => hv (by rwa [← huv])) _ _
    refine ⟨Function.update rank v done.length, fun u hu => ?_, fun u hu w hw => ?_⟩
    · rcases List.mem_cons.1 hu with rfl | hu
      · simp
      · rw [hold u hu]
        exact (hlt u hu).trans (Nat.lt_succ_self _)
    · rcases List.mem_cons.1 hu with rfl | hu
      · have hw := hnext w hw
        rw [Function.update_self, hold w hw]
        exact ⟨List.mem_cons_of_mem _ hw, hlt w hw⟩
      · obtain ⟨hmem, hless⟩ := hrank u hu w hw
        rw [hold u hu, hold w hmem]
        exact ⟨List.mem_cons_of_mem _ hmem, hless⟩

omit [DecidableEq V] in
theorem colored_white : Colored next (fun _ => .white) [] [] :=
  ⟨fun _ => by simp, fun _ => by simp, List.nodup_nil, trivial, trivial⟩

theorem exists_rank {vs : List V} (h : search next budget (fun _ => .white) vs = some false) :
    ∃ rank : V → ℕ, ∀ v ∈ vs, ∀ w ∈ next v, rank w < rank v := by
  obtain ⟨done, hfinished, -, hvs⟩ := search_finished colored_white h
  obtain ⟨rank, -, hrank⟩ := hfinished.rank
  exact ⟨rank, fun v hv w hw => (hrank v (hvs v hv) w hw).2⟩

/-! ### What a search has met -/

/-- A vertex and one of its successors. -/
def Leads (next : V → List V) (v w : V) : Prop := w ∈ next v

/-- A frame has successors of its own still to look at, and is reached from all the frames below it. -/
def Descending (next : V → List V) : List (Frame V) → Prop
  | [] => True
  | (v, rest) :: stack => (∀ w ∈ rest, w ∈ next v) ∧
      (∀ u ∈ stack.map Prod.fst, Relation.TransGen (Leads next) u v) ∧ Descending next stack

omit [DecidableEq V] in
theorem Descending.push (h : Descending next ((v, w :: rest) :: stack)) :
    Descending next ((w, next w) :: (v, rest) :: stack) := by
  obtain ⟨hsuccessors, hbelow, hstack⟩ := h
  have hw : Leads next v w := hsuccessors w List.mem_cons_self
  refine ⟨fun u hu => hu, fun u hu => ?_, fun u hu => hsuccessors u (List.mem_cons_of_mem w hu), hbelow, hstack⟩
  rcases List.mem_cons.1 hu with rfl | hu
  · exact .single hw
  · exact (hbelow u hu).tail hw

omit [DecidableEq V] in
/-- A vertex met twice on the stack lies on a cycle. -/
theorem Descending.cycle (h : Descending next ((v, w :: rest) :: stack))
    (hw : w ∈ ((v, w :: rest) :: stack).map Prod.fst) : Relation.TransGen (Leads next) w w := by
  have hlead : Leads next v w := h.1 w List.mem_cons_self
  rcases List.mem_cons.1 hw with rfl | hw
  · exact .single hlead
  · exact (h.2.1 w hw).tail hlead

theorem visit_cycle (h : Colored next color done stack) (hdescending : Descending next stack)
    (hvisit : visit next budget color stack = some (true, color')) :
    ∃ v, Relation.TransGen (Leads next) v v := by
  induction budget generalizing color done stack with
  | zero => cases hvisit
  | succ budget ih =>
    match stack with
    | [] => cases hvisit
    | (v, []) :: stack => exact ih h.pop hdescending.2.2 hvisit
    | (v, w :: rest) :: stack =>
      rw [visit] at hvisit
      cases hw : color w with
      | gray => exact ⟨w, hdescending.cycle ((h.gray w).1 hw)⟩
      | white =>
        rw [hw] at hvisit
        exact ih (h.push hw) hdescending.push hvisit
      | black =>
        rw [hw] at hvisit
        have hrest : ∀ u ∈ rest, u ∈ next v := fun u hu => hdescending.1 u (List.mem_cons_of_mem w hu)
        exact ih (h.skip hw) ⟨hrest, hdescending.2⟩ hvisit

theorem search_cycle {vs : List V} (h : Colored next color done [])
    (hsearch : search next budget color vs = some true) : ∃ v, Relation.TransGen (Leads next) v v := by
  induction vs generalizing color done with
  | nil => cases hsearch
  | cons v vs ih =>
    rw [search] at hsearch
    split_ifs at hsearch with hv
    · cases hvisit : visit next budget (Function.update color v .gray) [(v, next v)] with
      | none =>
        rw [hvisit] at hsearch
        cases hsearch
      | some result =>
        obtain ⟨met, color'⟩ := result
        rw [hvisit] at hsearch
        cases met with
        | true => exact visit_cycle (h.start hv) ⟨fun w hw => hw, by simp, trivial⟩ hvisit
        | false =>
          obtain ⟨done', hcolored, -, -⟩ := visit_colored (h.start hv) hvisit
          exact ih hcolored hsearch
    · exact ih h hsearch

/-- A search that was not stopped for want of budget answers whether there is a cycle among the
vertices it started from, all that lead on being among them. -/
theorem search_eq_true_iff {vs : List V} {met : Bool} (hvs : ∀ v w, Leads next v w → v ∈ vs)
    (hsearch : search next budget (fun _ => .white) vs = some met) :
    met = true ↔ ∃ v, Relation.TransGen (Leads next) v v := by
  cases met with
  | true => exact iff_of_true rfl (search_cycle colored_white hsearch)
  | false =>
    obtain ⟨rank, hrank⟩ := exists_rank hsearch
    have hless : ∀ v w, Relation.TransGen (Leads next) v w → rank w < rank v := by
      intro v w hpath
      induction hpath with
      | single hlead => exact hrank _ (hvs _ _ hlead) _ hlead
      | tail _ hlead ih => exact (hrank _ (hvs _ _ hlead) _ hlead).trans ih
    exact iff_of_false Bool.false_ne_true fun ⟨v, hcycle⟩ => lt_irrefl _ (hless v v hcycle)

/-! ### Budget -/

/-- The steps a vertex takes that is met for the first time. -/
def cost (next : V → List V) (v : V) : ℕ := (next v).length + 1

def whiteCost (next : V → List V) (color : V → Color) (ids : Finset V) : ℕ :=
  ∑ v ∈ ids, if color v = .white then cost next v else 0

def stackCost : List (Frame V) → ℕ
  | [] => 0
  | (_, rest) :: stack => rest.length + 1 + stackCost stack

theorem whiteCost_update {ids : Finset V} {c : Color} (hc : c ≠ .white) (hv : v ∈ ids)
    (hwhite : color v = .white) :
    whiteCost next (Function.update color v c) ids + cost next v = whiteCost next color ids := by
  have hrest : ∀ u ∈ ids.erase v, (if Function.update color v c u = .white then cost next u else 0) =
      if color u = .white then cost next u else 0 := by
    intro u hu
    rw [Function.update_of_ne (Finset.ne_of_mem_erase hu)]
  rw [whiteCost, whiteCost, ← Finset.add_sum_erase ids _ hv, ← Finset.add_sum_erase ids _ hv,
    Finset.sum_congr rfl hrest, Function.update_self, if_neg hc, if_pos hwhite]
  omega

theorem whiteCost_update_le {ids : Finset V} {c : Color} (hc : c ≠ .white) :
    whiteCost next (Function.update color v c) ids ≤ whiteCost next color ids := by
  refine Finset.sum_le_sum fun u _ => ?_
  by_cases hu : u = v
  · rw [hu, Function.update_self, if_neg hc]
    exact Nat.zero_le _
  · rw [Function.update_of_ne hu]

/-- A budget above what is left to do is enough. -/
theorem visit_isSome {ids : Finset V} (hids : ∀ v ∈ ids, ∀ w ∈ next v, w ∈ ids)
    (hstack : ∀ frame ∈ stack, ∀ w ∈ frame.2, w ∈ ids)
    (hbudget : whiteCost next color ids + stackCost stack < budget) :
    ∃ met color', visit next budget color stack = some (met, color') ∧
      whiteCost next color' ids ≤ whiteCost next color ids := by
  induction budget generalizing color stack with
  | zero => omega
  | succ budget ih =>
    match stack with
    | [] => exact ⟨false, color, rfl, le_rfl⟩
    | (v, []) :: stack =>
      have hle : whiteCost next (Function.update color v .black) ids ≤ whiteCost next color ids :=
        whiteCost_update_le (by decide)
      have hlt : whiteCost next (Function.update color v .black) ids + stackCost stack < budget := by
        simp only [stackCost, List.length_nil] at hbudget
        omega
      obtain ⟨met, color', hvisit, hless⟩ :=
        ih (fun frame hframe => hstack frame (List.mem_cons_of_mem _ hframe)) hlt
      exact ⟨met, color', hvisit, hless.trans hle⟩
    | (v, w :: rest) :: stack =>
      have htop := hstack _ List.mem_cons_self
      have hbelow : ∀ frame ∈ (v, rest) :: stack, ∀ u ∈ frame.2, u ∈ ids := by
        intro frame hframe u hu
        rcases List.mem_cons.1 hframe with rfl | hframe
        · exact htop u (List.mem_cons_of_mem _ hu)
        · exact hstack frame (List.mem_cons_of_mem _ hframe) u hu
      simp only [stackCost, List.length_cons] at hbudget
      rw [visit]
      cases hw : color w with
      | gray => exact ⟨true, color, rfl, le_rfl⟩
      | white =>
        have hcost : whiteCost next (Function.update color w .gray) ids + cost next w =
            whiteCost next color ids := whiteCost_update (by decide) (htop w List.mem_cons_self) hw
        rw [cost] at hcost
        have hnew : ∀ frame ∈ (w, next w) :: (v, rest) :: stack, ∀ u ∈ frame.2, u ∈ ids := by
          intro frame hframe
          rcases List.mem_cons.1 hframe with rfl | hframe
          · exact hids w (htop w List.mem_cons_self)
          · exact hbelow frame hframe
        have hlt : whiteCost next (Function.update color w .gray) ids +
            stackCost ((w, next w) :: (v, rest) :: stack) < budget := by
          simp only [stackCost]
          omega
        obtain ⟨met, color', hvisit, hless⟩ := ih hnew hlt
        exact ⟨met, color', hvisit, by omega⟩
      | black =>
        exact ih hbelow (by
          simp only [stackCost]
          omega)

theorem search_isSome (ids : Finset V) (hids : ∀ v ∈ ids, ∀ w ∈ next v, w ∈ ids) {vs : List V}
    (hvs : ∀ v ∈ vs, v ∈ ids) (hbudget : whiteCost next color ids < budget) :
    (search next budget color vs).isSome = true := by
  induction vs generalizing color with
  | nil => rfl
  | cons v vs ih =>
    have hrest : ∀ u ∈ vs, u ∈ ids := fun u hu => hvs u (List.mem_cons_of_mem v hu)
    rw [search]
    split_ifs with hv
    · have hmem := hvs v List.mem_cons_self
      have hcost : whiteCost next (Function.update color v .gray) ids + cost next v =
          whiteCost next color ids := whiteCost_update (by decide) hmem hv
      rw [cost] at hcost
      have hstack : ∀ frame ∈ [(v, next v)], ∀ w ∈ frame.2, w ∈ ids := by
        intro frame hframe
        rw [List.mem_singleton.1 hframe]
        exact hids v hmem
      have hlt : whiteCost next (Function.update color v .gray) ids + stackCost [(v, next v)] < budget := by
        simp only [stackCost]
        omega
      obtain ⟨met, color', hvisit, hless⟩ := visit_isSome hids hstack hlt
      rw [hvisit]
      cases met with
      | true => rfl
      | false => exact ih hrest (by omega)
    · exact ih hrest hbudget

end UltraTorrent.Library.DepthFirst
