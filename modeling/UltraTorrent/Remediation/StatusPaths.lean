import Mathlib.Data.Fintype.Basic
import UltraTorrent.Remediation.Plans

/-! The status column of a plan only moves along the transitions, and a step only starts while
the plan is executing, as long as no supersession and no cancellation comes too late. -/
namespace UltraTorrent.Remediation.StatusPaths

open Library Library.Interleaving PlanContract PlanBuilder Plans

variable {H : Type} {store store' : Store H} {write : Write H} {call call' : Call H} {planId : String}

/-! ### What is written to the status column -/

def claimed : Call H → Option String
  | .loading planId | .blocking planId _ | .failing planId => some planId
  | .checkingItem plan | .checkingRecommendation plan _ | .running plan _ | .invoking plan _ _
  | .auditing plan _ _ | .completing plan _ _ | .stepFailing plan _ => some plan.id
  | _ => none

/-- The status a write gives a plan, if it gives one. -/
def written (store : Store H) (planId : String) : Write H → Option PlanStatus
  | .amend id (.create _ _ _) => if planId = id then some .proposed else none
  | .amend _ (.supersede id) => if planId = id then some .superseded else none
  | .swap id sources target _ _ =>
    if planId = id ∧ (store.planStatus id).any sources.contains then some target else none
  | .nothing | .world _ | .step _ _ _ | .amend _ (.refresh _ _ _ _ _) | .amend _ (.setBlock _ _) => none

theorem planStatus_change (change : Change) :
    (store.change change).planStatus planId = store.planStatus planId := by
  cases change with
  | withdraw id =>
    have hfind : (store.change (.withdraw id)).plans.find planId =
        (store.plans.find planId).map (detached id) :=
      Table.find_update (f := detached id) (fun _ => rfl) planId
    rw [Store.planStatus, hfind, Option.map_map]
    rfl
  | _ => rfl

/-- An update of a row that leaves its status alone. -/
theorem planStatus_updatePlan {id : String} {f : PlanRow H → PlanRow H} {hf : ∀ p, (f p).id = p.id}
    (hstatus : ∀ p, (f p).status = p.status) (h : store.updatePlan id f hf = some store') :
    store'.planStatus planId = store.planStatus planId := by
  obtain ⟨_, _, rfl⟩ := Option.map_eq_some_iff.1 h
  exact Table.map_find_updateAt (g := PlanRow.status) hf hstatus planId

theorem planStatus_updatePlan_set {id : String} {f : PlanRow H → PlanRow H}
    {hf : ∀ p, (f p).id = p.id} {s : PlanStatus} (hstatus : ∀ p, (f p).status = s)
    (h : store.updatePlan id f hf = some store') :
    store'.planStatus planId = if planId = id then some s else store.planStatus planId := by
  obtain ⟨row, hrow, rfl⟩ := Option.map_eq_some_iff.1 h
  exact Table.map_find_updateAt_set (g := PlanRow.status) hf hstatus hrow planId

theorem planStatus_swap (id : String) (sources : List PlanStatus) (target : PlanStatus)
    (blockReason : Option BlockReason) (approval : Option (String × Option H)) :
    ((store.plans.updateAt id (swapped sources target blockReason approval)
        (id_swapped sources target blockReason approval)).find planId).map (·.status) =
      (if planId = id ∧ (store.planStatus id).any sources.contains then some target else none).or
        (store.planStatus planId) := by
  by_cases hid : planId = id
  · subst hid
    rw [Table.find_updateAt_self]
    simp only [Store.planStatus]
    cases hrow : store.plans.find planId with
    | none => rfl
    | some row => by_cases hsource : row.status ∈ sources <;> simp [swapped, hsource]
  · rw [Table.find_updateAt_of_ne _ hid, if_neg fun h => hid h.1, Option.none_or]
    rfl

theorem planStatus_apply (h : store.apply write = some store') (planId : String) :
    store'.planStatus planId = (written store planId write).or (store.planStatus planId) := by
  cases write with
  | nothing => rw [← Option.some.inj h]; rfl
  | world change => rw [← Option.some.inj h]; exact planStatus_change change
  | step id ordinal status => exact planStatus_updatePlan (f := stepped ordinal status) (fun _ => rfl) h
  | swap id sources target blockReason approval =>
    rw [← Option.some.inj h]
    exact planStatus_swap id sources target blockReason approval
  | amend id amendment =>
    cases amendment with
    | refresh _ draft desiredState recommendation clears =>
      exact planStatus_updatePlan (f := refreshed draft desiredState recommendation clears)
        (fun _ => rfl) h
    | setBlock _ blockReason =>
      exact planStatus_updatePlan (f := fun p => { p with blockReason }) (fun _ => rfl) h
    | supersede id =>
      rw [planStatus_updatePlan_set (f := fun p => { p with status := .superseded })
        (fun _ => rfl) h, written]
      split_ifs <;> rfl
    | create draft desiredState recommendation =>
      rw [Store.apply] at h
      split_ifs at h
      obtain ⟨plans, hplans, rfl⟩ := Option.map_eq_some_iff.1 h
      by_cases hid : planId = id
      · subst hid
        have hnew := Table.find_of_insert_new hplans (List.mem_singleton_self _)
        simp only [Store.planStatus, written, if_true, Option.some_or]
        exact congrArg (Option.map PlanRow.status) hnew
      · rw [written, if_neg hid, Option.none_or]
        exact congrArg (Option.map PlanRow.status)
          (Table.find_of_insert_old hplans (by simpa [newRow] using hid))

/-- The compare-and-swaps of the calls, each between the statuses it names. -/
inductive Swaps : Call H → String → PlanStatus → PlanStatus → Prop
  | approve (plan : PlanRow H) (user : User) (h : canTransitionPlan plan.status .approved = true) :
      Swaps (.approving plan user) plan.id plan.status .approved
  | cancel (plan : PlanRow H) (h : canTransitionPlan plan.status .cancelled = true) :
      Swaps (.cancelling plan) plan.id plan.status .cancelled
  | claim (planId : String) : Swaps (.execute planId) planId .approved .executing
  | finish (plan : PlanRow H) : Swaps (.running plan []) plan.id .executing .verifying
  | block (planId : String) (reason : BlockReason) {s : PlanStatus} (h : s ∈ [.executing, .verifying]) :
      Swaps (.blocking planId reason) planId s .blocked
  | fail (planId : String) {s : PlanStatus} (h : s ∈ [.executing, .verifying]) :
      Swaps (.failing planId) planId s .failed
  | succeed (plan : PlanRow H) : Swaps (.proving plan []) plan.id .verifying .succeeded
  | refute (planId : String) {s : PlanStatus} (h : s ∈ [.executing, .verifying]) :
      Swaps (.refuting planId) planId s .failed

theorem Swaps.legal {s t : PlanStatus} (h : Swaps call planId s t) : canTransitionPlan s t = true := by
  cases h with
  | approve _ _ h | cancel _ h => exact h
  | block _ _ h | fail _ h | refute _ h =>
    rcases List.mem_pair.1 h with rfl | rfl <;> rfl
  | claim | finish | succeed => rfl

/-- What an action makes of the status of a plan. -/
inductive StatusStep (store : Store H) (call : Call H) (store' : Store H) (planId : String) : Prop
  | kept (h : store'.planStatus planId = store.planStatus planId)
  | created (draft : PlanDraft) (desiredState : Option H) (recommendation : H)
      (rest : List (Amendment H)) (hcall : call = .writing (.create draft desiredState recommendation :: rest))
      (hnone : store.planStatus planId = none) (h : store'.planStatus planId = some .proposed)
  | superseded (rest : List (Amendment H)) {s : PlanStatus} (hcall : call = .writing (.supersede planId :: rest))
      (hs : store.planStatus planId = some s) (h : store'.planStatus planId = some .superseded)
  | swapped {s t : PlanStatus} (hswap : Swaps call planId s t) (hs : store.planStatus planId = some s)
      (h : store'.planStatus planId = some t)

theorem StatusStep.of_swap {id : String} {sources : List PlanStatus} {target : PlanStatus}
    {blockReason : Option BlockReason} {approval : Option (String × Option H)}
    (hswap : ∀ s ∈ sources, Swaps call id s target)
    (h : store.apply (.swap id sources target blockReason approval) = some store') :
    StatusStep store call store' planId := by
  have hstatus := planStatus_apply h planId
  rw [written] at hstatus
  split_ifs at hstatus with hmoved
  · obtain ⟨rfl, hsource⟩ := hmoved
    obtain ⟨s, hs, hmem⟩ := (Option.any_eq_true _ _).1 hsource
    exact .swapped (hswap s (List.contains_iff_mem.1 hmem)) hs hstatus
  · exact .kept hstatus

/-- An action that writes no status. -/
theorem StatusStep.of_unwritten (hnone : written store planId write = none)
    (h : store.apply write = some store') : StatusStep store call store' planId := by
  refine .kept ?_
  rw [planStatus_apply h, hnone, Option.none_or]

theorem StatusStep.of_amend {amendment : Amendment H} {rest : List (Amendment H)} {newId : String}
    (h : store.apply (.amend newId amendment) = some store') :
    StatusStep store (.writing (amendment :: rest)) store' planId := by
  have hstatus := planStatus_apply h planId
  cases amendment with
  | refresh | setBlock => exact .of_unwritten rfl h
  | supersede id =>
    rw [written] at hstatus
    split_ifs at hstatus with hid
    · subst hid
      obtain ⟨row, hrow, -⟩ := Option.map_eq_some_iff.1 h
      exact .superseded rest rfl (congrArg (Option.map PlanRow.status) hrow) hstatus
    · exact .kept hstatus
  | create draft desiredState recommendation =>
    rw [written] at hstatus
    split_ifs at hstatus with hid
    · subst hid
      rw [Store.apply] at h
      split_ifs at h
      obtain ⟨plans, hplans, -⟩ := Option.map_eq_some_iff.1 h
      have hnone := Table.find_eq_none_of_insert hplans (List.mem_singleton_self _)
      exact .created draft desiredState recommendation rest rfl
        (congrArg (Option.map PlanRow.status) hnone) hstatus
    · exact .kept hstatus

variable [DecidableEq H] {hashing : Hashing H} {answer : Answer}

theorem next_reading {task : Task} {recommendations : Option (List Recommendation)}
    {plans : Option (List (PlanRow H))} {facts : Option Facts}
    (hnext : next hashing store answer (.reading task recommendations plans facts) =
      some (write, call')) :
    write = .nothing ∧ ((∃ r p f, call' = .reading task r p f) ∨ (∃ l, call' = .writing l) ∨
      call' = .done) := by
  rcases recommendations with _ | recommendations <;> rcases plans with _ | plans <;>
    rcases facts with _ | facts <;> simp only [next] at hnext <;> repeat' split at hnext
  all_goals
    cases hnext
    try simp

/-- What a call may write. -/
inductive Writes : Call H → Write H → Prop
  | nothing (call : Call H) : Writes call .nothing
  | step (call : Call H) (planId : String) (ordinal : ℕ) (status : StepStatus)
      (h : claimed call = some planId) : Writes call (.step planId ordinal status)
  | world (change : Change) (rest : List Change) : Writes (.world (change :: rest)) (.world change)
  | amend (amendment : Amendment H) (rest : List (Amendment H)) (newId : String) :
      Writes (.writing (amendment :: rest)) (.amend newId amendment)
  | approve (plan : PlanRow H) (user : User) (h : canTransitionPlan plan.status .approved = true) :
      Writes (.approving plan user) (.swap plan.id [plan.status] .approved none
        (some (user.id, plan.pins.recommendation)))
  | cancel (plan : PlanRow H) (h : canTransitionPlan plan.status .cancelled = true) :
      Writes (.cancelling plan) (.swap plan.id [plan.status] .cancelled none none)
  | claim (planId : String) : Writes (.execute planId) (.swap planId [.approved] .executing none none)
  | finish (plan : PlanRow H) :
      Writes (.running plan []) (.swap plan.id [.executing] .verifying none none)
  | block (planId : String) (reason : BlockReason) : Writes (.blocking planId reason)
      (.swap planId [.executing, .verifying] .blocked (some reason) none)
  | fail (planId : String) : Writes (.failing planId) (failPlan planId)
  | succeed (plan : PlanRow H) :
      Writes (.proving plan []) (.swap plan.id [.verifying] .succeeded none none)
  | refute (planId : String) : Writes (.refuting planId) (failPlan planId)

theorem next_writes (hnext : next hashing store answer call = some (write, call')) :
    Writes call write := by
  cases call with
  | done => cases hnext
  | world changes =>
    cases changes <;> cases hnext
    exact .world _ _
  | reading task recommendations plans facts =>
    obtain ⟨rfl, -⟩ := next_reading hnext
    exact .nothing _
  | writing amendments =>
    cases amendments <;> simp only [next] at hnext <;> (try split_ifs at hnext) <;> cases hnext
    · exact .nothing _
    · exact .nothing _
    · exact .amend _ _ _
  | approving plan user =>
    simp only [next, transition] at hnext
    split_ifs at hnext with _ hcan <;> cases hnext
    · exact .nothing _
    · exact .approve plan user hcan
    · exact .nothing _
  | cancelling plan =>
    simp only [next, transition] at hnext
    split_ifs at hnext with _ hcan <;> cases hnext
    · exact .nothing _
    · exact .cancel plan hcan
    · exact .nothing _
  | execute id =>
    simp only [next] at hnext
    split_ifs at hnext <;> cases hnext
    · exact .nothing _
    · exact .claim id
    · exact .claim id
  | running plan steps =>
    cases steps <;> simp only [next] at hnext <;> split_ifs at hnext <;> cases hnext
    · exact .nothing _
    · exact .finish plan
    · exact .nothing _
    · exact .step _ _ _ _ rfl
  | blocking id reason =>
    simp only [next] at hnext
    split_ifs at hnext <;> cases hnext
    · exact .nothing _
    · exact .block id reason
  | failing id =>
    simp only [next] at hnext
    split_ifs at hnext <;> cases hnext
    · exact .nothing _
    · exact .fail id
  | refuting id =>
    simp only [next] at hnext
    split_ifs at hnext <;> cases hnext
    · exact .nothing _
    · exact .refute id
  | proving plan steps =>
    cases steps <;> simp only [next] at hnext <;> repeat' split at hnext
    all_goals
      cases hnext
      first | exact .nothing _ | exact .succeed plan
  | completing | stepFailing =>
    simp only [next] at hnext
    split_ifs at hnext <;> cases hnext
    · exact .nothing _
    · exact .step _ _ _ _ rfl
  | approve | counting | cancel | loading | verify | invoking | auditing | reconcile | checkingItem |
      checkingRecommendation =>
    simp only [next] at hnext
    repeat' split at hnext
    all_goals
      cases hnext
      exact .nothing _

omit [DecidableEq H] in
theorem Writes.statusStep (hwrites : Writes call write) (h : store.apply write = some store')
    (planId : String) : StatusStep store call store' planId := by
  have hone : ∀ {id : String} {s t : PlanStatus}, Swaps call id s t →
      ∀ u ∈ [s], Swaps call id u t := by
    intro id s t hswap u hu
    rwa [List.mem_singleton.1 hu]
  cases hwrites with
  | nothing | step | world => exact .of_unwritten rfl h
  | amend => exact .of_amend h
  | approve plan user hcan => exact .of_swap (hone (.approve plan user hcan)) h
  | cancel plan hcan => exact .of_swap (hone (.cancel plan hcan)) h
  | claim id => exact .of_swap (hone (.claim id)) h
  | finish plan => exact .of_swap (hone (.finish plan)) h
  | block id reason => exact .of_swap (fun s hs => .block id reason hs) h
  | fail id => exact .of_swap (fun s hs => .fail id hs) h
  | succeed plan => exact .of_swap (hone (.succeed plan)) h
  | refute id => exact .of_swap (fun s hs => .refute id hs) h

theorem next_statusStep (hnext : next hashing store answer call = some (write, call'))
    (h : store.apply write = some store') (planId : String) : StatusStep store call store' planId :=
  (next_writes hnext).statusStep h planId

/-- An action either leaves the store alone, with its call over, or carries out what is next. -/
theorem act_cases (h : act hashing store call answer = some (store', call')) :
    (store' = store ∧ call' = .done) ∨
      ∃ write, next hashing store answer call = some (write, call') ∧
        store.apply write = some store' := by
  unfold act at h
  split_ifs at h
  · cases h
    exact .inl ⟨rfl, rfl⟩
  · obtain ⟨⟨write, k⟩, hnext, happly⟩ := Option.map_eq_some_iff.1 h
    dsimp only at happly
    cases hwritten : store.apply write with
    | none =>
      rw [hwritten] at happly
      cases happly
      exact .inl ⟨rfl, rfl⟩
    | some s =>
      rw [hwritten] at happly
      cases happly
      exact .inr ⟨write, hnext, hwritten⟩

theorem act_statusStep (h : act hashing store call answer = some (store', call')) (planId : String) :
    StatusStep store call store' planId := by
  rcases act_cases h with ⟨rfl, -⟩ | ⟨write, hnext, happly⟩
  · exact .kept rfl
  · exact next_statusStep hnext happly planId

/-! ### How far a plan has come -/

/-- No call ever takes a plan back. -/
def rank : PlanStatus → ℕ
  | .proposed => 0
  | .awaitingApproval => 1
  | .approved => 2
  | .executing => 3
  | .waiting => 4
  | .verifying => 5
  | .blocked => 6
  | .succeeded | .failed | .cancelled | .superseded => 7

omit [DecidableEq H] in
theorem Swaps.rank_le {s t : PlanStatus} (h : Swaps call planId s t) : rank s ≤ rank t := by
  cases h with
  | approve plan _ h => cases hs : plan.status <;> rw [hs] at h <;> first | decide | cases h
  | cancel plan _ => cases plan.status <;> decide
  | block _ _ h | fail _ h | refute _ h => rcases List.mem_pair.1 h with rfl | rfl <;> decide
  | claim | finish | succeed => decide

omit [DecidableEq H] in
theorem StatusStep.rank_le (h : StatusStep store call store' planId) {s : PlanStatus}
    (hs : store.planStatus planId = some s) :
    ∃ t, store'.planStatus planId = some t ∧ rank s ≤ rank t := by
  cases h with
  | kept h => exact ⟨s, h.trans hs, le_rfl⟩
  | created _ _ _ _ _ hnone => cases hnone.symm.trans hs
  | superseded _ _ _ h => exact ⟨_, h, by cases s <;> decide⟩
  | swapped hswap hs' h =>
    cases hs.symm.trans hs'
    exact ⟨_, h, hswap.rank_le⟩

/-! ### What a call is at -/

/-- The plan an executor may yet start a step of. -/
def mayStart : Call H → Option String
  | .loading planId => some planId
  | .checkingItem plan | .checkingRecommendation plan _ =>
    if todo plan.steps = [] then none else some plan.id
  | .running plan steps | .invoking plan _ steps | .auditing plan _ steps
  | .completing plan _ steps => if steps = [] then none else some plan.id
  | _ => none

/-- The plan a verification is at work on. -/
def proves : Call H → Option String
  | .proving plan _ => some plan.id
  | .refuting planId => some planId
  | _ => none

/-- The calls as they are made. -/
def isEntry : Call H → Bool
  | .done | .world _ | .reconcile _ | .approve _ _ | .cancel _ | .execute _ | .verify _ => true
  | _ => false

omit [DecidableEq H] in
theorem claimed_of_isEntry (h : isEntry call = true) : claimed call = none := by
  cases call <;> first | rfl | cases h

omit [DecidableEq H] in
theorem claimed_of_mayStart (h : mayStart call = some planId) : claimed call = some planId := by
  unfold mayStart at h
  split at h <;> (try split_ifs at h) <;> first | exact h | cases h

omit [DecidableEq H] in
/-- The rechecks of an executor either block the plan or go on with it. -/
theorem recheckItem_cases (store : Store H) (plan : PlanRow H) (answer : Answer) :
    (∃ reason, recheckItem store plan answer = .blocking plan.id reason) ∨
      ∃ recommendationId, recheckItem store plan answer =
        .checkingRecommendation plan recommendationId := by
  unfold recheckItem
  repeat' split
  all_goals simp

theorem recheckRecommendation_cases (hashing : Hashing H) (store : Store H) (plan : PlanRow H)
    (recommendationId : String) :
    (∃ reason, recheckRecommendation hashing store plan recommendationId = .blocking plan.id reason) ∨
      recheckRecommendation hashing store plan recommendationId = .running plan (todo plan.steps) := by
  unfold recheckRecommendation
  repeat' split
  all_goals simp

theorem next_claimed (hnext : next hashing store answer call = some (write, call'))
    (hclaimed : claimed call' = some planId) :
    (claimed call = some planId ∧ (∀ id, written store id write = none) ∧
      (mayStart call' = some planId → mayStart call = some planId)) ∨
    (call = .execute planId ∧ store.planStatus planId = some .approved ∧
      write = .swap planId [.approved] .executing none none) := by
  cases call with
  | done => cases hnext
  | world changes =>
    cases changes <;> cases hnext
    cases hclaimed
  | reading task recommendations plans facts =>
    obtain ⟨-, ⟨_, _, _, rfl⟩ | ⟨_, rfl⟩ | rfl⟩ := next_reading hnext <;> cases hclaimed
  | proving plan steps =>
    cases steps <;> simp only [next] at hnext <;> repeat' split at hnext
    all_goals
      cases hnext
      cases hclaimed
  | writing amendments =>
    cases amendments <;> simp only [next] at hnext <;> repeat' split at hnext
    all_goals
      cases hnext
      cases hclaimed
  | execute id =>
    simp only [next] at hnext
    split_ifs at hnext with hfails happroved <;> cases hnext
    · cases hclaimed
    · cases hclaimed
      exact .inr ⟨rfl, happroved, rfl⟩
    · cases hclaimed
  | loading id =>
    simp only [next] at hnext
    split at hnext <;> cases hnext
    · cases hclaimed
    · rename_i plan hfind
      have hid : plan.id = id := by
        split_ifs at hfind
        exact (Table.find_eq_some.1 hfind).2
      have hplan : plan.id = planId := Option.some.inj hclaimed
      exact .inl ⟨congrArg some (hid.symm.trans hplan), fun _ => rfl,
        fun _ => congrArg some (hid.symm.trans hplan)⟩
  | checkingItem plan =>
    cases hnext
    rcases recheckItem_cases store plan answer with
      ⟨reason, hcall⟩ | ⟨recommendationId, hcall⟩ <;> rw [hcall] at hclaimed ⊢
    · exact .inl ⟨hclaimed, fun _ => rfl, fun h => by cases h⟩
    · exact .inl ⟨hclaimed, fun _ => rfl, fun h => h⟩
  | checkingRecommendation plan recommendationId =>
    simp only [next] at hnext
    split_ifs at hnext <;> cases hnext
    · cases hclaimed
    · rcases recheckRecommendation_cases hashing store plan recommendationId with
        ⟨reason, hcall⟩ | hcall <;> rw [hcall] at hclaimed ⊢
      · exact .inl ⟨hclaimed, fun _ => rfl, fun h => by cases h⟩
      · exact .inl ⟨hclaimed, fun _ => rfl, fun h => h⟩
  | running plan steps =>
    cases steps with
    | nil =>
      simp only [next] at hnext
      split_ifs at hnext <;> cases hnext <;> cases hclaimed
    | cons step rest =>
      simp only [next] at hnext
      split_ifs at hnext <;> cases hnext
      · cases hclaimed
      · exact .inl ⟨hclaimed, fun _ => rfl, fun _ => hclaimed⟩
  | invoking | auditing | completing | stepFailing =>
    simp only [next] at hnext
    repeat' split at hnext
    all_goals
      cases hnext
      first
        | cases hclaimed; done
        | exact .inl ⟨hclaimed, fun _ => rfl, fun h => by first | exact h | cases h⟩
  | reconcile | approve | counting | approving | cancel | cancelling | blocking | failing | verify |
      refuting =>
    simp only [next] at hnext
    repeat' split at hnext
    all_goals
      cases hnext
      cases hclaimed

theorem next_proves (hnext : next hashing store answer call = some (write, call'))
    (hproves : proves call' = some planId) :
    proves call = some planId ∨ store.planStatus planId = some .verifying ∧ write = .nothing := by
  cases call with
  | done => cases hnext
  | world changes =>
    cases changes <;> cases hnext
    cases hproves
  | reading task recommendations plans facts =>
    obtain ⟨-, ⟨_, _, _, rfl⟩ | ⟨_, rfl⟩ | rfl⟩ := next_reading hnext <;> cases hproves
  | proving plan steps =>
    cases steps <;> simp only [next] at hnext <;> repeat' split at hnext
    all_goals
      cases hnext
      first | exact .inl hproves | cases hproves
  | writing amendments =>
    cases amendments <;> simp only [next] at hnext <;> repeat' split at hnext
    all_goals
      cases hnext
      cases hproves
  | running plan steps =>
    cases steps <;> simp only [next] at hnext <;> split_ifs at hnext <;> cases hnext <;> cases hproves
  | verify id =>
    simp only [next] at hnext
    split at hnext <;> cases hnext
    · cases hproves
    · rename_i plan hfind
      split_ifs at hfind hproves with hfails hstatus
      · have hplan : plan.id = planId := Option.some.inj hproves
        have hid := (Table.find_eq_some.1 hfind).2
        rw [← hplan, hid, Store.planStatus, hfind, Option.map_some, hstatus]
        exact .inr ⟨rfl, rfl⟩
      · cases hproves
  | checkingItem plan =>
    cases hnext
    rcases recheckItem_cases store plan answer with ⟨_, hcall⟩ | ⟨_, hcall⟩ <;> rw [hcall] at hproves <;>
      cases hproves
  | checkingRecommendation plan recommendationId =>
    simp only [next] at hnext
    split_ifs at hnext <;> cases hnext
    · cases hproves
    · rcases recheckRecommendation_cases hashing store plan recommendationId with ⟨_, hcall⟩ | hcall <;>
        rw [hcall] at hproves <;> cases hproves
  | reconcile | approve | counting | approving | cancel | cancelling | execute | loading | invoking |
      auditing | completing | stepFailing | blocking | failing | refuting =>
    simp only [next] at hnext
    repeat' split at hnext
    all_goals
      cases hnext
      cases hproves

/-! ### One executor for one plan -/

/-- A plan that is claimed is past `approved`. -/
def Claims (store : Store H) (call : Call H) : Prop :=
  ∀ planId, claimed call = some planId → ∃ s, store.planStatus planId = some s ∧ rank .executing ≤ rank s

omit [DecidableEq H] in
/-- Who may take a plan out of `executing`. -/
theorem Swaps.of_executing {s t : PlanStatus} (h : Swaps call planId s t) (hs : s = .executing) :
    (∃ plan, call = .cancelling plan ∧ plan.id = planId ∧ plan.status = .executing) ∨
      claimed call = some planId ∨ proves call = some planId := by
  cases h with
  | approve plan user h =>
    rw [hs] at h
    cases h
  | cancel plan => exact .inl ⟨plan, rfl, rfl, hs⟩
  | claim | succeed => cases hs
  | finish | block | fail => exact .inr (.inl rfl)
  | refute => exact .inr (.inr rfl)

/-- No two executors hold on to one plan. -/
def Apart (k l : Call H) : Prop := ∀ planId, claimed k = some planId → claimed l ≠ some planId

omit [DecidableEq H] in
theorem Apart.symm {k l : Call H} (h : Apart k l) : Apart l k :=
  fun planId hl hk => h planId hk hl

omit [DecidableEq H] in
theorem written_none (h : store.apply write = some store')
    (hnone : ∀ id, written store id write = none) (planId : String) :
    store'.planStatus planId = store.planStatus planId := by
  rw [planStatus_apply h, hnone, Option.none_or]

/-- How an action came to claim a plan. -/
theorem act_claimed (h : act hashing store call answer = some (store', call'))
    (hclaimed : claimed call' = some planId) :
    (claimed call = some planId ∧ (∀ id, store'.planStatus id = store.planStatus id) ∧
      (mayStart call' = some planId → mayStart call = some planId)) ∨
    (call = .execute planId ∧ store.planStatus planId = some .approved ∧
      store'.planStatus planId = some .executing) := by
  rcases act_cases h with ⟨-, rfl⟩ | ⟨write, hnext, happly⟩
  · cases hclaimed
  · rcases next_claimed hnext hclaimed with ⟨hcall, hwritten, hstart⟩ | ⟨rfl, happroved, rfl⟩
    · exact .inl ⟨hcall, written_none happly hwritten, hstart⟩
    · refine .inr ⟨rfl, happroved, ?_⟩
      rw [planStatus_apply happly, written, if_pos ⟨rfl, by simp [happroved]⟩, Option.some_or]

theorem Claims.own (h : act hashing store call answer = some (store', call'))
    (hclaims : Claims store call) : Claims store' call' := by
  intro planId hclaimed
  rcases act_claimed h hclaimed with ⟨hcall, hkept, -⟩ | ⟨-, -, hexecuting⟩
  · obtain ⟨s, hs, hrank⟩ := hclaims planId hcall
    exact ⟨s, (hkept planId).trans hs, hrank⟩
  · exact ⟨_, hexecuting, le_rfl⟩

theorem Claims.other {other : Call H} (h : act hashing store call answer = some (store', call'))
    (hclaims : Claims store other) : Claims store' other := by
  intro planId hclaimed
  obtain ⟨s, hs, hrank⟩ := hclaims planId hclaimed
  obtain ⟨t, ht, hle⟩ := (act_statusStep h planId).rank_le hs
  exact ⟨t, ht, hrank.trans hle⟩

theorem Apart.step {other : Call H} (h : act hashing store call answer = some (store', call'))
    (hclaims : Claims store other) (hapart : Apart call other) : Apart call' other := by
  intro planId hclaimed hother
  rcases act_claimed h hclaimed with ⟨hcall, -⟩ | ⟨-, happroved, -⟩
  · exact hapart planId hcall hother
  · obtain ⟨s, hs, hrank⟩ := hclaims planId hother
    cases happroved.symm.trans hs
    exact absurd hrank (by decide)

/-! ### Orderly runs -/

/-- Where a verification is at work the execution is over. -/
def Proves (store : Store H) (call : Call H) : Prop :=
  ∀ planId, proves call = some planId → ∃ s, store.planStatus planId = some s ∧ rank .verifying ≤ rank s

theorem Proves.own (h : act hashing store call answer = some (store', call'))
    (hproves : Proves store call) : Proves store' call' := by
  intro planId hcall'
  rcases act_cases h with ⟨-, rfl⟩ | ⟨write, hnext, happly⟩
  · cases hcall'
  · rcases next_proves hnext hcall' with hcall | ⟨hverifying, rfl⟩
    · obtain ⟨s, hs, hrank⟩ := hproves planId hcall
      obtain ⟨t, ht, hle⟩ := (next_statusStep hnext happly planId).rank_le hs
      exact ⟨t, ht, hrank.trans hle⟩
    · cases happly
      exact ⟨_, hverifying, le_rfl⟩

theorem Proves.other {other : Call H} (h : act hashing store call answer = some (store', call'))
    (hproves : Proves store other) : Proves store' other := by
  intro planId hother
  obtain ⟨s, hs, hrank⟩ := hproves planId hother
  obtain ⟨t, ht, hle⟩ := (act_statusStep h planId).rank_le hs
  exact ⟨t, ht, hrank.trans hle⟩

def Starts (store : Store H) (call : Call H) : Prop :=
  ∀ planId, mayStart call = some planId → store.planStatus planId = some .executing

theorem Starts.own (h : act hashing store call answer = some (store', call'))
    (hstarts : Starts store call) : Starts store' call' := by
  intro planId hcall'
  rcases act_claimed h (claimed_of_mayStart hcall') with ⟨-, hkept, hmay⟩ | ⟨-, -, hexecuting⟩
  · exact (hkept planId).trans (hstarts planId (hmay hcall'))
  · exact hexecuting

variable {ι : Type*}

def supersedes : Call H → Option String
  | .writing (.supersede planId :: _) => some planId
  | _ => none

def cancelsRun : Call H → Option String
  | .cancelling plan => if plan.status = .executing then some plan.id else none
  | _ => none

/-- A supersession only comes to a plan that may be superseded, and a cancellation never to one
that is executing and of which a step may yet be started. -/
structure Orderly (c : Config ι (Store H) (Call H)) (i : ι) : Prop where
  supersedes : ∀ planId ∈ supersedes (c.call i), ∀ s ∈ c.store.planStatus planId,
    canTransitionPlan s .superseded = true
  cancels : ∀ planId ∈ cancelsRun (c.call i), c.store.planStatus planId = some .executing →
    ∀ j, mayStart (c.call j) ≠ some planId

instance [Fintype ι] (c : Config ι (Store H) (Call H)) (i : ι) : Decidable (Orderly c i) :=
  decidable_of_iff ((∀ planId ∈ supersedes (c.call i), ∀ s ∈ c.store.planStatus planId,
      canTransitionPlan s .superseded = true) ∧
    ∀ planId ∈ cancelsRun (c.call i), c.store.planStatus planId = some .executing →
      ∀ j, mayStart (c.call j) ≠ some planId)
    ⟨fun h => ⟨h.1, h.2⟩, fun h => ⟨h.1, h.2⟩⟩

theorem Starts.other {c : Config ι (Store H) (Call H)} {i j : ι} (horderly : Orderly c i)
    (h : act hashing c.store (c.call i) answer = some (store', call'))
    (hstarts : Starts c.store (c.call j)) (hproves : Proves c.store (c.call i))
    (hapart : Apart (c.call i) (c.call j)) : Starts store' (c.call j) := by
  intro planId hmay
  have hexecuting := hstarts planId hmay
  have hfree : claimed (c.call i) ≠ some planId := fun hclaimed =>
    hapart planId hclaimed (claimed_of_mayStart hmay)
  cases act_statusStep h planId with
  | kept h => exact h.trans hexecuting
  | created _ _ _ _ _ hnone => cases hnone.symm.trans hexecuting
  | superseded rest hcall hs =>
    cases horderly.supersedes planId (by rw [hcall]; rfl) _ hexecuting
  | @swapped s t hswap hs h =>
    rcases hswap.of_executing (Option.some.inj (hs.symm.trans hexecuting)) with
      ⟨plan, hcall, rfl, hstatus⟩ | hclaimed | hproved
    · have hcancels : cancelsRun (c.call i) = some plan.id := by rw [hcall, cancelsRun, if_pos hstatus]
      exact absurd hmay (horderly.cancels plan.id hcancels hexecuting j)
    · exact absurd hclaimed hfree
    · obtain ⟨u, hu, hrank⟩ := hproves planId hproved
      cases hexecuting.symm.trans hu
      exact absurd hrank (by decide)

/-- What every action keeps, of each call and of every two. -/
def Kept (c : Config ι (Store H) (Call H)) : Prop :=
  Inv (fun _ => True) (fun store call => Claims store call ∧ Proves store call ∧ Starts store call)
    Apart c

omit [DecidableEq H] in
theorem Kept.start {c : Config ι (Store H) (Call H)} (hentry : ∀ i, isEntry (c.call i) = true) :
    Kept c := by
  have hfree : ∀ i, claimed (c.call i) = none ∧ proves (c.call i) = none ∧ mayStart (c.call i) = none := by
    intro i
    have hi := hentry i
    cases hcall : c.call i <;> rw [hcall] at hi <;> first | exact ⟨rfl, rfl, rfl⟩ | cases hi
  refine ⟨trivial, fun i => ⟨?_, ?_, ?_⟩, fun i j _ => ?_⟩
  · intro planId h
    cases (hfree i).1.symm.trans h
  · intro planId h
    cases (hfree i).2.1.symm.trans h
  · intro planId h
    cases (hfree i).2.2.symm.trans h
  · intro planId h
    cases (hfree i).1.symm.trans h

variable [DecidableEq ι]

theorem Kept.run {start c : Config ι (Store H) (Call H)} (hentry : ∀ i, isEntry (start.call i) = true)
    (h : Run (act hashing) Orderly start c) : Kept c := by
  refine h.invariant (Kept.start hentry) ?_
  intro c i answer store' call' hkept horderly hact
  obtain ⟨hclaims, hproves, hstarts⟩ := hkept.call i
  refine Inv.update (fun _ _ => Apart.symm) hkept trivial
    ⟨hclaims.own hact, hproves.own hact, hstarts.own hact⟩ fun j hj => ?_
  obtain ⟨hclaims', hproves', hstarts'⟩ := hkept.call j
  have hapart := hkept.pair i j hj.symm
  exact ⟨⟨hclaims'.other hact, hproves'.other hact, hstarts'.other horderly hact hproves hapart⟩,
    hapart.step hact hclaims'⟩

/-- An action that moves the status of a plan along the transitions, and starts no step of a plan
that is not executing. -/
structure Lawful (c : Config ι (Store H) (Call H)) (i : ι) (c' : Config ι (Store H) (Call H)) : Prop where
  path : ∀ planId s, c.store.planStatus planId = some s → c'.store.planStatus planId = some s ∨
    ∃ t, c'.store.planStatus planId = some t ∧ canTransitionPlan s t = true
  starts : ∀ plan step rest, c.call i = .running plan (step :: rest) →
    c'.call i = .invoking plan step rest → c.store.planStatus plan.id = some .executing

/-- Every action of an orderly run is lawful, whatever the calls are and however they overlap. -/
theorem orderly_lawful {start c c' : Config ι (Store H) (Call H)} {i : ι}
    (hentry : ∀ i, isEntry (start.call i) = true) (h : Run (act hashing) Orderly start c)
    (horderly : Orderly c i) (hstep : step (act hashing) c i answer = some c') : Lawful c i c' := by
  obtain ⟨store', call', hact, rfl⟩ := step_eq_some.1 hstep
  obtain ⟨-, -, hstarts⟩ := (Kept.run hentry h).call i
  refine ⟨fun planId s hs => ?_, fun plan s rest hcall _ => ?_⟩
  · cases act_statusStep hact planId with
    | kept h => exact .inl (h.trans hs)
    | created _ _ _ _ _ hnone => cases hnone.symm.trans hs
    | superseded rest hcall hs' h =>
      exact .inr ⟨_, h, horderly.supersedes planId (by rw [hcall]; rfl) s hs⟩
    | swapped hswap hs' h =>
      cases hs.symm.trans hs'
      exact .inr ⟨_, h, hswap.legal⟩
  · exact hstarts plan.id (by rw [hcall]; rfl)

def plain : Hashing String := { rt := .ascii, sha256 := fun text => text }

/-- A plan of two steps whose recommendation has gone. -/
def unjustified (status : PlanStatus) : PlanRow String :=
  { id := "p1", entityType := "movie", entityId := "m1", recommendationId := some "r1",
    status, riskClass := .low, blockReason := none,
    pins := { desiredState := none, recommendation := some "", verification := none },
    approvedById := none, approvedFingerprint := none, expiresAt := some 100,
    steps := [{ ordinal := 0, kind := "refresh_metadata", itemId := some "m1",
                metadataProviderPresent := true },
              { ordinal := 1, kind := "refresh_metadata", itemId := some "m1",
                metadataProviderPresent := true }] }

def movie (recommendations : Table Recommendation (·.id)) (plan : PlanRow String) : Store String where
  recommendations
  locked := fun id => if id = "m1" then some false else none
  providers := fun _ => none
  plans := ⟨[plan], List.nodup_singleton _⟩

/-- The plan is superseded after it has been cancelled. -/
theorem cancelled_superseded : ∃ c c', Run (act plain) (fun _ _ => True)
      { store := movie ⟨[], List.nodup_nil⟩ (unjustified .proposed)
        call := fun i : Fin 2 => if i = 0 then
          .reconcile { entityType := "movie", entityId := "m1", now := 0, desired := none }
          else .cancel "p1" } c ∧
    step (act plain) c 0 {} = some c' ∧ ¬ Lawful c 0 c' := by
  obtain ⟨c, hrun, hend⟩ := run_of_exec_any (act plain) (fun _ _ => True)
    { store := movie ⟨[], List.nodup_nil⟩ (unjustified .proposed)
      call := fun i : Fin 2 => if i = 0 then
        .reconcile { entityType := "movie", entityId := "m1", now := 0, desired := none }
        else .cancel "p1" }
    [(0, {}), (0, {}), (0, { read := .plans }), (0, { read := .facts }), (0, {}), (1, {}), (1, {})]
    (fun c => decide (c.store.planStatus "p1" = some .cancelled) &&
      (step (act plain) c 0 {}).any fun c' => c'.store.planStatus "p1" = some .superseded)
    (by decide +kernel)
  rw [Bool.and_eq_true, decide_eq_true_eq, Option.any_eq_true] at hend
  obtain ⟨hcancelled, c', hstep, hsuperseded⟩ := hend
  refine ⟨c, c', hrun, hstep, fun hlawful => ?_⟩
  rcases hlawful.path "p1" _ hcancelled with hkept | ⟨t, -, hcan⟩
  · cases (of_decide_eq_true hsuperseded).symm.trans hkept
  · rw [canTransitionPlan_terminal rfl] at hcan
    cases hcan

def incomplete : Recommendation :=
  { id := "r1", entityType := "movie", entityId := "m1", findingId := "f1", type := "REFRESH_METADATA",
    status := "active", confidence := "high", capabilityId := none, evidence := .null }

theorem nodup_incomplete : ([incomplete].map fun r => r.id).Nodup := List.nodup_singleton _

/-- An approved plan that is executed, and a cancellation that comes after its second step. -/
def executed : Config (Fin 2) (Store String) (Call String) where
  store := movie ⟨[incomplete], nodup_incomplete⟩ { unjustified .approved with
    pins := { desiredState := none, recommendation := some (recommendationFingerprint plain incomplete),
              verification := none } }
  call i := if i.val = 0 then .execute "p1" else .cancel "p1"

/-- The second step is started lawfully. -/
theorem executed_lawful : ∃ c c', Run (act plain) Orderly executed c ∧
    step (act plain) c 0 {} = some c' ∧ Lawful c 0 c' := by
  obtain ⟨c, hrun, hend⟩ := run_of_exec_any (act plain) Orderly executed
    [(0, {}), (0, {}), (0, {}), (0, {}), (0, {}), (0, {}), (0, {}), (0, {}), (1, {})]
    (fun c => decide (Orderly c 0) && (step (act plain) c 0 {}).isSome) (by decide +kernel)
  rw [Bool.and_eq_true, decide_eq_true_eq, Option.isSome_iff_exists] at hend
  obtain ⟨horderly, c', hstep⟩ := hend
  exact ⟨c, c', hrun, hstep, orderly_lawful (by decide) hrun horderly hstep⟩

end UltraTorrent.Remediation.StatusPaths
