import Mathlib.Data.Fintype.EquivFin
import UltraTorrent.Remediation.ApprovedWork

/-! A recommendation is never left without a plan that goes somewhere, as long as no plan is
created blocked, no executor is blocked, none dies with a plan it has claimed, and no plan expires
before it is approved. -/
namespace UltraTorrent.Remediation.LivePlans

open Library Library.Interleaving Library.EcmaScript PlanContract PlanBuilder Plans StatusPaths ApprovedWork

variable {H : Type} {store store' : Store H} {write : Write H} {call call' : Call H} {planId : String}
  {row : PlanRow H}

/-! ### Smooth runs -/

theorem steps_of_rowUpdate {row' : PlanRow H} (h : RowUpdate call planId row row')
    (hfree : claimed call ≠ some planId) : row'.steps = row.steps := by
  cases h with
  | stepped _ _ hclaimed => exact absurd hclaimed hfree
  | swapped =>
    unfold Plans.swapped
    split_ifs <;> rfl
  | _ => rfl

variable [DecidableEq H] {hashing : Hashing H} {answer : Answer}

/-- Nothing is created blocked, no block is written, and an executor that has claimed a plan
neither dies nor lets an error through. -/
def smooth (_ : Store H) (call : Call H) (answer : Answer) : Bool :=
  match call with
  | .writing (.create draft _ _ :: _) => draft.blockReason.isNone
  | .blocking _ _ => false
  | .loading _ | .checkingRecommendation _ _ | .running _ _ | .stepFailing _ _ | .failing _ =>
    !answer.dies && !answer.fails
  | .checkingItem _ | .invoking _ _ _ | .auditing _ _ _ | .completing _ _ _ => !answer.dies
  | _ => true

theorem act_next (hdies : answer.dies = false)
    (hnext : next hashing store answer call = some (write, call')) (happly : store.apply write = some store') :
    act hashing store call answer = some (store', call') := by
  rw [act, if_neg (by simp [hdies]), hnext, Option.map_some]
  dsimp only
  rw [happly]
  rfl

omit [DecidableEq H] in
/-- A step of a plan that is there can be written. -/
theorem apply_step (hrow : store.plans.find planId = some row) (ordinal : ℕ) (status : StepStatus) :
    ∃ s, store.apply (.step planId ordinal status) = some s :=
  ⟨_, Option.map_eq_some_iff.2 ⟨row, hrow, rfl⟩⟩

omit [DecidableEq H] in
theorem not_executing_after {sources : List PlanStatus} {target : PlanStatus}
    {blockReason : Option BlockReason} (hmem : .executing ∈ sources) (htarget : target ≠ .executing)
    (h : store.apply (.swap planId sources target blockReason none) = some store') :
    store'.planStatus planId ≠ some .executing := by
  rw [planStatus_apply h, written]
  cases hstatus : store.planStatus planId with
  | none => simp
  | some s =>
    by_cases hs : s ∈ sources
    · simp [hs, htarget]
    · simp only [Option.any_some, List.contains_eq_mem, hs, decide_false, Bool.false_eq_true, and_false,
        if_false, Option.none_or, ne_eq, Option.some.injEq]
      rintro rfl
      exact hs hmem

/-- An executor stays with its plan until it has taken it out of `executing`. -/
theorem smooth_claimed (hsmooth : smooth store call answer = true)
    (h : act hashing store call answer = some (store', call')) (hclaimed : claimed call = some planId)
    (hrow : store.plans.find planId = some row)
    (hexecuting : store'.planStatus planId = some .executing) : claimed call' = some planId := by
  have hnext : ∀ {write : Write H} {k : Call H} {s : Store H}, answer.dies = false →
      next hashing store answer call = some (write, k) → store.apply write = some s →
      (claimed k = some planId ∨ s.planStatus planId ≠ some .executing) → claimed call' = some planId := by
    intro write k s hdies hnext happly hk
    cases (act_next hdies hnext happly).symm.trans h
    exact hk.resolve_right fun hne => hne hexecuting
  cases call with
  | loading id =>
    cases hclaimed
    simp only [smooth, Bool.and_eq_true, Bool.not_eq_true'] at hsmooth
    refine hnext hsmooth.1 (by rw [next, hsmooth.2, if_neg Bool.false_ne_true, hrow]) rfl (.inl ?_)
    exact congrArg some (Table.find_eq_some.1 hrow).2
  | checkingItem plan =>
    simp only [smooth, Bool.not_eq_true'] at hsmooth
    refine hnext hsmooth rfl rfl (.inl ?_)
    rcases recheckItem_cases store plan answer with ⟨_, hcall⟩ | ⟨_, hcall⟩ <;> rw [hcall] <;>
      exact hclaimed
  | checkingRecommendation plan id =>
    simp only [smooth, Bool.and_eq_true, Bool.not_eq_true'] at hsmooth
    refine hnext hsmooth.1 (by rw [next, hsmooth.2, if_neg Bool.false_ne_true]) rfl (.inl ?_)
    rcases recheckRecommendation_cases hashing store plan id with ⟨_, hcall⟩ | hcall <;> rw [hcall] <;>
      exact hclaimed
  | running plan steps =>
    cases hclaimed
    simp only [smooth, Bool.and_eq_true, Bool.not_eq_true'] at hsmooth
    cases steps with
    | nil =>
      refine hnext hsmooth.1 (by rw [next, hsmooth.2, if_neg Bool.false_ne_true]) rfl (.inr ?_)
      exact not_executing_after (by simp) (by simp) rfl
    | cons step rest =>
      obtain ⟨s, hs⟩ := apply_step hrow step.ordinal .running
      exact hnext hsmooth.1 (by rw [next, hsmooth.2, if_neg Bool.false_ne_true]) hs (.inl rfl)
  | invoking plan step rest =>
    cases hclaimed
    simp only [smooth, Bool.not_eq_true'] at hsmooth
    by_cases hkind : step.kind ≠ "refresh_metadata" ∨ step.itemId.isNone
    · exact hnext hsmooth (by rw [next, if_pos hkind]) rfl (.inl rfl)
    · cases hfails : answer.fails with
      | true => exact hnext hsmooth (by rw [next, if_neg hkind, hfails, if_pos rfl]) rfl (.inl rfl)
      | false =>
        exact hnext hsmooth (by rw [next, if_neg hkind, hfails, if_neg Bool.false_ne_true]) rfl
          (.inl rfl)
  | auditing plan step rest =>
    simp only [smooth, Bool.not_eq_true'] at hsmooth
    refine hnext hsmooth rfl rfl (.inl ?_)
    split_ifs <;> exact hclaimed
  | completing plan step rest =>
    cases hclaimed
    simp only [smooth, Bool.not_eq_true'] at hsmooth
    cases hfails : answer.fails with
    | true => exact hnext hsmooth (by rw [next, hfails, if_pos rfl]) rfl (.inl rfl)
    | false =>
      obtain ⟨s, hs⟩ := apply_step hrow step.ordinal .succeeded
      exact hnext hsmooth (by rw [next, hfails, if_neg Bool.false_ne_true]) hs (.inl rfl)
  | stepFailing plan step =>
    cases hclaimed
    simp only [smooth, Bool.and_eq_true, Bool.not_eq_true'] at hsmooth
    obtain ⟨s, hs⟩ := apply_step hrow step.ordinal .failed
    exact hnext hsmooth.1 (by rw [next, hsmooth.2, if_neg Bool.false_ne_true]) hs (.inl rfl)
  | failing id =>
    cases hclaimed
    simp only [smooth, Bool.and_eq_true, Bool.not_eq_true'] at hsmooth
    refine hnext hsmooth.1 (by rw [next, hsmooth.2, if_neg Bool.false_ne_true]) rfl (.inr ?_)
    exact not_executing_after (by simp) (by simp) rfl
  | blocking => cases hsmooth
  | _ => cases hclaimed

/-- An executor that takes a plan to `executing` has claimed it. -/
theorem claim_act (h : act hashing store (.execute planId) answer = some (store', call'))
    (happroved : store.planStatus planId = some .approved)
    (hexecuting : store'.planStatus planId = some .executing) : claimed call' = some planId := by
  rcases act_cases h with ⟨rfl, -⟩ | ⟨write, hnext, happly⟩
  · cases happroved.symm.trans hexecuting
  · simp only [next, if_pos happroved] at hnext
    split_ifs at hnext <;> cases hnext
    · cases happly
      cases happroved.symm.trans hexecuting
    · rfl

/-! ### What a reconciliation is about to write -/

def pending : Call H → List (Amendment H)
  | .writing amendments => amendments
  | _ => []

theorem next_pending (hnext : next hashing store answer call = some (write, call')) :
    pending call' = [] ∨ (∃ amendment, pending call = amendment :: pending call') ∨
      ∃ task recommendations plans facts, call =
        .reading task (some recommendations) (some plans) (some facts) ∧
          pending call' = amendments hashing task recommendations plans facts := by
  cases call with
  | done => cases hnext
  | world changes =>
    cases changes <;> cases hnext
    exact .inl rfl
  | reading task recommendations plans facts =>
    rcases recommendations with _ | recommendations <;> rcases plans with _ | plans <;>
      rcases facts with _ | facts <;> simp only [next] at hnext <;> repeat' split at hnext
    all_goals
      cases hnext <;> first | exact .inl rfl | exact .inr (.inr ⟨_, _, _, _, rfl, rfl⟩)
  | writing amendments =>
    cases amendments <;> simp only [next] at hnext <;> (try split_ifs at hnext) <;> cases hnext
    · exact .inl rfl
    · exact .inl rfl
    · exact .inr (.inl ⟨_, rfl⟩)
  | running plan steps =>
    cases steps <;> simp only [next] at hnext <;> split_ifs at hnext <;> cases hnext <;> exact .inl rfl
  | checkingItem plan =>
    cases hnext
    rcases recheckItem_cases store plan answer with ⟨_, hcall⟩ | ⟨_, hcall⟩ <;> rw [hcall] <;>
      exact .inl rfl
  | checkingRecommendation plan id =>
    simp only [next] at hnext
    split_ifs at hnext <;> cases hnext
    · exact .inl rfl
    · rcases recheckRecommendation_cases hashing store plan id with ⟨_, hcall⟩ | hcall <;> rw [hcall] <;>
        exact .inl rfl
  | proving plan steps =>
    cases steps <;> simp only [next] at hnext <;> repeat' split at hnext
    all_goals
      cases hnext
      exact .inl rfl
  | reconcile | approve | counting | approving | cancel | cancelling | execute | loading | invoking |
      auditing | completing | stepFailing | blocking | failing | verify | refuting =>
    simp only [next] at hnext
    repeat' split at hnext
    all_goals
      cases hnext
      exact .inl rfl

theorem create_mem_amendments {task : Task} {recommendations : List Recommendation}
    {plans : List (PlanRow H)} {facts : Facts} {draft : PlanDraft} {desiredState : Option H}
    {recommendation : H}
    (h : .create draft desiredState recommendation ∈ amendments hashing task recommendations plans facts) :
    ∃ r ∈ recommendations, buildPlan r task.desired facts task.now = some draft := by
  rcases List.mem_append.1 h with hamend | hsupersede
  · obtain ⟨r, hr, hmem⟩ := List.mem_flatMap.1 hamend
    refine ⟨r, hr, ?_⟩
    unfold amend at hmem
    split at hmem
    · cases hmem
    · rename_i draft' hdraft
      dsimp only at hmem
      split at hmem
      · cases List.mem_singleton.1 hmem
        exact hdraft
      · split_ifs at hmem <;> simp at hmem
  · simp [supersessions] at hsupersede

/-- A plan about to be created has a step to run, unless it is blocked. -/
def Drafted (call : Call H) : Prop :=
  ∀ draft desiredState recommendation, .create draft desiredState recommendation ∈ pending call →
    draft.blockReason = none → ∃ step ∈ draft.steps, step.status = .pending

theorem Drafted.act (hdrafted : Drafted call)
    (h : act hashing store call answer = some (store', call')) : Drafted call' := by
  intro draft desiredState recommendation hmem hfree
  rcases act_cases h with ⟨-, rfl⟩ | ⟨write, hnext, -⟩
  · cases hmem
  · rcases next_pending hnext with hnone | ⟨amendment, hrest⟩ | ⟨task, recommendations, plans, facts, -, hall⟩
    · rw [hnone] at hmem
      cases hmem
    · exact hdrafted draft desiredState recommendation (by rw [hrest]; exact List.mem_cons_of_mem _ hmem)
        hfree
    · rw [hall] at hmem
      obtain ⟨r, -, hbuilt⟩ := create_mem_amendments hmem
      exact buildPlan_steps hbuilt hfree

/-! ### What a smooth run keeps -/

variable {ι : Type*}

/-- No plan is blocked, one that has not been claimed has a step to run, and one that is executing
has an executor. -/
structure Live (c : Config ι (Store H) (Call H)) : Prop where
  unblocked : ∀ planId, c.store.planStatus planId ≠ some .blocked
  stepped : ∀ planId row, c.store.plans.find planId = some row → rank row.status < rank .executing →
    ∃ step ∈ row.steps, step.status = .pending
  carried : ∀ planId, c.store.planStatus planId = some .executing → ∃ j, claimed (c.call j) = some planId
  claims : ∀ j, Claims c.store (c.call j)
  drafted : ∀ j, Drafted (c.call j)

omit [DecidableEq H] in
theorem find_of_planStatus {s : PlanStatus} (h : store.planStatus planId = some s) :
    ∃ row, store.plans.find planId = some row ∧ row.status = s := Option.map_eq_some_iff.1 h

omit [DecidableEq H] in
theorem planStatus_of_find (h : store.plans.find planId = some row) :
    store.planStatus planId = some row.status := by
  rw [Store.planStatus, h, Option.map_some]

theorem Live.unblocked_act {c : Config ι (Store H) (Call H)} {i : ι} (hlive : Live c)
    (hsmooth : smooth c.store (c.call i) answer = true)
    (h : act hashing c.store (c.call i) answer = some (store', call')) (planId : String) :
    store'.planStatus planId ≠ some .blocked := by
  intro hblocked
  cases act_statusStep h planId with
  | kept hkept => exact hlive.unblocked planId (hkept.symm.trans hblocked)
  | created _ _ _ _ _ _ h | superseded _ _ _ h => cases h.symm.trans hblocked
  | swapped hswap _ h =>
    cases h.symm.trans hblocked
    generalize c.call i = k at hswap hsmooth
    cases hswap
    cases hsmooth

theorem Live.stepped_act {c : Config ι (Store H) (Call H)} {i : ι} (hlive : Live c)
    (hsmooth : smooth c.store (c.call i) answer = true)
    (h : act hashing c.store (c.call i) answer = some (store', call')) {row' : PlanRow H}
    (hrow' : store'.plans.find planId = some row') (hrank : rank row'.status < rank .executing) :
    ∃ step ∈ row'.steps, step.status = .pending := by
  cases hrow : c.store.plans.find planId with
  | none =>
    obtain ⟨draft, desiredState, recommendation, rest, hcall, rfl⟩ := act_new h hrow hrow'
    rw [hcall] at hsmooth
    refine hlive.drafted i draft desiredState recommendation ?_ (Option.isNone_iff_eq_none.1 hsmooth)
    rw [hcall]
    exact List.mem_cons_self
  | some row =>
    obtain ⟨t, ht, hle⟩ := (act_statusStep h planId).rank_le (planStatus_of_find hrow)
    rw [planStatus_of_find hrow'] at ht
    cases ht
    have hfree : claimed (c.call i) ≠ some planId := by
      intro hclaimed
      obtain ⟨s, hs, hclaimedRank⟩ := hlive.claims i planId hclaimed
      cases (planStatus_of_find hrow).symm.trans hs
      omega
    obtain ⟨row'', hrow'', hupdate⟩ := act_rowUpdate h hrow
    cases hrow'.symm.trans hrow''
    rw [steps_of_rowUpdate hupdate hfree]
    exact hlive.stepped planId row hrow (by omega)

variable [DecidableEq ι]

theorem Live.act {c : Config ι (Store H) (Call H)} {i : ι} (hlive : Live c)
    (hsmooth : smooth c.store (c.call i) answer = true)
    (h : act hashing c.store (c.call i) answer = some (store', call')) :
    Live ⟨store', Function.update c.call i call'⟩ := by
  refine ⟨hlive.unblocked_act hsmooth h, fun _ _ => hlive.stepped_act hsmooth h,
    fun planId hexecuting => ?_, fun j => ?_, fun j => ?_⟩ <;> dsimp only at *
  · cases act_statusStep h planId with
    | kept hkept =>
      have hbefore := hkept.symm.trans hexecuting
      obtain ⟨j, hj⟩ := hlive.carried planId hbefore
      obtain ⟨row, hrow, -⟩ := find_of_planStatus hbefore
      by_cases hji : j = i
      · refine ⟨i, ?_⟩
        rw [Function.update_self]
        exact smooth_claimed hsmooth h (hji ▸ hj) hrow hexecuting
      · refine ⟨j, ?_⟩
        rw [Function.update_of_ne hji]
        exact hj
    | created _ _ _ _ _ _ h | superseded _ _ _ h => cases h.symm.trans hexecuting
    | swapped hswap hs h' =>
      cases h'.symm.trans hexecuting
      refine ⟨i, ?_⟩
      rw [Function.update_self]
      generalize c.call i = k at hswap h
      cases hswap with
      | claim => exact claim_act h hs hexecuting
  · by_cases hj : j = i
    · rw [hj, Function.update_self]
      exact (hlive.claims i).own h
    · rw [Function.update_of_ne hj]
      exact (hlive.claims j).other h
  · by_cases hj : j = i
    · rw [hj, Function.update_self]
      exact (hlive.drafted i).act h
    · rw [Function.update_of_ne hj]
      exact hlive.drafted j

theorem live_run {start c : Config ι (Store H) (Call H)} (hentry : ∀ i, isEntry (start.call i) = true)
    (hempty : start.store.plans.rows = [])
    (h : Run (guarded smooth (act hashing)) (fun _ _ => True) start c) : Live c := by
  have hnone : ∀ planId, start.store.plans.find planId = none := by
    intro planId
    rw [Table.find, hempty, List.find?_nil]
  refine h.invariant ⟨fun planId => ?_, fun planId row hrow => ?_, fun planId hexecuting => ?_,
    fun j planId hj => ?_, fun j draft d r hmem => ?_⟩ ?_
  · rw [Store.planStatus, hnone]
    simp
  · cases (hnone planId).symm.trans hrow
  · rw [Store.planStatus, hnone] at hexecuting
    cases hexecuting
  · cases (claimed_of_isEntry (hentry j)).symm.trans hj
  · have hj := hentry j
    cases hcall : start.call j <;> rw [hcall] at hj hmem <;> first | cases hmem; done | cases hj
  · intro c i answer store' call' hlive _ hact
    obtain ⟨hsmooth, hact⟩ := guarded_eq_some.1 hact
    exact hlive.act hsmooth hact

/-! ### A further reconciliation -/

section Further

variable (recommendationId : String) (now : Instant) (running : String → Prop)

/-- A plan that serves a recommendation, once nothing blocks it. -/
structure Promising (p : PlanRow H) : Prop where
  recommendation : p.recommendationId = some recommendationId
  live : p.status.isTerminal = false ∧ p.status ≠ .blocked
  stepped : rank p.status < rank .executing → ∃ step ∈ p.steps, step.status = .pending
  fresh : rank p.status < rank .approved → isPlanExpired p.expiresAt now = false
  running : p.status = .executing → running p.id

def Unblocked (p : PlanRow H) : Prop := rank p.status < rank .approved → p.blockReason = none

def target : Amendment H → Option String
  | .refresh planId _ _ _ _ | .setBlock planId _ | .supersede planId => some planId
  | .create _ _ _ => none

/-- An amendment that leaves its plan with nothing to block it. -/
def clears : Amendment H → Bool
  | .refresh _ draft _ _ _ => draft.blockReason.isNone
  | .setBlock _ blockReason => blockReason.isNone
  | .create _ _ _ | .supersede _ => false

/-- A plan that serves the recommendation is there, or about to be written. -/
inductive OnTheWay (store : Store H) (amendments : List (Amendment H)) : Prop
  | there (planId : String) (row : PlanRow H) (hrow : store.plans.find planId = some row)
      (hpromising : Promising recommendationId now running row)
      (hclears : ∀ a ∈ amendments, target a = some planId → clears a = true)
      (hunblocked : Unblocked row ∨ ∃ a ∈ amendments, target a = some planId)
  | coming (draft : PlanDraft) (desiredState : Option H) (recommendation : H)
      (hmem : .create draft desiredState recommendation ∈ amendments)
      (hrecommendation : draft.recommendationId = recommendationId)
      (hfree : draft.blockReason = none) (hsteps : ∃ step ∈ draft.steps, step.status = .pending)
      (hfresh : isPlanExpired (some draft.expiresAt) now = false)
      (htargets : ∀ a ∈ amendments, ∀ planId, target a = some planId →
        (store.plans.find planId).isSome)

end Further

variable {recommendationId : String} {now : Instant} {running : String → Prop}

omit [DecidableEq H] in
theorem Promising.refreshed {draft : PlanDraft} {desiredState : Option H} {recommendation : H}
    {clears : Bool} (h : Promising recommendationId now running row) :
    Promising recommendationId now running (refreshed draft desiredState recommendation clears row) :=
  ⟨h.recommendation, h.live, h.stepped, h.fresh, h.running⟩

omit [DecidableEq H] in
theorem Promising.reblocked {blockReason : Option BlockReason}
    (h : Promising recommendationId now running row) :
    Promising recommendationId now running { row with blockReason } :=
  ⟨h.recommendation, h.live, h.stepped, h.fresh, h.running⟩

omit [DecidableEq H] in
theorem promising_newRow {draft : PlanDraft} {desiredState : Option H} {recommendation : H}
    (hrecommendation : draft.recommendationId = recommendationId)
    (hsteps : ∃ step ∈ draft.steps, step.status = .pending)
    (hfresh : isPlanExpired (some draft.expiresAt) now = false) :
    Promising recommendationId now running (newRow planId draft desiredState recommendation) where
  recommendation := congrArg some hrecommendation
  live := ⟨rfl, by simp [newRow]⟩
  stepped _ := hsteps
  fresh _ := hfresh
  running h := by cases h

omit [DecidableEq H] in
theorem OnTheWay.mono {running' : String → Prop} {amendments : List (Amendment H)}
    (h : OnTheWay recommendationId now running store amendments)
    (himp : ∀ planId, running planId → running' planId) :
    OnTheWay recommendationId now running' store amendments := by
  cases h with
  | there planId row hrow hpromising hclears hunblocked =>
    obtain ⟨hrecommendation, hlive, hstepped, hfresh, hrunning⟩ := hpromising
    exact .there planId row hrow
      ⟨hrecommendation, hlive, hstepped, hfresh, fun h => himp _ (hrunning h)⟩ hclears hunblocked
  | coming draft desiredState recommendation hmem hrecommendation hfree hsteps hfresh htargets =>
    exact .coming draft desiredState recommendation hmem hrecommendation hfree hsteps hfresh htargets

omit [DecidableEq H] in
theorem find_updatePlan {id : String} {f : PlanRow H → PlanRow H} {hf : ∀ p, (f p).id = p.id}
    (hrow : store.plans.find planId = some row) (h : store.updatePlan id f hf = some store') :
    store'.plans.find planId = some (if planId = id then f row else row) := by
  obtain ⟨_, _, rfl⟩ := Option.map_eq_some_iff.1 h
  exact find_updateAt hf hrow

omit [DecidableEq H] in
/-- An amendment of another plan leaves this one alone. -/
theorem find_of_target_ne {amendment : Amendment H} {newId : String}
    (hrow : store.plans.find planId = some row)
    (h : store.apply (.amend newId amendment) = some store') (hother : target amendment ≠ some planId) :
    store'.plans.find planId = some row := by
  cases amendment with
  | create draft desiredState recommendation =>
    rw [Store.apply] at h
    split_ifs at h
    obtain ⟨plans, hplans, rfl⟩ := Option.map_eq_some_iff.1 h
    exact Table.find_of_insert hplans hrow
  | refresh id | setBlock id | supersede id =>
    have hid : planId ≠ id := fun hid => hother (congrArg some hid.symm)
    rw [find_updatePlan hrow h, if_neg hid]

omit [DecidableEq H] in
theorem Promising.amend {amendment : Amendment H} {newId : String}
    (hpromising : Promising recommendationId now running row)
    (hrow : store.plans.find planId = some row)
    (h : store.apply (.amend newId amendment) = some store') (htarget : target amendment = some planId)
    (hclears : clears amendment = true) :
    ∃ row', store'.plans.find planId = some row' ∧ Promising recommendationId now running row' ∧
      Unblocked row' := by
  cases amendment with
  | create | supersede => cases hclears
  | refresh id draft desiredState recommendation clearsApproval =>
    cases htarget
    refine ⟨Plans.refreshed draft desiredState recommendation clearsApproval row, ?_,
      hpromising.refreshed, fun _ => Option.isNone_iff_eq_none.1 hclears⟩
    rw [find_updatePlan hrow h, if_pos rfl]
  | setBlock id blockReason =>
    cases htarget
    refine ⟨{ row with blockReason }, ?_, hpromising.reblocked,
      fun _ => Option.isNone_iff_eq_none.1 hclears⟩
    rw [find_updatePlan hrow h, if_pos rfl]

omit [DecidableEq H] in
theorem OnTheWay.step {amendment : Amendment H} {rest : List (Amendment H)} {newId : String}
    (h : OnTheWay recommendationId now running store (amendment :: rest))
    (happly : store.apply (.amend newId amendment) = some store') :
    OnTheWay recommendationId now running store' rest := by
  cases h with
  | there planId row hrow hpromising hclears hunblocked =>
    have hrest : ∀ a ∈ rest, target a = some planId → clears a = true :=
      fun a ha => hclears a (List.mem_cons_of_mem _ ha)
    by_cases htarget : target amendment = some planId
    · obtain ⟨row', hrow', hpromising', hunblocked'⟩ :=
        hpromising.amend hrow happly htarget (hclears _ List.mem_cons_self htarget)
      exact .there planId row' hrow' hpromising' hrest (.inl hunblocked')
    · refine .there planId row (find_of_target_ne hrow happly htarget) hpromising hrest ?_
      refine hunblocked.imp_right ?_
      rintro ⟨a, ha, hatarget⟩
      rcases List.mem_cons.1 ha with rfl | ha
      · exact absurd hatarget htarget
      · exact ⟨a, ha, hatarget⟩
  | coming draft desiredState recommendation hmem hrecommendation hfree hsteps hfresh htargets =>
    rcases List.mem_cons.1 hmem with rfl | hmem
    · rw [Store.apply] at happly
      split_ifs at happly
      obtain ⟨plans, hplans, rfl⟩ := Option.map_eq_some_iff.1 happly
      have hnone := Table.find_eq_none_of_insert hplans (List.mem_singleton_self _)
      refine .there newId _ (Table.find_of_insert_new hplans (List.mem_singleton_self _))
        (promising_newRow hrecommendation hsteps hfresh) (fun a ha htarget => ?_) (.inl fun _ => hfree)
      have hsome := htargets a (List.mem_cons_of_mem _ ha) newId htarget
      rw [show newId = (newRow newId draft desiredState recommendation).id from rfl, hnone] at hsome
      cases hsome
    · refine .coming draft desiredState recommendation hmem hrecommendation hfree hsteps hfresh ?_
      intro a ha planId htarget
      obtain ⟨row, hrow⟩ := Option.isSome_iff_exists.1
        (htargets a (List.mem_cons_of_mem _ ha) planId htarget)
      obtain ⟨row', hrow', -⟩ := rowUpdate_amend rest hrow happly
      rw [hrow']
      rfl

omit [DecidableEq H] in
theorem mem_of_byRecommendation {plans : List (PlanRow H)} {p : PlanRow H}
    (h : byRecommendation plans recommendationId = some p) :
    p ∈ plans ∧ p.recommendationId.getD "" = recommendationId := by
  obtain ⟨q, hq, heq⟩ := List.mem_map.1 (mem_of_mapGet h)
  cases heq
  exact ⟨hq, rfl⟩

section Amendments

variable {task : Task} {plans : List (PlanRow H)} {facts : Facts} {r : Recommendation}
  {draft : PlanDraft} {amendment : Amendment H}

theorem target_amend (h : amendment ∈ amend hashing task plans facts r)
    (htarget : target amendment = some planId) :
    ∃ draft p, buildPlan r task.desired facts task.now = some draft ∧
      byRecommendation plans r.id = some p ∧ p.id = planId ∧
      clears amendment = draft.blockReason.isNone := by
  unfold amend at h
  split at h
  · cases h
  · rename_i draft hdraft
    dsimp only at h
    split at h
    · cases List.mem_singleton.1 h
      cases htarget
    · rename_i p hp
      split_ifs at h
      · cases h
      · cases List.mem_singleton.1 h
        exact ⟨draft, p, hdraft, hp, Option.some.inj htarget, rfl⟩
      · cases List.mem_singleton.1 h
        exact ⟨draft, p, hdraft, hp, Option.some.inj htarget, rfl⟩
      · cases h

variable (hashing) in
theorem amend_unblocks (hbuilt : buildPlan r task.desired facts task.now = some draft)
    (hfree : draft.blockReason = none) {p : PlanRow H} (hp : byRecommendation plans r.id = some p) :
    Unblocked p ∨ ∃ a ∈ amend hashing task plans facts r, target a = some p.id := by
  simp only [amend, hbuilt, hp]
  split_ifs with hflight hdrift hblock
  · refine .inl fun hrank => ?_
    have hmem := List.contains_iff_mem.1 hflight
    cases hs : p.status <;> rw [hs] at hmem hrank <;> first | cases hrank; done | simp [inFlight, rank] at *
  · exact .inr ⟨_, List.mem_singleton_self _, rfl⟩
  · exact .inr ⟨_, List.mem_singleton_self _, rfl⟩
  · exact .inl fun _ => (not_not.1 hblock).trans hfree

omit [DecidableEq H] in
theorem target_supersessions {stillJustified : List String}
    (h : amendment ∈ supersessions plans stillJustified) :
    ∃ p ∈ plans, amendment = .supersede p.id ∧ p.recommendationId.getD "" ∉ stillJustified := by
  obtain ⟨p, hp, rfl⟩ := List.mem_map.1 h
  obtain ⟨hmem, hcond⟩ := List.mem_filter.1 hp
  refine ⟨p, hmem, rfl, fun hjustified => ?_⟩
  rw [decide_eq_true_eq] at hcond
  exact hcond.1 (List.contains_iff_mem.2 hjustified)

end Amendments

/-- What is about to be changed is on file. -/
theorem target_isSome {task : Task} {recommendations : List Recommendation} {facts : Facts}
    {amendment : Amendment H}
    (h : amendment ∈ amendments hashing task recommendations (findPlans store task) facts)
    (htarget : target amendment = some planId) : (store.plans.find planId).isSome = true := by
  have hfound : ∀ p ∈ findPlans store task, (store.plans.find p.id).isSome = true := by
    intro p hp
    rw [Table.find_key (List.mem_filter.1 hp).1]
    rfl
  rcases List.mem_append.1 h with h | h
  · obtain ⟨r, -, h⟩ := List.mem_flatMap.1 h
    obtain ⟨-, p, -, hp, rfl, -⟩ := target_amend h htarget
    exact hfound p (mem_of_byRecommendation hp).1
  · obtain ⟨p, hp, rfl, -⟩ := target_supersessions h
    cases htarget
    exact hfound p hp

omit [DecidableEq ι] in
variable (hashing) in
theorem Live.onTheWay {c : Config ι (Store H) (Call H)} (hlive : Live c) {task : Task} {facts : Facts}
    {r : Recommendation} {draft : PlanDraft} (hr : r ∈ findRecommendations c.store task)
    (hid : r.id ≠ "") (hbuilt : buildPlan r task.desired facts task.now = some draft)
    (hfree : draft.blockReason = none)
    (hfresh : ∀ p ∈ c.store.plans.rows, p.recommendationId = some r.id →
      rank p.status < rank .approved → isPlanExpired p.expiresAt task.now = false) :
    OnTheWay r.id task.now (fun planId => ∃ j, claimed (c.call j) = some planId) c.store
      (amendments hashing task (findRecommendations c.store task) (findPlans c.store task) facts) := by
  have hamend : ∀ a ∈ amend hashing task (findPlans c.store task) facts r,
      a ∈ amendments hashing task (findRecommendations c.store task) (findPlans c.store task) facts :=
    fun a ha => List.mem_append_left _ (List.mem_flatMap.2 ⟨r, hr, ha⟩)
  cases hp : byRecommendation (findPlans c.store task) r.id with
  | none =>
    obtain ⟨hrecommendation, hexpires⟩ := buildPlan_eq hbuilt
    refine .coming draft (desiredFingerprint hashing task) (recommendationFingerprint hashing r)
      (hamend _ ?_) hrecommendation hfree (buildPlan_steps hbuilt hfree) ?_ fun a ha planId htarget => ?_
    · simp only [amend, hbuilt, hp, List.mem_singleton]
    · rw [hexpires]
      exact isPlanExpired_resolve _ _
    · exact target_isSome ha htarget
  | some p =>
    obtain ⟨hmem, hkey⟩ := mem_of_byRecommendation hp
    have hrecommendation : p.recommendationId = some r.id := by
      cases h : p.recommendationId with
      | none => exact absurd (by rw [← hkey, h]; rfl) hid
      | some id => rw [← hkey, h]; rfl
    obtain ⟨hrow, hcond⟩ := List.mem_filter.1 hmem
    rw [decide_eq_true_eq] at hcond
    have hfind := Table.find_key hrow
    refine .there p.id p hfind ⟨hrecommendation, ⟨by simpa using hcond.2.2, fun h => ?_⟩,
      hlive.stepped p.id p hfind, hfresh p hrow hrecommendation, fun h => ?_⟩ (fun a ha htarget => ?_) ?_
    · exact hlive.unblocked p.id ((planStatus_of_find hfind).trans (congrArg some h))
    · exact hlive.carried p.id ((planStatus_of_find hfind).trans (congrArg some h))
    · rcases List.mem_append.1 ha with ha | ha
      · obtain ⟨r', hr', ha⟩ := List.mem_flatMap.1 ha
        obtain ⟨draft', p', hbuilt', hp', hpid, hclears⟩ := target_amend ha htarget
        obtain ⟨hmem', hkey'⟩ := mem_of_byRecommendation hp'
        cases Table.eq_of_key (List.mem_filter.1 hmem').1 hrow hpid
        cases Table.eq_of_key (List.mem_filter.1 hr').1 (List.mem_filter.1 hr).1 (hkey'.symm.trans hkey)
        cases hbuilt.symm.trans hbuilt'
        rw [hclears, hfree]
        rfl
      · obtain ⟨p', hmem', rfl, hnot⟩ := target_supersessions ha
        cases Table.eq_of_key (List.mem_filter.1 hmem').1 hrow (Option.some.inj htarget)
        rw [hkey] at hnot
        refine absurd (List.mem_map_of_mem (List.mem_filter.2 ⟨hr, ?_⟩)) hnot
        rw [hbuilt]
        rfl
    · refine (amend_unblocks hashing hbuilt hfree hp).imp_right ?_
      rintro ⟨a, ha, htarget⟩
      exact ⟨a, hamend a ha, htarget⟩

/-! ### A reconciliation gets through -/

/-- The recommendation an amendment creates a plan for. -/
def created : Amendment H → Option String
  | .create draft _ _ => some draft.recommendationId
  | .refresh _ _ _ _ _ | .setBlock _ _ | .supersede _ => none

/-- The plans of an entity's recommendations are plans of the entity. -/
def AtHome (store : Store H) (task : Task) : Prop :=
  ∀ p ∈ store.plans.rows, ∀ r ∈ findRecommendations store task, p.recommendationId = some r.id →
    p.entityType = task.entityType ∧ p.entityId = task.entityId

/-- The database refuses none of the amendments. -/
structure Feasible (store : Store H) (amendments : List (Amendment H)) : Prop where
  targets : ∀ a ∈ amendments, ∀ planId, target a = some planId → (store.plans.find planId).isSome
  creates : ∀ id ∈ amendments.filterMap created, store.hasLive id = false
  nodup : (amendments.filterMap created).Nodup

theorem created_amend (hashing : Hashing H) (task : Task) (plans : List (PlanRow H)) (facts : Facts)
    (r : Recommendation) :
    (amend hashing task plans facts r).filterMap created = [] ∨
      (amend hashing task plans facts r).filterMap created = [r.id] ∧ byRecommendation plans r.id = none := by
  unfold amend
  cases hbuilt : buildPlan r task.desired facts task.now with
  | none => exact .inl rfl
  | some draft =>
    obtain ⟨hrecommendation, -⟩ := buildPlan_eq hbuilt
    dsimp only
    cases hp : byRecommendation plans r.id with
    | none => exact .inr ⟨congrArg (fun id => [id]) hrecommendation, rfl⟩
    | some p =>
      left
      dsimp only
      split_ifs <;> rfl

theorem feasible_amendments (hashing : Hashing H) {task : Task} (facts : Facts) (hhome : AtHome store task) :
    Feasible store (amendments hashing task (findRecommendations store task) (findPlans store task) facts) := by
  have hsuperseded : ∀ (plans : List (PlanRow H)) (justified : List String),
      (supersessions plans justified).filterMap created = [] := by
    intro plans justified
    rw [supersessions, List.filterMap_map]
    exact List.filterMap_eq_nil_iff.2 fun _ _ => rfl
  refine ⟨fun a ha planId htarget => target_isSome ha htarget, fun id hid => ?_, ?_⟩
  · rw [amendments, List.filterMap_append, hsuperseded, List.append_nil, List.filterMap_flatMap,
      List.mem_flatMap] at hid
    obtain ⟨r, hr, hid⟩ := hid
    rcases created_amend hashing task (findPlans store task) facts r with hnone | ⟨hone, hmissing⟩
    · rw [hnone] at hid
      cases hid
    · rw [hone, List.mem_singleton] at hid
      subst hid
      by_contra hlive
      obtain ⟨p, hp, hcond⟩ := List.any_eq_true.1 (Bool.eq_true_of_not_eq_false hlive)
      rw [decide_eq_true_eq] at hcond
      obtain ⟨htype, hentity⟩ := hhome p hp r hr hcond.1
      have hfound : p ∈ findPlans store task :=
        List.mem_filter.2 ⟨hp, decide_eq_true ⟨htype, hentity, hcond.2⟩⟩
      have hkey : (r.id, p) ∈ (findPlans store task).map fun p => (p.recommendationId.getD "", p) :=
        List.mem_map.2 ⟨p, hfound, by rw [hcond.1, Option.getD_some]⟩
      have hsome := isSome_mapGet hkey
      rw [byRecommendation] at hmissing
      rw [hmissing] at hsome
      cases hsome
  · rw [amendments, List.filterMap_append, hsuperseded, List.append_nil, List.filterMap_flatMap]
    have hids : ((findRecommendations store task).map (·.id)).Nodup :=
      store.recommendations.nodup.sublist (List.filter_sublist.map _)
    refine hids.sublist ?_
    induction findRecommendations store task with
    | nil => exact .slnil
    | cons r rest ih =>
      rw [List.flatMap_cons, List.map_cons]
      rcases created_amend hashing task (findPlans store task) facts r with hnone | ⟨hone, -⟩
      · rw [hnone]
        exact ih.cons r.id
      · rw [hone]
        exact ih.cons_cons r.id

omit [DecidableEq H] in
/-- An amendment makes no other recommendation's plan live. -/
theorem hasLive_amend {amendment : Amendment H} {newId id : String}
    (happly : store.apply (.amend newId amendment) = some store') (hother : created amendment ≠ some id)
    (h : store.hasLive id = false) : store'.hasLive id = false := by
  have hnone : ∀ p ∈ store.plans.rows, ¬ (p.recommendationId = some id ∧ ¬ p.status.isTerminal) := by
    simpa [Store.hasLive] using h
  have hnone' : ∀ p ∈ store'.plans.rows, ¬ (p.recommendationId = some id ∧ ¬ p.status.isTerminal) := by
    intro p hp
    cases amendment with
    | create draft desiredState recommendation =>
      rw [Store.apply] at happly
      split_ifs at happly
      obtain ⟨plans, hplans, rfl⟩ := Option.map_eq_some_iff.1 happly
      rw [Table.rows_of_insert hplans] at hp
      rcases List.mem_append.1 hp with hp | hp
      · exact hnone p hp
      · rw [List.mem_singleton.1 hp]
        exact fun hlive => hother hlive.1
    | refresh planId | setBlock planId | supersede planId =>
      obtain ⟨_, _, rfl⟩ := Option.map_eq_some_iff.1 happly
      rcases Table.mem_updateAt (by intro _; rfl) hp with hp | ⟨q, hq, -, rfl⟩
      · exact hnone p hp
      · first
          | exact hnone q hq
          | exact fun hlive => hlive.2 rfl
  simpa [Store.hasLive] using hnone'

omit [DecidableEq H] in
theorem Feasible.step {amendment : Amendment H} {rest : List (Amendment H)}
    (h : Feasible store (amendment :: rest)) :
    ∃ newId store', store.apply (.amend newId amendment) = some store' ∧ Feasible store' rest := by
  have happlied : ∃ newId store', store.apply (.amend newId amendment) = some store' := by
    cases amendment with
    | create draft desiredState recommendation =>
      obtain ⟨newId, hnew⟩ := Infinite.exists_notMem_finset (store.plans.rows.map (·.id)).toFinset
      have hinsert : (store.plans.insert [newRow newId draft desiredState recommendation]).isSome := by
        refine Table.insert_singleton_isSome ?_
        rintro p hp rfl
        exact hnew (List.mem_toFinset.2 (List.mem_map_of_mem hp))
      obtain ⟨plans, hplans⟩ := Option.isSome_iff_exists.1 hinsert
      refine ⟨newId, { store with plans }, ?_⟩
      rw [Store.apply, h.creates draft.recommendationId List.mem_cons_self, hplans]
      rfl
    | refresh planId | setBlock planId | supersede planId =>
      obtain ⟨row, hrow⟩ := Option.isSome_iff_exists.1 (h.targets _ List.mem_cons_self planId rfl)
      refine ⟨"", Option.isSome_iff_exists.1 ?_⟩
      simp [Store.apply, Store.updatePlan, hrow]
  obtain ⟨newId, store', happly⟩ := happlied
  have hcreates : ∀ id ∈ rest.filterMap created, created amendment ≠ some id ∧ store.hasLive id = false := by
    intro id hid
    cases hcreated : created amendment with
    | none =>
      have hcreates := h.creates
      rw [List.filterMap_cons_none hcreated] at hcreates
      exact ⟨(Option.some_ne_none id).symm, hcreates id hid⟩
    | some first =>
      have hnodup := h.nodup
      have hcreates := h.creates
      rw [List.filterMap_cons_some hcreated] at hnodup hcreates
      refine ⟨?_, hcreates id (List.mem_cons_of_mem _ hid)⟩
      rintro ⟨⟩
      exact (List.nodup_cons.1 hnodup).1 hid
  refine ⟨newId, store', happly, fun a ha planId htarget => ?_, fun id hid => ?_, ?_⟩
  · obtain ⟨row, hrow⟩ := Option.isSome_iff_exists.1 (h.targets a (List.mem_cons_of_mem _ ha) planId htarget)
    obtain ⟨row', hrow', -⟩ := rowUpdate_amend rest hrow happly
    rw [hrow']
    rfl
  · exact hasLive_amend happly (hcreates id hid).1 (hcreates id hid).2
  · exact h.nodup.sublist ((List.sublist_cons_self amendment rest).filterMap created)

/-- Nothing goes wrong. -/
def calm (_ : Store H) (_ : Call H) (answer : Answer) : Bool := !answer.dies && !answer.fails

omit [DecidableEq H] in
theorem Promising.verdict_eq_none (h : Promising recommendationId now running row)
    (hunblocked : Unblocked row) (hrow : store.plans.find row.id = some row)
    (hrank : rank row.status < rank .approved) {user : User} (hadmin : "SUPER_ADMIN" ∈ user.roles) :
    verdict store row user now = none := by
  have hstatus : ¬ (row.status ≠ .proposed ∧ row.status ≠ .awaitingApproval) := by
    rintro ⟨hproposed, hawaiting⟩
    cases hs : row.status <;> simp_all [rank]
  obtain ⟨step, hstep, hpending⟩ := h.stepped (hrank.trans (by decide))
  have hcount : row.steps.countP (fun s => s.status = .pending ∨ s.status = .failed) ≠ 0 :=
    (List.countP_pos_iff.2 ⟨step, hstep, by simp [hpending]⟩).ne'
  simp only [verdict, checkPlanApproval, hrow, Option.map_some, Option.getD_some, if_neg hstatus,
    h.fresh hrank, hunblocked hrank, Bool.false_eq_true, if_false, hcount, List.contains_iff_mem.2 hadmin,
    not_true, false_and]

/-- A recommendation has a plan that a super-admin may approve, or that is on its way. -/
def Served (c : Config ι (Store H) (Call H)) (recommendationId : String) (now : Instant) : Prop :=
  ∃ p ∈ c.store.plans.rows, p.recommendationId = some recommendationId ∧
    ((∀ user : User, "SUPER_ADMIN" ∈ user.roles → verdict c.store p user now = none) ∨
      p.status ∈ [PlanStatus.approved, .waiting, .verifying] ∨
      p.status = .executing ∧ ∃ j, claimed (c.call j) = some p.id)

omit [DecidableEq H] [DecidableEq ι] in
/-- Once everything is written the plan is there. -/
theorem OnTheWay.served {c : Config ι (Store H) (Call H)}
    (h : OnTheWay recommendationId now (fun planId => ∃ j, claimed (c.call j) = some planId) c.store []) :
    Served c recommendationId now := by
  cases h with
  | coming _ _ _ hmem => cases hmem
  | there planId row hrow hpromising _ hunblocked =>
    obtain ⟨hmem, rfl⟩ := Table.find_eq_some.1 hrow
    have hunblocked : Unblocked row := by
      rcases hunblocked with h | ⟨_, hnone, -⟩
      · exact h
      · cases hnone
    refine ⟨row, hmem, hpromising.recommendation, ?_⟩
    obtain ⟨hlive, hblocked⟩ := hpromising.live
    cases hs : row.status with
    | proposed | awaitingApproval =>
      exact .inl fun user hadmin => hpromising.verdict_eq_none hunblocked hrow (by rw [hs]; decide) hadmin
    | approved | waiting | verifying => exact .inr (.inl (by decide))
    | executing => exact .inr (.inr ⟨rfl, hpromising.running hs⟩)
    | blocked => exact absurd hs hblocked
    | succeeded | failed | cancelled | superseded =>
      rw [hs] at hlive
      cases hlive

/-- How far a reconciliation has come that finds nothing to block a recommendation. -/
inductive Stage (before : Store H) (task : Task) (onTheWay : Store H → List (Amendment H) → Prop) :
    Store H → Call H → Prop
  | reconcile : Stage before task onTheWay before (.reconcile task)
  | reading (recommendations : Option (List Recommendation)) (plans : Option (List (PlanRow H)))
      (facts : Option Facts) (hrecommendations : ∀ x ∈ recommendations, x = findRecommendations before task)
      (hplans : ∀ x ∈ plans, x = findPlans before task)
      (hfacts : ∀ x ∈ facts, x = entityFacts before task false) :
      Stage before task onTheWay before (.reading task recommendations plans facts)
  | writing (store : Store H) (amendments : List (Amendment H)) (h : onTheWay store amendments) :
      Stage before task onTheWay store (.writing amendments)
  | done (store : Store H) : Stage before task onTheWay store .done

omit [DecidableEq H] in
theorem Stage.of_writing {before : Store H} {task : Task} {onTheWay : Store H → List (Amendment H) → Prop}
    {amendments : List (Amendment H)} (h : Stage before task onTheWay store (.writing amendments)) :
    onTheWay store amendments := by
  cases h
  assumption

theorem Stage.act {before : Store H} {task : Task} {onTheWay : Store H → List (Amendment H) → Prop}
    (hstart : onTheWay before (amendments hashing task (findRecommendations before task)
      (findPlans before task) (entityFacts before task false)))
    (hstep : ∀ {store store' amendment rest newId}, onTheWay store (amendment :: rest) →
      store.apply (.amend newId amendment) = some store' → onTheWay store' rest)
    (hcalm : calm store call answer = true) (h : act hashing store call answer = some (store', call'))
    (hstage : Stage before task onTheWay store call) : Stage before task onTheWay store' call' := by
  simp only [calm, Bool.and_eq_true, Bool.not_eq_true'] at hcalm
  rcases act_cases h with ⟨rfl, rfl⟩ | ⟨write, hnext, happly⟩
  · exact .done store'
  · cases hstage with
    | reconcile =>
      cases hnext
      cases happly
      exact .reading none none none (by simp) (by simp) (by simp)
    | reading recommendations plans facts hrecommendations hplans hfacts =>
      rcases recommendations with _ | recommendations <;> rcases plans with _ | plans <;>
        rcases facts with _ | facts <;> simp only [next, hcalm.2] at hnext <;> repeat' split at hnext
      -- One of the three is read, or all of them have been.
      all_goals cases hnext <;> cases happly <;> first
        | exact .done _
        | refine .reading _ _ _ ?_ ?_ ?_ <;> first | assumption | (rintro _ ⟨⟩; rfl)
        | skip
      rw [hrecommendations _ rfl, hplans _ rfl, hfacts _ rfl]
      exact .writing _ _ hstart
    | writing store amendments honTheWay =>
      cases amendments with
      | nil =>
        cases hnext
        exact .done store'
      | cons amendment rest =>
        rw [next, hcalm.2, if_neg Bool.false_ne_true] at hnext
        cases hnext
        exact .writing store' rest (hstep honTheWay happly)
    | done => cases hnext

/-- A call that works alone takes a step that nothing gets in the way of. -/
theorem calm_tail {c d : Config ι (Store H) (Call H)} {i : ι} (answer : Answer)
    (h : Run (guarded calm (Plans.act hashing)) (fun _ j => j = i) c d) (hcalm : calm d.store (d.call i) answer = true)
    (hnext : next hashing d.store answer (d.call i) = some (write, call'))
    (happly : d.store.apply write = some store') :
    Run (guarded calm (Plans.act hashing)) (fun _ j => j = i) c ⟨store', Function.update d.call i call'⟩ := by
  have hlives : answer.dies = false := by
    simp only [calm, Bool.and_eq_true, Bool.not_eq_true'] at hcalm
    exact hcalm.1
  have hact : Plans.act hashing d.store (d.call i) answer = some (store', call') := by
    rw [Plans.act, hlives, if_neg Bool.false_ne_true, hnext, Option.map_some]
    dsimp only
    rw [happly]
    rfl
  exact .tail i answer h rfl (step_eq_some.2 ⟨store', call', guarded_eq_some.2 ⟨hcalm, hact⟩, rfl⟩)

theorem Feasible.run {c d : Config ι (Store H) (Call H)} {i : ι} {amendments : List (Amendment H)}
    (h : Feasible d.store amendments)
    (hrun : Run (guarded calm (Plans.act hashing)) (fun _ j => j = i) c d) (hcall : d.call i = .writing amendments) :
    ∃ c', Run (guarded calm (Plans.act hashing)) (fun _ j => j = i) c c' ∧ c'.call i = .writing [] := by
  induction amendments generalizing d with
  | nil => exact ⟨d, hrun, hcall⟩
  | cons amendment rest ih =>
    obtain ⟨newId, store', happly, hrest⟩ := h.step
    refine ih hrest (calm_tail { planId := newId } hrun rfl ?_ happly) (Function.update_self _ _ _)
    rw [hcall]
    rfl

theorem exists_written {c : Config ι (Store H) (Call H)} {i : ι} {task : Task}
    (hcall : c.call i = .reconcile task) (hhome : AtHome c.store task) :
    ∃ c', Run (guarded calm (Plans.act hashing)) (fun _ j => j = i) c c' ∧ c'.call i = .writing [] := by
  have hstart : Run (guarded calm (Plans.act hashing)) (fun _ j => j = i) c c := .refl
  have hread := calm_tail {} hstart rfl (by rw [hcall]; rfl) rfl
  have hrecommendations := calm_tail {} hread rfl (by dsimp only; rw [Function.update_self]; rfl) rfl
  have hplans := calm_tail { read := .plans } hrecommendations rfl (by dsimp only; rw [Function.update_self]; rfl) rfl
  have hfacts := calm_tail { read := .facts } hplans rfl (by dsimp only; rw [Function.update_self]; rfl) rfl
  have hwriting := calm_tail {} hfacts rfl (by dsimp only; rw [Function.update_self]; rfl) rfl
  refine Feasible.run ?_ hwriting (Function.update_self _ _ _)
  exact feasible_amendments hashing _ hhome

/-- A smooth run never leaves a recommendation stranded: a reconciliation that then finds nothing
to block it, and is through with it, has left it served; and it gets through. -/
theorem smooth_served {start c : Config ι (Store H) (Call H)} {i : ι} {task : Task}
    {r : Recommendation} {draft : PlanDraft} (hentry : ∀ j, isEntry (start.call j) = true)
    (hempty : start.store.plans.rows = [])
    (hsmooth : Run (guarded smooth (act hashing)) (fun _ _ => True) start c)
    (hcall : c.call i = .reconcile task) (hr : r ∈ findRecommendations c.store task) (hid : r.id ≠ "")
    (hbuilt : buildPlan r task.desired (entityFacts c.store task false) task.now = some draft)
    (hfree : draft.blockReason = none)
    (hfresh : ∀ p ∈ c.store.plans.rows, p.recommendationId = some r.id →
      rank p.status < rank .approved → isPlanExpired p.expiresAt task.now = false) :
    (∀ c', Run (guarded calm (act hashing)) (fun _ j => j = i) c c' → c'.call i = .writing [] →
      Served c' r.id task.now) ∧
    (AtHome c.store task →
      ∃ c', Run (guarded calm (act hashing)) (fun _ j => j = i) c c' ∧ c'.call i = .writing []) := by
  refine ⟨fun c' hreconcile hwritten => ?_, exists_written hcall⟩
  have hstart := (live_run hentry hempty hsmooth).onTheWay hashing hr hid hbuilt hfree hfresh
  obtain ⟨hstage, hothers⟩ := hreconcile.invariant
    (P := fun d => Stage c.store task (OnTheWay r.id task.now fun planId =>
      ∃ j, claimed (c.call j) = some planId) d.store (d.call i) ∧ ∀ j, j ≠ i → d.call j = c.call j)
    ⟨hcall ▸ .reconcile, fun _ _ => rfl⟩ (by
      rintro d j answer store' call' ⟨hstage, hothers⟩ rfl hact
      obtain ⟨hcalm, hact⟩ := guarded_eq_some.1 hact
      refine ⟨?_, fun k hk => ?_⟩ <;> dsimp only
      · rw [Function.update_self]
        exact hstage.act hstart OnTheWay.step hcalm hact
      · rw [Function.update_of_ne hk]
        exact hothers k hk)
  rw [hwritten] at hstage
  refine (hstage.of_writing.mono ?_).served
  rintro planId ⟨j, hj⟩
  refine ⟨j, ?_⟩
  rw [hothers j]
  · exact hj
  · rintro rfl
    rw [hcall] at hj
    cases hj

def again (now : Instant) : Task := { entityType := "movie", entityId := "m1", now, desired := none }

/-- A movie with a recommendation and no plan yet, and three calls. -/
def unplanned (locked : Bool) (first second : Call String) : Config (Fin 3) (Store String) (Call String) where
  store :=
    { recommendations := ⟨[incomplete], nodup_incomplete⟩
      locked := fun id => if id = "m1" then some locked else none
      providers := fun _ => none
      plans := ⟨[], List.nodup_nil⟩ }
  call i := if i.val = 0 then first else if i.val = 1 then second else .reconcile (again 1)

/-- What a reconciliation of the movie would make of the recommendation. -/
def unblocks (c : Config (Fin 3) (Store String) (Call String)) (r : Recommendation) : Bool :=
  (buildPlan r none (entityFacts c.store (again 1) false) 1).any fun draft => draft.blockReason.isNone

def isWritten : Call H → Bool
  | .writing [] => true
  | _ => false

omit [DecidableEq H] in
theorem eq_of_isWritten (h : isWritten call = true) : call = .writing [] := by
  unfold isWritten at h
  split at h
  · rfl
  · cases h

/-- The schedule of the third call, a reconciliation with nothing to get in its way. -/
def furtherReconcile : List (Fin 3 × Answer) :=
  [{}, {}, { read := .plans }, { read := .facts }, {}].map fun answer => (Fin.last 2, answer)

/-- A sweep looks for the plans to execute and those to verify. -/
def swept (p : PlanRow H) : Bool := p.status = .approved || p.status = .verifying

def superAdmin : User := { id := "u1", permissions := [], roles := ["SUPER_ADMIN"] }

/-- A plan that was created while the item was locked has no steps, and a reconciliation that finds
the item unlocked leaves it so. In between there is nothing a sweep would take up. -/
theorem locked_stranded : ∃ c c', Run (act plain) (fun _ _ => True)
      (unplanned true (.reconcile (again 0)) (.world [.lock "m1" (some false)])) c ∧
    (∀ p ∈ c.store.plans.rows, swept p = false) ∧ c.call 2 = .reconcile (again 1) ∧
    (∃ r ∈ findRecommendations c.store (again 1), r.id = "r1" ∧ unblocks c r = true) ∧
    Run (guarded calm (act plain)) (fun _ j => j = 2) c c' ∧ c'.call 2 = .writing [] ∧
    ¬ Served c' "r1" 1 := by
  obtain ⟨c, hrun, hend⟩ := run_of_exec_any (act plain) (fun _ j => j ≠ 2)
    (unplanned true (.reconcile (again 0)) (.world [.lock "m1" (some false)]))
    [(0, {}), (0, {}), (0, { read := .plans }), (0, { read := .facts }), (0, {}), (0, { planId := "p1" }),
      (1, {})]
    (fun c => (c.store.plans.rows.all fun p => !swept p) &&
      ((findRecommendations c.store (again 1)).any fun r => decide (r.id = "r1") && unblocks c r) &&
      (exec (guarded calm (act plain)) (fun _ j => j = 2) c (furtherReconcile ++ [(2, ({} : Answer))])).any fun c' =>
        isWritten (c'.call 2) && c'.store.plans.rows.all fun p => decide (p.status = .proposed) &&
          (verdict c'.store p superAdmin 1).isSome)
    (by decide +kernel)
  simp only [Bool.and_eq_true, List.any_eq_true, List.all_eq_true, decide_eq_true_eq, Bool.not_eq_true'] at hend
  obtain ⟨⟨hswept, r, hr, hcheck⟩, hfurther⟩ := hend
  obtain ⟨c', hrun', hend⟩ := run_of_exec_any _ _ c _ _ hfurther
  rw [Bool.and_eq_true, List.all_eq_true] at hend
  refine ⟨c, c', hrun.mono fun _ _ _ => trivial, hswept, hrun.call_eq fun _ h => h rfl, ⟨r, hr, hcheck⟩, hrun',
    eq_of_isWritten hend.1, ?_⟩
  rintro ⟨p, hp, -, hserved⟩
  have hstuck := hend.2 p hp
  rw [Bool.and_eq_true, decide_eq_true_eq] at hstuck
  rcases hserved with hverdict | hstatus | ⟨hstatus, -⟩
  · rw [hverdict superAdmin (by decide)] at hstuck
    cases hstuck.2
  · rw [hstuck.1] at hstatus
    revert hstatus
    decide
  · cases hstuck.1.symm.trans hstatus

/-- A plan that has been approved by the time its movie is reconciled again. -/
theorem approved_served : ∃ c c', Run (guarded smooth (act plain)) (fun _ _ => True)
      (unplanned false (.reconcile (again 0)) (.approve "p1" superAdmin)) c ∧
    c.store.planStatus "p1" = some .approved ∧
    Run (guarded calm (act plain)) (fun _ j => j = 2) c c' ∧ Served c' "r1" 1 := by
  obtain ⟨c, hrun, hend⟩ := run_of_exec_any (guarded smooth (act plain)) (fun _ j => j ≠ 2)
    (unplanned false (.reconcile (again 0)) (.approve "p1" superAdmin))
    [(0, {}), (0, {}), (0, { read := .plans }), (0, { read := .facts }), (0, {}), (0, { planId := "p1" }),
      (1, {}), (1, {}), (1, {})]
    (fun c => decide (c.store.planStatus "p1" = some .approved) &&
      (c.store.plans.rows.all fun p => decide (isPlanExpired p.expiresAt 1 = false) &&
        decide (p.entityType = "movie" ∧ p.entityId = "m1")) &&
      ((findRecommendations c.store (again 1)).any fun r => decide (r.id = "r1") && unblocks c r))
    (by decide +kernel)
  simp only [Bool.and_eq_true, List.any_eq_true, List.all_eq_true, decide_eq_true_eq] at hend
  obtain ⟨⟨happroved, hplans⟩, r, hr, hid, hunblocks⟩ := hend
  obtain ⟨draft, hbuilt, hfree⟩ := Option.any_eq_true _ _ |>.1 hunblocks
  have hnamed : r.id ≠ "" := by
    rw [hid]
    decide
  obtain ⟨hserved, hthrough⟩ := smooth_served (by decide) rfl (hrun.mono fun _ _ _ => trivial)
    (hrun.call_eq fun _ h => h rfl) hr hnamed hbuilt (Option.isNone_iff_eq_none.1 hfree)
    (fun p hp _ _ => (hplans p hp).1)
  obtain ⟨c', hrun', hwritten⟩ := hthrough fun p hp _ _ _ => (hplans p hp).2
  refine ⟨c, c', hrun.mono fun _ _ _ => trivial, happroved, hrun', ?_⟩
  rw [← hid]
  exact hserved c' hrun' hwritten

end UltraTorrent.Remediation.LivePlans
