import UltraTorrent.Remediation.StatusPaths

/-! What the executor carries out is what was approved, as long as no reconciliation refreshes a
plan after its approval, no approval is given to a plan that has been refreshed since it was read,
and the recommendation stays as it is while the steps are taken. -/
namespace UltraTorrent.Remediation.ApprovedWork

open Library Library.Interleaving PlanContract PlanBuilder Plans StatusPaths

variable {H : Type} {store store' : Store H} {write : Write H} {call call' : Call H} {planId : String}
  {row : PlanRow H}

/-! ### What happens to a plan -/

/-- What an action makes of the row of a plan. -/
inductive RowUpdate (call : Call H) (planId : String) (row : PlanRow H) : PlanRow H → Prop
  | kept : RowUpdate call planId row row
  | detached (recommendationId : String) : RowUpdate call planId row (detached recommendationId row)
  | stepped (ordinal : ℕ) (status : StepStatus) (h : claimed call = some planId) :
      RowUpdate call planId row (stepped ordinal status row)
  | refreshed (draft : PlanDraft) (desiredState : Option H) (recommendation : H) (clears : Bool)
      (rest : List (Amendment H))
      (hcall : call = .writing (.refresh planId draft desiredState recommendation clears :: rest)) :
      RowUpdate call planId row (refreshed draft desiredState recommendation clears row)
  | reblocked (blockReason : Option BlockReason) (rest : List (Amendment H))
      (hcall : call = .writing (.setBlock planId blockReason :: rest)) :
      RowUpdate call planId row { row with blockReason }
  | superseded (rest : List (Amendment H)) (hcall : call = .writing (.supersede planId :: rest)) :
      RowUpdate call planId row { row with status := .superseded }
  | swapped (sources : List PlanStatus) {target : PlanStatus} (blockReason : Option BlockReason)
      (htarget : target ≠ .approved) :
      RowUpdate call planId row (swapped sources target blockReason none row)
  | approved (plan : PlanRow H) (user : User) (hcall : call = .approving plan user)
      (hid : plan.id = planId) (hcan : canTransitionPlan plan.status .approved = true)
      (hstatus : row.status = plan.status) : RowUpdate call planId row
        { row with
          status := .approved
          approvedById := some user.id
          approvedFingerprint := plan.pins.recommendation }

/-- An update of one plan, of which the others know nothing. -/
theorem find_updateAt {plans : Table (PlanRow H) (·.id)} {id : String} {f : PlanRow H → PlanRow H}
    (hf : ∀ p, (f p).id = p.id) (hrow : plans.find planId = some row) :
    (plans.updateAt id f hf).find planId = some (if planId = id then f row else row) := by
  split_ifs with hid
  · rw [hid, Table.find_updateAt_self, ← hid, hrow, Option.map_some]
  · rw [Table.find_updateAt_of_ne _ hid, hrow]

theorem rowUpdate_updatePlan {id : String} {f : PlanRow H → PlanRow H} {hf : ∀ p, (f p).id = p.id}
    (hstep : planId = id → RowUpdate call planId row (f row))
    (hrow : store.plans.find planId = some row) (h : store.updatePlan id f hf = some store') :
    ∃ row', store'.plans.find planId = some row' ∧ RowUpdate call planId row row' := by
  obtain ⟨_, _, rfl⟩ := Option.map_eq_some_iff.1 h
  refine ⟨_, find_updateAt hf hrow, ?_⟩
  split_ifs with hid
  · exact hstep hid
  · exact .kept

theorem rowUpdate_swap {id : String} {sources : List PlanStatus} {target : PlanStatus}
    {blockReason : Option BlockReason} {approval : Option (String × Option H)}
    (hstep : planId = id → RowUpdate call planId row (swapped sources target blockReason approval row))
    (hrow : store.plans.find planId = some row)
    (h : store.apply (.swap id sources target blockReason approval) = some store') :
    ∃ row', store'.plans.find planId = some row' ∧ RowUpdate call planId row row' := by
  rw [← Option.some.inj h]
  refine ⟨_, find_updateAt (id_swapped sources target blockReason approval) hrow, ?_⟩
  split_ifs with hid
  · exact hstep hid
  · exact .kept

theorem rowUpdate_amend {amendment : Amendment H} (rest : List (Amendment H)) {newId : String}
    (hrow : store.plans.find planId = some row)
    (h : store.apply (.amend newId amendment) = some store') :
    ∃ row', store'.plans.find planId = some row' ∧
      RowUpdate (.writing (amendment :: rest)) planId row row' := by
  cases amendment with
  | create draft desiredState recommendation =>
    rw [Store.apply] at h
    split_ifs at h
    obtain ⟨plans, hplans, rfl⟩ := Option.map_eq_some_iff.1 h
    exact ⟨row, Table.find_of_insert hplans hrow, .kept⟩
  | refresh id draft desiredState recommendation clears =>
    refine rowUpdate_updatePlan (f := refreshed draft desiredState recommendation clears) ?_ hrow h
    rintro rfl
    exact .refreshed draft desiredState recommendation clears rest rfl
  | setBlock id blockReason =>
    refine rowUpdate_updatePlan (f := fun p => { p with blockReason }) ?_ hrow h
    rintro rfl
    exact .reblocked blockReason rest rfl
  | supersede id =>
    refine rowUpdate_updatePlan (f := fun p => { p with status := .superseded }) ?_ hrow h
    rintro rfl
    exact .superseded rest rfl

theorem writes_rowUpdate (hwrites : Writes call write) (hrow : store.plans.find planId = some row)
    (h : store.apply write = some store') :
    ∃ row', store'.plans.find planId = some row' ∧ RowUpdate call planId row row' := by
  cases hwrites with
  | nothing =>
    cases h
    exact ⟨row, hrow, .kept⟩
  | step call id ordinal status hclaimed =>
    refine rowUpdate_updatePlan (f := Plans.stepped ordinal status) ?_ hrow h
    rintro rfl
    exact .stepped ordinal status hclaimed
  | world change rest =>
    cases h
    cases change with
    | withdraw id =>
      refine ⟨Plans.detached id row, ?_, .detached id⟩
      have hfind : (store.change (.withdraw id)).plans.find planId =
          (store.plans.find planId).map (Plans.detached id) :=
        Table.find_update (f := Plans.detached id) (fun _ => rfl) planId
      rw [hfind, hrow, Option.map_some]
    | _ => exact ⟨row, hrow, .kept⟩
  | amend => exact rowUpdate_amend _ hrow h
  | approve plan user hcan =>
    refine rowUpdate_swap (fun hid => ?_) hrow h
    unfold Plans.swapped
    split_ifs with hsource
    · exact .approved plan user rfl hid.symm hcan
        (List.mem_singleton.1 (List.contains_iff_mem.1 hsource))
    · exact .kept
  | cancel | claim | finish | block | fail | succeed | refute =>
    exact rowUpdate_swap (fun _ => .swapped _ _ (by simp)) hrow h

/-- Approval, pin and status of a plan stay as they are, or it leaves `approved`. -/
structure Untouched (row row' : PlanRow H) : Prop where
  approval : row'.approvedFingerprint = row.approvedFingerprint
  pin : row'.pins.recommendation = row.pins.recommendation
  status : row'.status = row.status ∨ row'.status ≠ .approved

/-- What an action makes of the approval of a plan. -/
inductive RowStep (call : Call H) (planId : String) (row row' : PlanRow H) : Prop
  | untouched (h : Untouched row row')
  | refreshed (draft : PlanDraft) (desiredState : Option H) (recommendation : H) (clears : Bool)
      (rest : List (Amendment H))
      (hcall : call = .writing (.refresh planId draft desiredState recommendation clears :: rest))
      (hrow : row' = refreshed draft desiredState recommendation clears row)
  | approved (plan : PlanRow H) (user : User) (hcall : call = .approving plan user)
      (hid : plan.id = planId) (hcan : canTransitionPlan plan.status .approved = true)
      (hstatus : row.status = plan.status) (hpins : row'.pins = row.pins)
      (happroval : row'.approvedFingerprint = plan.pins.recommendation)

theorem RowUpdate.rowStep {row' : PlanRow H} (h : RowUpdate call planId row row') :
    RowStep call planId row row' := by
  cases h with
  | kept | detached | stepped | reblocked => exact .untouched ⟨rfl, rfl, .inl rfl⟩
  | superseded => exact .untouched ⟨rfl, rfl, .inr (by simp)⟩
  | refreshed draft desiredState recommendation clears rest hcall =>
    exact .refreshed draft desiredState recommendation clears rest hcall rfl
  | approved plan user hcall hid hcan hstatus =>
    exact .approved plan user hcall hid hcan hstatus rfl rfl
  | swapped sources blockReason htarget =>
    unfold Plans.swapped
    split_ifs
    · exact .untouched ⟨rfl, rfl, .inr htarget⟩
    · exact .untouched ⟨rfl, rfl, .inl rfl⟩

variable [DecidableEq H] {hashing : Hashing H} {answer : Answer}

theorem act_rowUpdate (h : act hashing store call answer = some (store', call'))
    (hrow : store.plans.find planId = some row) :
    ∃ row', store'.plans.find planId = some row' ∧ RowUpdate call planId row row' := by
  rcases act_cases h with ⟨rfl, -⟩ | ⟨write, hnext, happly⟩
  · exact ⟨row, hrow, .kept⟩
  · exact writes_rowUpdate (next_writes hnext) hrow happly

theorem act_rowStep (h : act hashing store call answer = some (store', call'))
    (hrow : store.plans.find planId = some row) :
    ∃ row', store'.plans.find planId = some row' ∧ RowStep call planId row row' := by
  obtain ⟨row', hrow', hupdate⟩ := act_rowUpdate h hrow
  exact ⟨row', hrow', hupdate.rowStep⟩

/-! ### What is known of a plan that is executed -/

def fingerprintOf (hashing : Hashing H) (store : Store H) (recommendationId : String) : Option H :=
  (store.recommendations.find recommendationId).map (recommendationFingerprint hashing)

/-- The fingerprint of the most recent approval, unless that has been invalidated since. -/
def approvedOf (store : Store H) (planId : String) : Option H :=
  (store.plans.find planId).bind (·.approvedFingerprint)

/-- The plan, as it was read, of an executor between its load and its rechecks. -/
def checks : Call H → Option (PlanRow H)
  | .checkingItem plan | .checkingRecommendation plan _ =>
    if todo plan.steps = [] then none else some plan
  | _ => none

/-- The plan, as it was read, of an executor past its rechecks that may yet invoke a step. -/
def rechecked : Call H → Option (PlanRow H)
  | .invoking plan _ _ => some plan
  | .running plan steps | .auditing plan _ steps | .completing plan _ steps =>
    if steps = [] then none else some plan
  | _ => none

/-- The plan an executor may yet invoke a step of. -/
def mayInvoke (call : Call H) : Option String :=
  match call with
  | .loading planId => some planId
  | call => ((checks call).or (rechecked call)).map (·.id)

/-- What an executor that may yet invoke a step holds against the tables. -/
structure Backed (hashing : Hashing H) (store : Store H) (call : Call H) : Prop where
  loading : ∀ planId, call = .loading planId → ∃ row f, store.plans.find planId = some row ∧
    row.approvedFingerprint = some f ∧ row.pins.recommendation = some f
  checks : ∀ plan, checks call = some plan →
    ∃ f, approvedOf store plan.id = some f ∧ plan.pins.recommendation = some f
  recommendation : ∀ plan id, call = .checkingRecommendation plan id → plan.recommendationId = some id
  rechecked : ∀ plan, rechecked call = some plan → ∃ f, approvedOf store plan.id = some f ∧
    plan.recommendationId.bind (fingerprintOf hashing store) = some f

/-- Every plan is pinned to a recommendation, and an approved one to what was approved. -/
structure Pinned (store : Store H) : Prop where
  taken : ∀ planId row, store.plans.find planId = some row → row.pins.recommendation.isSome
  signed : ∀ planId row, store.plans.find planId = some row → row.status = .approved →
    row.approvedFingerprint = row.pins.recommendation

omit [DecidableEq H] in
theorem claimed_of_mayInvoke (h : mayInvoke call = some planId) : claimed call = some planId := by
  cases call with
  | checkingItem | checkingRecommendation | running | auditing | completing =>
    simp only [mayInvoke, checks, rechecked] at h
    split_ifs at h
    · cases h
    · exact h
  | loading | invoking => exact h
  | _ => cases h

/-! ### New plans -/

omit [DecidableEq H] in
theorem writes_new {row' : PlanRow H} (hwrites : Writes call write)
    (hnone : store.plans.find planId = none) (hrow : store'.plans.find planId = some row')
    (h : store.apply write = some store') : ∃ draft desiredState recommendation rest,
      call = .writing (.create draft desiredState recommendation :: rest) ∧
        row' = newRow planId draft desiredState recommendation := by
  have hstatus : store.planStatus planId = none := by rw [Store.planStatus, hnone, Option.map_none]
  have hstatus' : store'.planStatus planId = some row'.status := by
    rw [Store.planStatus, hrow, Option.map_some]
  cases hwrites.statusStep h planId with
  | kept h => cases hstatus'.symm.trans (h.trans hstatus)
  | superseded _ _ hs | swapped _ hs => cases hstatus.symm.trans hs
  | created draft desiredState recommendation rest hcall =>
    refine ⟨draft, desiredState, recommendation, rest, hcall, ?_⟩
    subst hcall
    cases hwrites with
    | nothing =>
      cases h
      cases hnone.symm.trans hrow
    | step _ _ _ _ hclaimed => cases hclaimed
    | amend _ _ newId =>
      rw [Store.apply] at h
      split_ifs at h
      obtain ⟨plans, hplans, rfl⟩ := Option.map_eq_some_iff.1 h
      rcases List.mem_append.1 (Table.rows_of_insert hplans ▸ (Table.find_eq_some.1 hrow).1) with
        hold | hnew
      · have hfind := Table.find_key hold
        rw [(Table.find_eq_some.1 hrow).2, hnone] at hfind
        cases hfind
      · have hid := (Table.find_eq_some.1 hrow).2
        rw [List.mem_singleton.1 hnew] at hid ⊢
        subst hid
        rfl

omit [DecidableEq H] in
/-- Only the world changes recommendations. -/
theorem recommendations_of_writes (hwrites : Writes call write)
    (h : store.apply write = some store') :
    store'.recommendations = store.recommendations ∨
      ∃ change rest, call = .world (change :: rest) ∧ store' = store.change change := by
  cases hwrites with
  | world change rest =>
    cases h
    exact .inr ⟨change, rest, rfl, rfl⟩
  | nothing | approve | cancel | claim | finish | block | fail | succeed | refute =>
    cases h
    exact .inl rfl
  | step =>
    obtain ⟨_, _, rfl⟩ := Option.map_eq_some_iff.1 h
    exact .inl rfl
  | amend amendment =>
    cases amendment with
    | create =>
      rw [Store.apply] at h
      split_ifs at h
      obtain ⟨_, _, rfl⟩ := Option.map_eq_some_iff.1 h
      exact .inl rfl
    | refresh | setBlock | supersede =>
      obtain ⟨_, _, rfl⟩ := Option.map_eq_some_iff.1 h
      exact .inl rfl

theorem act_recommendations (h : act hashing store call answer = some (store', call')) :
    store'.recommendations = store.recommendations ∨
      ∃ change rest, call = .world (change :: rest) ∧ store' = store.change change := by
  rcases act_cases h with ⟨rfl, -⟩ | ⟨write, hnext, happly⟩
  · exact .inl rfl
  · exact recommendations_of_writes (next_writes hnext) happly

theorem act_new {row' : PlanRow H} (h : act hashing store call answer = some (store', call'))
    (hnone : store.plans.find planId = none) (hrow : store'.plans.find planId = some row') :
    ∃ draft desiredState recommendation rest,
      call = .writing (.create draft desiredState recommendation :: rest) ∧
        row' = newRow planId draft desiredState recommendation := by
  rcases act_cases h with ⟨rfl, -⟩ | ⟨write, hnext, happly⟩
  · cases hnone.symm.trans hrow
  · exact writes_new (next_writes hnext) hnone hrow happly

omit [DecidableEq H] in
theorem fingerprintOf_congr (h : store'.recommendations = store.recommendations) (id : String) :
    fingerprintOf hashing store' id = fingerprintOf hashing store id := by
  rw [fingerprintOf, h, fingerprintOf]

/-! ### Reviewed runs -/

variable {ι : Type*}

/-- The plan a call is about to refresh. -/
def refreshes : Call H → Option String
  | .writing (.refresh planId _ _ _ _ :: _) => some planId
  | _ => none

def approves : Call H → Option (PlanRow H)
  | .approving plan _ => some plan
  | _ => none

def changes : Call H → Option Change
  | .world (change :: _) => some change
  | _ => none

/-- A refresh comes neither to an approved plan nor to one of which a step may yet be invoked, an
approval finds the pin it has read, and the recommendation of an executor past its rechecks does
not change before its last step is invoked. -/
structure Reviewed (hashing : Hashing H) (c : Config ι (Store H) (Call H)) (i : ι) : Prop where
  refreshes : ∀ planId ∈ refreshes (c.call i), c.store.planStatus planId ≠ some .approved ∧
    ∀ j, mayInvoke (c.call j) ≠ some planId
  approves : ∀ plan ∈ approves (c.call i), ∀ row ∈ c.store.plans.find plan.id,
    row.status = plan.status → row.pins.recommendation = plan.pins.recommendation
  changes : ∀ change ∈ changes (c.call i), ∀ j, ∀ plan ∈ rechecked (c.call j),
    ∀ id ∈ plan.recommendationId,
      fingerprintOf hashing (c.store.change change) id = fingerprintOf hashing c.store id

instance [Fintype ι] (c : Config ι (Store H) (Call H)) (i : ι) : Decidable (Reviewed hashing c i) :=
  decidable_of_iff ((∀ planId ∈ refreshes (c.call i), c.store.planStatus planId ≠ some .approved ∧
      ∀ j, mayInvoke (c.call j) ≠ some planId) ∧
    (∀ plan ∈ approves (c.call i), ∀ row ∈ c.store.plans.find plan.id,
      row.status = plan.status → row.pins.recommendation = plan.pins.recommendation) ∧
    ∀ change ∈ changes (c.call i), ∀ j, ∀ plan ∈ rechecked (c.call j), ∀ id ∈ plan.recommendationId,
      fingerprintOf hashing (c.store.change change) id = fingerprintOf hashing c.store id)
    ⟨fun h => ⟨h.1, h.2.1, h.2.2⟩, fun h => ⟨h.1, h.2, h.3⟩⟩

theorem Pinned.step {c : Config ι (Store H) (Call H)} {i : ι} (hreviewed : Reviewed hashing c i)
    (hpinned : Pinned c.store) (h : act hashing c.store (c.call i) answer = some (store', call')) :
    Pinned store' := by
  suffices hrow : ∀ planId row', store'.plans.find planId = some row' →
      row'.pins.recommendation.isSome ∧
        (row'.status = .approved → row'.approvedFingerprint = row'.pins.recommendation) from
    ⟨fun planId row' h => (hrow planId row' h).1, fun planId row' h => (hrow planId row' h).2⟩
  intro planId row' hrow'
  cases hfind : c.store.plans.find planId with
  | none =>
    obtain ⟨draft, desiredState, recommendation, rest, -, rfl⟩ := act_new h hfind hrow'
    exact ⟨rfl, fun happroved => by cases happroved⟩
  | some row =>
    obtain ⟨row'', hrow'', hstep⟩ := act_rowStep h hfind
    cases hrow'.symm.trans hrow''
    have htaken := hpinned.taken planId row hfind
    cases hstep with
    | untouched hsame =>
      refine ⟨hsame.pin ▸ htaken, fun happroved => ?_⟩
      have hstatus := hsame.status.resolve_right fun hne => hne happroved
      rw [hsame.approval, hsame.pin]
      exact hpinned.signed planId row hfind (hstatus.symm.trans happroved)
    | refreshed draft desiredState recommendation clears rest hcall hrefreshed =>
      subst hrefreshed
      refine ⟨rfl, fun happroved => ?_⟩
      have hfree := (hreviewed.refreshes planId (by rw [hcall]; rfl)).1
      rw [Store.planStatus, hfind] at hfree
      exact absurd (congrArg some happroved) hfree
    | approved plan user hcall hid _ hstatus hpins happroval =>
      refine ⟨hpins ▸ htaken, fun _ => ?_⟩
      rw [happroval, hpins]
      exact (hreviewed.approves plan (by rw [hcall]; rfl) row (hid ▸ hfind) hstatus).symm

omit [DecidableEq H] in
theorem approvable_rank {s : PlanStatus} (h : canTransitionPlan s .approved = true) :
    rank s < rank .executing := by
  cases s <;> first | decide | cases h

/-- A plan of which a step may yet be invoked keeps its approval and its pin. -/
theorem approval_kept {c : Config ι (Store H) (Call H)} {i j : ι} (hreviewed : Reviewed hashing c i)
    (h : act hashing c.store (c.call i) answer = some (store', call'))
    (hclaims : Claims c.store (c.call j)) (hmay : mayInvoke (c.call j) = some planId)
    (hrow : c.store.plans.find planId = some row) :
    ∃ row', store'.plans.find planId = some row' ∧
      row'.approvedFingerprint = row.approvedFingerprint ∧
        row'.pins.recommendation = row.pins.recommendation := by
  obtain ⟨row', hrow', hstep⟩ := act_rowStep h hrow
  refine ⟨row', hrow', ?_⟩
  cases hstep with
  | untouched hsame => exact ⟨hsame.approval, hsame.pin⟩
  | refreshed _ _ _ _ _ hcall =>
    exact absurd hmay ((hreviewed.refreshes planId (by rw [hcall]; rfl)).2 j)
  | approved plan user _ _ hcan hstatus =>
    obtain ⟨s, hs, hrank⟩ := hclaims planId (claimed_of_mayInvoke hmay)
    rw [Store.planStatus, hrow, Option.map_some, hstatus] at hs
    rw [← Option.some.inj hs] at hrank
    exact absurd hrank (approvable_rank hcan).not_ge

omit [DecidableEq H] in
theorem mayInvoke_of_checks {plan : PlanRow H} (h : checks call = some plan) :
    mayInvoke call = some plan.id := by
  cases call with
  | checkingItem | checkingRecommendation =>
    rw [mayInvoke, h]
    · rfl
    · simp
  | _ => cases h

omit [DecidableEq H] in
theorem mayInvoke_of_rechecked {plan : PlanRow H} (h : rechecked call = some plan) :
    mayInvoke call = some plan.id := by
  cases call with
  | running | invoking | auditing | completing =>
    rw [mayInvoke, h]
    · rfl
    · simp
  | _ => cases h

omit [DecidableEq H] in
theorem approvedOf_eq_some {f : H} (h : approvedOf store planId = some f) :
    ∃ row, store.plans.find planId = some row ∧ row.approvedFingerprint = some f :=
  Option.bind_eq_some_iff.1 h

theorem Backed.other {c : Config ι (Store H) (Call H)} {i j : ι} (hreviewed : Reviewed hashing c i)
    (h : act hashing c.store (c.call i) answer = some (store', call'))
    (hclaims : Claims c.store (c.call j)) (hbacked : Backed hashing c.store (c.call j)) :
    Backed hashing store' (c.call j) := by
  have hkept : ∀ {planId f}, mayInvoke (c.call j) = some planId →
      approvedOf c.store planId = some f → approvedOf store' planId = some f := by
    intro planId f hmay happroved
    obtain ⟨row, hrow, hf⟩ := approvedOf_eq_some happroved
    obtain ⟨row', hrow', happroval, -⟩ := approval_kept hreviewed h hclaims hmay hrow
    rw [approvedOf, hrow', Option.bind_some, happroval, hf]
  refine ⟨fun planId hcall => ?_, fun plan hchecks => ?_, hbacked.recommendation, fun plan hre => ?_⟩
  · obtain ⟨row, f, hrow, hf, hpin⟩ := hbacked.loading planId hcall
    obtain ⟨row', hrow', happroval, hpin'⟩ :=
      approval_kept hreviewed h hclaims (by rw [hcall]; rfl) hrow
    exact ⟨row', f, hrow', happroval.trans hf, hpin'.trans hpin⟩
  · obtain ⟨f, happroved, hpin⟩ := hbacked.checks plan hchecks
    exact ⟨f, hkept (mayInvoke_of_checks hchecks) happroved, hpin⟩
  · obtain ⟨f, happroved, hcurrent⟩ := hbacked.rechecked plan hre
    refine ⟨f, hkept (mayInvoke_of_rechecked hre) happroved, ?_⟩
    obtain ⟨id, hid, hf⟩ := Option.bind_eq_some_iff.1 hcurrent
    rw [hid, Option.bind_some, ← hf]
    rcases act_recommendations h with hsame | ⟨change, rest, hcall, rfl⟩
    · exact fingerprintOf_congr hsame id
    · exact hreviewed.changes change (by rw [hcall]; rfl) j plan hre id hid

theorem own_kept (h : act hashing store call answer = some (store', call'))
    (hclaimed : claimed call = some planId) :
    (∀ id, approvedOf store' id = approvedOf store id) ∧ store'.recommendations = store.recommendations := by
  refine ⟨fun id => ?_, ?_⟩
  · cases hfind : store.plans.find id with
    | none =>
      cases hfind' : store'.plans.find id with
      | none => rw [approvedOf, approvedOf, hfind, hfind']
      | some row' =>
        obtain ⟨_, _, _, _, rfl, -⟩ := act_new h hfind hfind'
        cases hclaimed
    | some row =>
      obtain ⟨row', hrow', hstep⟩ := act_rowStep h hfind
      cases hstep with
      | untouched hsame => rw [approvedOf, approvedOf, hfind, hrow', Option.bind_some, hsame.approval]; rfl
      | refreshed _ _ _ _ _ hcall | approved _ _ hcall =>
        subst hcall
        cases hclaimed
  · rcases act_recommendations h with hsame | ⟨_, _, rfl, -⟩
    · exact hsame
    · cases hclaimed

/-- How an executor comes to where it is. -/
inductive Progress (hashing : Hashing H) (store : Store H) (call : Call H) : Call H → Prop
  | loading (planId : String) (hcall : call = .execute planId)
      (h : store.planStatus planId = some .approved) : Progress hashing store call (.loading planId)
  | checkingItem (planId : String) (plan : PlanRow H) (hcall : call = .loading planId)
      (h : store.plans.find planId = some plan) : Progress hashing store call (.checkingItem plan)
  | checkingRecommendation (plan : PlanRow H) (id : String) (hcall : call = .checkingItem plan)
      (h : plan.recommendationId = some id) :
      Progress hashing store call (.checkingRecommendation plan id)
  | rechecked (plan : PlanRow H) (id : String) (hcall : call = .checkingRecommendation plan id)
      (h : ∀ f, plan.pins.recommendation = some f → fingerprintOf hashing store id = some f) :
      Progress hashing store call (.running plan (todo plan.steps))
  | goesOn {call' : Call H} (hwas : ∀ plan, rechecked call' = some plan → rechecked call = some plan)
      (hchecks : checks call' = none) (hloading : ∀ id, call' ≠ .loading id)
      (hchecking : ∀ plan id, call' ≠ .checkingRecommendation plan id) :
      Progress hashing store call call'

omit [DecidableEq H] in
/-- A call that invokes nothing any more, or not yet. -/
theorem Progress.idle (h : claimed call' = none) : Progress hashing store call call' := by
  refine .goesOn ?_ ?_ ?_ ?_ <;> cases call' <;> first | cases h; done | simp [ApprovedWork.rechecked, checks]

omit [DecidableEq H] in
theorem Progress.stops (h : (∃ id, call' = .failing id) ∨ (∃ id reason, call' = .blocking id reason) ∨
    ∃ plan step, call' = .stepFailing plan step) : Progress hashing store call call' := by
  rcases h with ⟨_, rfl⟩ | ⟨_, _, rfl⟩ | ⟨_, _, rfl⟩ <;>
    exact .goesOn (by simp [ApprovedWork.rechecked]) rfl (by simp) (by simp)

omit [DecidableEq H] in
theorem progress_recheckItem (plan : PlanRow H) :
    Progress hashing store (.checkingItem plan) (recheckItem store plan answer) := by
  unfold recheckItem
  repeat' split
  all_goals first
    | exact .stops (.inr (.inl ⟨_, _, rfl⟩))
    | exact .checkingRecommendation plan _ rfl ‹_›

theorem progress_recheckRecommendation (plan : PlanRow H) (id : String) :
    Progress hashing store (.checkingRecommendation plan id)
      (recheckRecommendation hashing store plan id) := by
  unfold recheckRecommendation
  split
  · exact .stops (.inr (.inl ⟨_, _, rfl⟩))
  · rename_i r hr
    split_ifs with hactive hpin
    · exact .stops (.inr (.inl ⟨_, _, rfl⟩))
    · exact .stops (.inr (.inl ⟨_, _, rfl⟩))
    · refine .rechecked plan id rfl fun f hf => ?_
      rw [fingerprintOf, hr, Option.map_some, ← hf]
      rw [hf] at hpin ⊢
      simpa [eq_comm] using hpin

theorem next_progress (hnext : next hashing store answer call = some (write, call')) :
    Progress hashing store call call' := by
  cases call with
  | done => cases hnext
  | world changes =>
    cases changes <;> cases hnext
    exact .idle rfl
  | reading task recommendations plans facts =>
    obtain ⟨-, ⟨_, _, _, rfl⟩ | ⟨_, rfl⟩ | rfl⟩ := next_reading hnext <;> exact .idle rfl
  | writing amendments =>
    cases amendments <;> simp only [next] at hnext <;> (try split_ifs at hnext) <;> cases hnext <;>
      exact .idle rfl
  | execute id =>
    simp only [next] at hnext
    split_ifs at hnext with hfails happroved <;> cases hnext
    · exact .idle rfl
    · exact .loading id rfl happroved
    · exact .idle rfl
  | loading id =>
    simp only [next] at hnext
    split at hnext <;> cases hnext
    · exact .idle rfl
    · rename_i plan hfind
      split_ifs at hfind
      exact .checkingItem id plan rfl hfind
  | checkingItem plan =>
    cases hnext
    exact progress_recheckItem plan
  | checkingRecommendation plan id =>
    simp only [next] at hnext
    split_ifs at hnext <;> cases hnext
    · exact .idle rfl
    · exact progress_recheckRecommendation plan id
  | running plan steps =>
    cases steps <;> simp only [next] at hnext <;> split_ifs at hnext <;> cases hnext
    · exact .idle rfl
    · exact .idle rfl
    · exact .idle rfl
    · exact .goesOn (by simp [rechecked]) rfl (by simp) (by simp)
  | invoking plan step rest =>
    simp only [next] at hnext
    split_ifs at hnext <;> cases hnext
    · exact .stops (.inl ⟨_, rfl⟩)
    · exact .stops (.inr (.inr ⟨_, _, rfl⟩))
    · exact .goesOn (by simp [rechecked]) rfl (by simp) (by simp)
  | auditing plan step rest | completing plan step rest =>
    simp only [next] at hnext
    split_ifs at hnext <;> cases hnext
    · exact .stops (.inr (.inr ⟨_, _, rfl⟩))
    · exact .goesOn (by simp [rechecked]) rfl (by simp) (by simp)
  | stepFailing plan step =>
    simp only [next] at hnext
    split_ifs at hnext <;> cases hnext
    · exact .idle rfl
    · exact .stops (.inl ⟨_, rfl⟩)
  | proving plan steps =>
    cases steps <;> simp only [next] at hnext <;> repeat' split at hnext
    all_goals
      cases hnext
      exact .idle rfl
  | reconcile | approve | counting | approving | cancel | cancelling | blocking | failing | verify |
      refuting =>
    simp only [next] at hnext
    repeat' split at hnext
    all_goals
      cases hnext
      exact .idle rfl

omit [DecidableEq H] in
theorem Backed.of_unclaimed (h : claimed call = none) : Backed hashing store call := by
  refine ⟨fun id hcall => ?_, fun plan hchecks => ?_, fun plan id hcall => ?_, fun plan hre => ?_⟩
  · rw [hcall] at h
    cases h
  · cases h.symm.trans (claimed_of_mayInvoke (mayInvoke_of_checks hchecks))
  · rw [hcall] at h
    cases h
  · cases h.symm.trans (claimed_of_mayInvoke (mayInvoke_of_rechecked hre))

theorem Backed.own (h : act hashing store call answer = some (store', call')) (hpinned : Pinned store)
    (hbacked : Backed hashing store call) : Backed hashing store' call' := by
  rcases act_cases h with ⟨-, rfl⟩ | ⟨write, hnext, -⟩
  · exact .of_unclaimed rfl
  cases next_progress hnext with
  | loading planId hcall happroved =>
    refine ⟨fun id hid => ?_, by simp [ApprovedWork.checks], by simp, by simp [ApprovedWork.rechecked]⟩
    cases hid
    obtain ⟨row, hrow, hstatus⟩ := Option.map_eq_some_iff.1 happroved
    obtain ⟨f, hpin⟩ := Option.isSome_iff_exists.1 (hpinned.taken planId row hrow)
    obtain ⟨row', hrow', hstep⟩ := act_rowStep h hrow
    cases hstep with
    | untouched hsame =>
      exact ⟨row', f, hrow', hsame.approval.trans ((hpinned.signed planId row hrow hstatus).trans hpin),
        hsame.pin.trans hpin⟩
    | refreshed _ _ _ _ _ hcall' | approved _ _ hcall' => cases hcall.symm.trans hcall'
  | checkingItem id plan hcall hplan =>
    refine ⟨by simp, fun p hchecks => ?_, by simp, by simp [ApprovedWork.rechecked]⟩
    obtain ⟨row, f, hrow, hf, hpin⟩ := hbacked.loading id hcall
    cases hplan.symm.trans hrow
    simp only [ApprovedWork.checks, ite_eq_iff, reduceCtorEq, and_false, Option.some.injEq, false_or] at hchecks
    obtain ⟨-, rfl⟩ := hchecks
    refine ⟨f, ?_, hpin⟩
    rw [(own_kept h (by rw [hcall]; rfl)).1, (Table.find_eq_some.1 hplan).2, approvedOf, hplan,
      Option.bind_some, hf]
  | checkingRecommendation plan id hcall hid =>
    refine ⟨by simp, fun p hchecks => ?_, ?_, by simp [ApprovedWork.rechecked]⟩
    · obtain ⟨f, happroved, hpin⟩ := hbacked.checks p (by rw [hcall]; exact hchecks)
      rw [← (own_kept h (by rw [hcall]; rfl)).1] at happroved
      exact ⟨f, happroved, hpin⟩
    · rintro _ _ hsame
      cases hsame
      exact hid
  | rechecked plan id hcall hcurrent =>
    refine ⟨by simp, by simp [ApprovedWork.checks], by simp, fun p hre => ?_⟩
    obtain ⟨f, happroved, hpin⟩ := hbacked.checks p (by rw [hcall]; exact hre)
    simp only [ApprovedWork.rechecked, ite_eq_iff, reduceCtorEq, and_false, Option.some.injEq, false_or] at hre
    obtain ⟨-, rfl⟩ := hre
    obtain ⟨happrovals, hrecommendations⟩ := own_kept h (by rw [hcall]; rfl)
    refine ⟨f, (happrovals plan.id).trans happroved, ?_⟩
    rw [hbacked.recommendation plan id hcall, Option.bind_some, fingerprintOf_congr hrecommendations]
    exact hcurrent f hpin
  | goesOn hwas hchecks hloading hchecking =>
    refine ⟨fun id hid => absurd hid (hloading id), by simp [hchecks],
      fun plan id hid => absurd hid (hchecking plan id), fun plan hre => ?_⟩
    have hre := hwas plan hre
    obtain ⟨f, happroved, hcurrent⟩ := hbacked.rechecked plan hre
    obtain ⟨happrovals, hrecommendations⟩ :=
      own_kept h (claimed_of_mayInvoke (mayInvoke_of_rechecked hre))
    refine ⟨f, (happrovals plan.id).trans happroved, ?_⟩
    obtain ⟨id, hid, hf⟩ := Option.bind_eq_some_iff.1 hcurrent
    rw [hid, Option.bind_some, fingerprintOf_congr hrecommendations, hf]

/-! ### Whole runs -/

variable [DecidableEq ι]

theorem reviewed_inv {start c : Config ι (Store H) (Call H)}
    (hentry : ∀ i, isEntry (start.call i) = true) (hpinned : Pinned start.store)
    (h : Run (act hashing) (Reviewed hashing) start c) :
    Inv Pinned (fun store call => Claims store call ∧ Backed hashing store call) Apart c := by
  refine h.invariant ?_ ?_
  · have hkept := Kept.start hentry
    exact ⟨hpinned, fun i => ⟨(hkept.call i).1, .of_unclaimed (claimed_of_isEntry (hentry i))⟩,
      hkept.pair⟩
  · intro c i answer store' call' hinv hreviewed hact
    obtain ⟨hclaims, hbacked⟩ := hinv.call i
    refine Inv.update (fun _ _ => Apart.symm) hinv (hinv.store.step hreviewed hact)
      ⟨hclaims.own hact, hbacked.own hact hinv.store⟩ fun j hj => ?_
    obtain ⟨hclaims', hbacked'⟩ := hinv.call j
    exact ⟨⟨hclaims'.other hact, hbacked'.other hreviewed hact hclaims'⟩,
      (hinv.pair i j hj.symm).step hact hclaims'⟩

/-- Whenever a step is about to be invoked, the recommendation has the fingerprint of the most
recent approval of the plan, which has not been invalidated since. -/
def Seen (hashing : Hashing H) (c : Config ι (Store H) (Call H)) : Prop :=
  ∀ i plan step rest, c.call i = .invoking plan step rest → ∃ f,
    approvedOf c.store plan.id = some f ∧
      plan.recommendationId.bind (fingerprintOf hashing c.store) = some f

/-- In a reviewed run nothing is carried out that its approver did not see. -/
theorem reviewed_seen {start c : Config ι (Store H) (Call H)}
    (hentry : ∀ i, isEntry (start.call i) = true) (hpinned : Pinned start.store)
    (h : Run (act hashing) (Reviewed hashing) start c) : Seen hashing c := by
  intro i plan step rest hcall
  exact ((reviewed_inv hentry hpinned h).call i).2.rechecked plan (by rw [hcall]; rfl)

/-- A plan approved for a recommendation as it stands. -/
def approvedPlan : PlanRow String :=
  { unjustified .approved with
    pins := { desiredState := none, recommendation := some (recommendationFingerprint plain incomplete),
              verification := none }
    approvedFingerprint := some (recommendationFingerprint plain incomplete) }

/-- The recommendation loses its confidence, an entity is reconciled, and the plan is executed. -/
def doubted : Config (Fin 3) (Store String) (Call String) where
  store := movie ⟨[incomplete], nodup_incomplete⟩ approvedPlan
  call i := if i.val = 0 then .world [.recommendation { incomplete with confidence := "low" }]
    else if i.val = 1 then
      .reconcile { entityType := "movie", entityId := "m1", now := 0, desired := none }
    else .execute "p1"

theorem doubted_pinned : Pinned doubted.store := by
  refine ⟨fun planId row hrow => ?_, fun planId row hrow _ => ?_⟩ <;>
    rw [List.mem_singleton.1 (Table.find_eq_some.1 hrow).1] <;> rfl

def unapproved (c : Config (Fin 3) (Store String) (Call String)) : Bool :=
  match c.call (Fin.last 2) with
  | .invoking plan _ _ => (approvedOf c.store plan.id).isNone
  | _ => false

/-- The refreshed plan keeps its status, and is carried out without an approval. -/
theorem unapproved_invoked : ∃ c, Run (act plain) (fun _ _ => True) doubted c ∧ ¬ Seen plain c := by
  obtain ⟨c, hrun, hend⟩ := run_of_exec_any (act plain) (fun _ _ => True) doubted
    [(0, {}), (1, {}), (1, {}), (1, { read := .plans }), (1, { read := .facts }), (1, {}), (1, {}),
      (2, {}), (2, {}), (2, {}), (2, {}), (2, {})] unapproved (by decide +kernel)
  refine ⟨c, hrun, fun hseen => ?_⟩
  unfold unapproved at hend
  split at hend
  · rename_i plan step rest hcall
    obtain ⟨f, happroved, -⟩ := hseen 2 plan step rest hcall
    rw [happroved] at hend
    cases hend
  · cases hend

/-- Executed at once, the plan is carried out as it was approved. -/
theorem approved_invoked : ∃ c, Run (act plain) (Reviewed plain) doubted c ∧ Seen plain c := by
  obtain ⟨c, hrun, -⟩ := run_of_exec_any (act plain) (Reviewed plain) doubted
    [(2, {}), (2, {}), (2, {}), (2, {}), (2, {})] (fun c => (mayInvoke (c.call 2)).isSome)
    (by decide +kernel)
  exact ⟨c, hrun, reviewed_seen (by decide) doubted_pinned hrun⟩

end UltraTorrent.Remediation.ApprovedWork
