import UltraTorrent.Cleanup.PlanRuns
import UltraTorrent.Library.Fallible

/-! One live plan per candidate, as long as a new plan is written before another one takes its
candidates. -/
namespace UltraTorrent.Cleanup.OpenPlans

open Library Library.Interleaving PolicyDocument PlanContract PlanStore PlanService PlanRuns

/-- No candidate waits in two plans that are both still to be decided. -/
def OneLivePlan (db : Db) : Prop :=
  ∀ a ∈ db.actions.rows, ∀ b ∈ db.actions.rows, a.candidateId = b.candidateId →
    a.status = .pending → b.status = .pending → db.isOpen a.planId = true →
    db.isOpen b.planId = true → a.planId = b.planId

instance (db : Db) : Decidable (OneLivePlan db) :=
  inferInstanceAs (Decidable (∀ a ∈ db.actions.rows, ∀ b ∈ db.actions.rows,
    a.candidateId = b.candidateId → a.status = .pending → b.status = .pending →
    db.isOpen a.planId = true → db.isOpen b.planId = true → a.planId = b.planId))

/-- The request whose plan the next action of a call writes. -/
def requested : Call → Option CreatePlanRequest
  | .committing draft _ _ => some draft.request
  | _ => none

/-- The check of the open plans, which `createPlan` makes before its transaction, still comes
out empty in it; and no status is written over one the writer has not read. -/
def Uncontested (db : Db) (call : Call) : Prop :=
  Undisturbed db call ∧ ∀ request ∈ requested call, db.alreadyPlanned request.candidateIds = []

instance (db : Db) (call : Call) : Decidable (Uncontested db call) :=
  inferInstanceAs (Decidable (_ ∧ _))

/-- The foreign key: an action belongs to a plan that is there. -/
def Linked (db : Db) : Prop := ∀ a ∈ db.actions.rows, (db.planStatus a.planId).isSome = true

/-- A draft names no candidate that was not asked for. -/
def Drafted (call : Call) : Prop :=
  ∀ draft, drafting call = some draft → ∀ c ∈ draft.candidates, c.id ∈ draft.request.candidateIds

variable {db db' : Db} {call call' : Call} {write : Write} {answer : Answer}

theorem mem_of_candidatesOf {request : CreatePlanRequest} {candidates : List CandidateRow}
    (h : candidatesOf db request = .ok candidates) : ∀ c ∈ candidates, c.id ∈ request.candidateIds := by
  intro c hc
  unfold candidatesOf at h
  dsimp only at h
  split_ifs at h
  split at h
  · rw [← Except.ok.inj h, List.mem_filter, Bool.and_eq_true, List.contains_iff_mem] at hc
    exact hc.2.1
  · cases h

theorem mem_of_draftOf {request : CreatePlanRequest} {draft : Draft}
    (h : draftOf db request = .ok draft) : ∀ c ∈ draft.candidates, c.id ∈ draft.request.candidateIds := by
  obtain ⟨⟨run, action, destination⟩, -, h⟩ := Fallible.bind_eq_ok.1 h
  obtain ⟨candidates, hcandidates, h⟩ := Fallible.bind_eq_ok.1 h
  rw [← Except.ok.inj h]
  exact mem_of_candidatesOf hcandidates

theorem Drafted.step (heffect : Effect db call write call') (h : Drafted call) : Drafted call' := by
  intro draft hdraft
  rcases heffect.drafting draft hdraft with hsame | ⟨request, -, hok⟩
  · exact h draft hsame
  · exact mem_of_draftOf hok

/-- A plan is open after an action only when it was before, or is the one created. -/
theorem isOpen_step (heffect : Effect db call write call') (happly : db.apply write = some db')
    (hlegal : Legal call) (hundisturbed : Undisturbed db call) {planId : String}
    (h : db'.isOpen planId = true) : db.isOpen planId = true ∨ db.planStatus planId = none := by
  rcases status_step heffect happly hlegal hundisturbed planId with ⟨-, hkept⟩ | ⟨t, -, -, hold⟩
  · rw [Db.isOpen, hkept] at h
    exact .inl h
  · rcases hold with hnone | ⟨s, hs, hmove, -⟩
    · exact .inr hnone
    · refine .inl ?_
      rw [Db.isOpen, hs, Option.any_some, not_terminal_of_canTransition hmove]
      rfl

theorem mem_create {draft : Draft} {protectedNow : List String} {planId : String} {ids : List String}
    {a : ActionRow} (h : a ∈ List.zipWith (draft.action protectedNow planId) draft.candidates ids) :
    a.planId = planId ∧ ∃ c ∈ draft.candidates, a.candidateId = c.id := by
  rw [← List.map_uncurry_zip_eq_zipWith] at h
  obtain ⟨⟨c, id⟩, hmem, rfl⟩ := List.mem_map.1 h
  exact ⟨rfl, c, (List.of_mem_zip hmem).1, rfl⟩

theorem created_step (heffect : Effect db call write call') {plan : PlanRow} {actions : List ActionRow}
    {ids : List String} (hwrite : write = .create plan actions ids) {a : ActionRow} (ha : a ∈ actions) :
    ∃ draft protectedNow now planId actionIds, call = .committing draft protectedNow now ∧
      write = draft.create protectedNow now planId actionIds ∧ a.planId = planId ∧
      ∃ c ∈ draft.candidates, a.candidateId = c.id := by
  obtain ⟨draft, protectedNow, now, planId, actionIds, hcall, hcreate⟩ := heffect.creates _ _ _ hwrite
  have hmem := hwrite.symm.trans hcreate
  injection hmem with _ hactions _
  exact ⟨draft, protectedNow, now, planId, actionIds, hcall, hcreate, mem_create (hactions ▸ ha)⟩

theorem pending_step (heffect : Effect db call write call') (happly : db.apply write = some db')
    {a : ActionRow} (ha : a ∈ db'.actions.rows) (hpending : a.status = .pending) :
    a ∈ db.actions.rows ∨ ∃ draft protectedNow now planId ids,
      call = .committing draft protectedNow now ∧ write = draft.create protectedNow now planId ids ∧
      a.planId = planId ∧ ∃ c ∈ draft.candidates, a.candidateId = c.id := by
  rcases actions_apply happly ha with hold | ⟨id, status, reason, hwrite, b, -, rfl⟩ |
    ⟨plan, actions, ids, hwrite, hmem⟩
  · exact .inl hold
  · have hstatus : status = .pending := hpending
    rw [hstatus] at hwrite
    exact absurd hwrite (heffect.pending id reason)
  · exact .inr (created_step heffect hwrite hmem)

theorem Linked.step (heffect : Effect db call write call') (happly : db.apply write = some db')
    (h : Linked db) : Linked db' := by
  intro a ha
  rw [planStatus_apply happly, Option.isSome_or, Bool.or_eq_true]
  rcases actions_apply happly ha with hold | ⟨id, status, reason, -, b, hb, rfl⟩ |
    ⟨plan, actions, ids, hwrite, hmem⟩
  · exact .inr (h a hold)
  · exact .inr (h b hb)
  · obtain ⟨draft, protectedNow, now, planId, actionIds, -, rfl, hplan, -⟩ :=
      created_step heffect hwrite hmem
    refine .inl ?_
    simp [Draft.create, Draft.plan, Write.events, statuses, hplan]

theorem OneLivePlan.step (hlinked : Linked db) (h : OneLivePlan db)
    (heffect : Effect db call write call') (happly : db.apply write = some db') (hlegal : Legal call)
    (hdrafted : Drafted call) (huncontested : Uncontested db call) : OneLivePlan db' := by
  -- every pending action in an open plan was one before, or is among those just created
  have hold : ∀ a ∈ db'.actions.rows, a.status = .pending → db'.isOpen a.planId = true →
      a ∈ db.actions.rows ∧ db.isOpen a.planId = true ∨ ∃ draft protectedNow now planId ids,
        call = .committing draft protectedNow now ∧ write = draft.create protectedNow now planId ids ∧
        a.planId = planId ∧ ∃ c ∈ draft.candidates, a.candidateId = c.id := by
    intro a ha hpending hopen
    refine (pending_step heffect happly ha hpending).imp_left fun hmem => ⟨hmem, ?_⟩
    refine (isOpen_step heffect happly hlegal huncontested.1 hopen).resolve_right fun hnone => ?_
    have hsome := hlinked a hmem
    rw [hnone] at hsome
    cases hsome
  -- a candidate of a plan just created is in no other open plan
  have hnew : ∀ a ∈ db.actions.rows, db.isOpen a.planId = true → ∀ draft protectedNow now,
      call = .committing draft protectedNow now → ∀ c ∈ draft.candidates, a.candidateId ≠ c.id := by
    rintro a ha hopen draft protectedNow now rfl c hc hsame
    have hmem : a ∈ db.alreadyPlanned draft.request.candidateIds := by
      rw [Db.alreadyPlanned, List.mem_filter, hopen, Bool.and_true, List.contains_iff_mem, hsame]
      exact ⟨ha, hdrafted draft rfl c hc⟩
    rw [huncontested.2 draft.request rfl] at hmem
    cases hmem
  intro a ha b hb hsame hpa hpb hoa hob
  rcases hold a ha hpa hoa with ⟨ha, hoa⟩ | ⟨draft, prot, now, id, ids, hcall, hwrite, hida, c, hc, hca⟩
  · rcases hold b hb hpb hob with ⟨hb, hob⟩ | ⟨draft, prot, now, id, ids, hcall, -, -, c, hc, hcb⟩
    · exact h a ha b hb hsame hpa hpb hoa hob
    · exact absurd (hsame.trans hcb) (hnew a ha hoa draft prot now hcall c hc)
  · rcases hold b hb hpb hob with ⟨hb, hob⟩ | ⟨draft', prot', now', id', ids', -, hwrite', hidb, -⟩
    · exact absurd (hsame.symm.trans hca) (hnew b hb hob draft prot now hcall c hc)
    · rw [hwrite] at hwrite'
      injection hwrite' with hplan _ _
      rw [hida, hidb]
      exact congrArg (·.id) hplan

variable {ι : Type*} [DecidableEq ι]

/-- In a run of any number of calls in which every plan is written while its candidates are in
no open plan, and no status over one the writer has not read, no candidate ever waits in two
open plans. -/
theorem uncontested_oneLivePlan {start c : Config ι Db Call} (hlinked : Linked start.store)
    (hstart : OneLivePlan start.store) (hentry : ∀ i, isEntry (start.call i) = true)
    (h : Run act (alone Uncontested) start c) : OneLivePlan c.store := by
  suffices hinv : Inv (fun db => Linked db ∧ OneLivePlan db) (fun _ call => Legal call ∧ Drafted call)
      (fun _ _ => True) c from hinv.store.2
  refine h.inv (fun _ _ _ => trivial) ?_ ?_ ?_
  · refine ⟨⟨hlinked, hstart⟩, fun i => ⟨(idle_of_isEntry (hentry i)).legal, ?_⟩, fun _ _ _ => trivial⟩
    intro draft hdraft
    rw [(idle_of_isEntry (hentry i)).drafting] at hdraft
    cases hdraft
  · intro db call answer db' call' ⟨hlinked, hlive⟩ ⟨hlegal, hdrafted⟩ huncontested hact
    obtain ⟨write, hnext, happly⟩ := act_eq_some hact
    have heffect := next_effect hnext
    exact ⟨⟨hlinked.step heffect happly, hlive.step hlinked heffect happly hlegal hdrafted huncontested⟩,
      heffect.legal, hdrafted.step heffect⟩
  · intro db call answer db' call' other _ _ hother _ _ _
    exact ⟨hother, trivial⟩

/-- A finished run with one candidate. -/
def oneCandidate : Db where
  plans := ⟨[], by decide⟩
  actions := ⟨[], by decide⟩
  candidates := ⟨[{ id := "file", runId := "run", mediaItemId := none, mediaFileId := some "m"
                    path := "/media/a.mkv", fingerprint := "f", status := .candidate
                    estimatedReclaimBytes := 7 }], by decide⟩
  runs := fun id => if id = "run" then some ⟨"run", "version", false, "completed"⟩ else none
  versions := fun _ => some
    { schemaVersion := 1, conditions := none, exclusions := none
      action := some { mode := .approvalRequired, destination := .trash } }
  log := []

/-- Every call plans the candidate. -/
def planningIt : Config ℕ Db Call :=
  ⟨oneCandidate, fun _ => .createPlan ⟨"run", ["file"], none, none, none⟩⟩

def freshIds (i : ℕ) : Answer :=
  { planId := "plan" ++ toString i, actionIds := ["action" ++ toString i] }

/-- Two requests that overlap both plan the candidate. -/
theorem planned_twice : ∃ c, Linked planningIt.store ∧ OneLivePlan planningIt.store ∧
    (∀ i, isEntry (planningIt.call i) = true) ∧ Run act (fun _ _ => True) planningIt c ∧
    ¬ OneLivePlan c.store := by
  obtain ⟨c, hrun, hlive⟩ := run_of_exec_any act (fun _ _ => True) planningIt
    ([0, 1, 0, 1, 0, 1].map fun i => (i, freshIds i)) (fun c => !decide (OneLivePlan c.store))
    (by decide +kernel)
  exact ⟨c, List.forall_mem_nil _, List.forall_mem_nil _, fun _ => rfl, hrun, by simpa using hlive⟩

/-- The second request, made once the first plan is there, is refused. -/
theorem planned_once : ∃ c, Run act (alone Uncontested) planningIt c ∧ c.store.actions.rows.length = 1 ∧
    OneLivePlan c.store := by
  obtain ⟨c, hrun, hlength⟩ := run_of_exec_any act (alone Uncontested) planningIt
    ([0, 0, 0, 1].map fun i => (i, freshIds i)) (fun c => c.store.actions.rows.length = 1)
    (by decide +kernel)
  have hlinked : Linked planningIt.store := List.forall_mem_nil _
  have hlive : OneLivePlan planningIt.store := List.forall_mem_nil _
  exact ⟨c, hrun, of_decide_eq_true hlength,
    uncontested_oneLivePlan hlinked hlive (fun _ => rfl) hrun⟩

end UltraTorrent.Cleanup.OpenPlans
