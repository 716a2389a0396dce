import Mathlib.Data.List.Chain
import UltraTorrent.Cleanup.PlanService

/-! A plan runs at most once and a decided plan stays decided, as long as no call writes a
status over one it has not read. -/
namespace UltraTorrent.Cleanup.PlanRuns

open Library.Interleaving PlanContract PlanStore PlanService

/-- The calls as they are made. -/
def isEntry : Call → Bool
  | .returned | .threw _ | .createPlan _ | .approve _ _ | .reject _ | .cancel _ | .sweepExpiry
  | .execute _ => true
  | _ => false

/-- The plan whose status the next action of a call writes, and the status the call last knew
it to have. -/
def relies : Call → Option (String × PlanStatus)
  | .transition plan _ _ _ | .expire plan | .start plan => some (plan.id, plan.status)
  | .working e => if e.todo.isEmpty then some (e.plan.id, .executing) else none
  | _ => none

/-- No other call has moved the plan since this one read it. -/
def Undisturbed (db : Db) (call : Call) : Prop :=
  ∀ planId status, relies call = some (planId, status) → db.planStatus planId = some status

/-- A status in which no file of the plan may be touched. -/
def calledOff : List PlanStatus := [.cancelled, .rejected, .expired]

instance (db : Db) (call : Call) : Decidable (Undisturbed db call) :=
  decidable_of_iff (∀ known ∈ relies call, db.planStatus known.1 = some known.2)
    ⟨fun h id s hs => h (id, s) hs, fun h known hs => h known.1 known.2 hs⟩

/-- What the journal of a plan that runs at most once, and stays decided, shows. -/
structure Decided (log : List Event) : Prop where
  handedOnce : (handedIds log).Nodup
  untouched : log.Pairwise fun e f => ∀ planId actionId, ∀ status ∈ calledOff,
    e = .status planId status → f ≠ .touched planId actionId
  legal : ∀ planId, (statuses planId log).IsChain fun s t => canTransition s t = true

/-! ### What a call knows -/

/-- The target of a call was not reached from `executing`, and a run starts from `approved`. -/
def Legal : Call → Prop
  | .transition _ target _ _ => canTransition .executing target = false
  | .expire plan | .start plan => canTransition plan.status .executing = true
  | _ => True

def charge : Call → Option String
  | .listing plan => some plan.id
  | .working e | .acting _ e _ => some e.plan.id
  | _ => none

/-- The actions it may yet hand over. -/
def unhanded : Call → List String
  | .working e => e.todo.map (·.id)
  | .acting .handing e a => a.id :: e.todo.map (·.id)
  | .acting _ e _ => e.todo.map (·.id)
  | _ => []

/-- The plan a call is about to create. -/
def drafting : Call → Option Draft
  | .checking draft | .committing draft _ _ => some draft
  | _ => none

/-- A call between two plans: it executes none and creates none. -/
structure Idle (call : Call) : Prop where
  legal : Legal call
  charge : charge call = none
  drafting : drafting call = none

variable {db db' : Db} {call call' : Call} {write : Write} {answer : Answer} {planId : String}

theorem idle_returned : Idle .returned := ⟨trivial, rfl, rfl⟩

theorem idle_threw (message : String) : Idle (.threw message) := ⟨trivial, rfl, rfl⟩

theorem idle_transition {plan : PlanRow} {target : PlanStatus} {count : Option ℕ} {rest : List PlanRow}
    (h : canTransition .executing target = false) : Idle (.transition plan target count rest) :=
  ⟨h, rfl, rfl⟩

theorem idle_of_isEntry (h : isEntry call = true) : Idle call := by
  cases call <;> first | exact ⟨trivial, rfl, rfl⟩ | cases h

theorem idle_sweep (plans : List PlanRow) : Idle (sweep plans) := by
  cases plans with
  | nil => exact idle_returned
  | cons plan rest => exact idle_transition rfl

theorem idle_decision {target : PlanStatus} (h : canTransition .executing target = false) :
    Idle (decision db planId target) := by
  unfold decision
  split
  · exact idle_threw _
  · split_ifs
    · exact idle_transition h
    · exact idle_threw _

theorem idle_approveVerdict (plan : PlanRow) (user : User) (now : ℤ) :
    Idle (approveVerdict db plan user now) := by
  unfold approveVerdict
  dsimp only
  split
  · exact idle_threw _
  · exact idle_transition rfl

theorem idle_loadExecution (now : ℤ) : Idle (loadExecution db planId now) := by
  unfold loadExecution
  split
  · exact idle_threw _
  · rename_i plan _
    by_cases hstatus : canTransition plan.status .executing = true
    · simp only [hstatus, Bool.not_true, Bool.false_eq_true, if_false]
      split_ifs
      · exact ⟨hstatus, rfl, rfl⟩
      · exact ⟨hstatus, rfl, rfl⟩
    · simp only [hstatus, Bool.not_false, if_true]
      exact idle_threw _

theorem idle_afterTransition (target : PlanStatus) (rest : List PlanRow) :
    Idle (afterTransition planId target rest) := by
  unfold afterTransition
  split
  · exact ⟨trivial, rfl, rfl⟩
  · exact idle_sweep rest

/-! ### What one action does -/

/-- All that an action can do, as far as plans and files go. -/
structure Effect (db : Db) (call : Call) (write : Write) (call' : Call) : Prop where
  legal : Legal call'
  charge : ∀ planId, charge call' = some planId →
    (charge call = some planId ∧ (∀ status, .status planId status ∉ write.events) ∧
      ∀ plan, call' ≠ .listing plan) ∨
    ∃ plan, call = .start plan ∧ write = .plan plan.id .executing none ∧ call' = .listing plan ∧
      planId = plan.id
  unhanded : (∃ plan, call = .listing plan ∧ write = .nothing ∧
      unhanded call' = (bySourcePath (db.pending plan.id)).map (·.id)) ∨
    (handedIds write.events ++ unhanded call').Sublist (unhanded call)
  touched : ∀ planId actionId, .touched planId actionId ∈ write.events → PlanRuns.charge call = some planId
  status : ∀ planId status, .status planId status ∈ write.events →
    (∃ plan actions ids, write = .create plan actions ids ∧ planId = plan.id) ∨
    ∃ known, relies call = some (planId, known) ∧ (Legal call → canTransition known status = true ∧
      (known = .executing → PlanRuns.charge call = some planId))
  pending : ∀ actionId reason, write ≠ .action actionId .pending reason
  drafting : ∀ draft, drafting call' = some draft → PlanRuns.drafting call = some draft ∨
    ∃ request, call = .createPlan request ∧ draftOf db request = .ok draft
  creates : ∀ plan actions ids, write = .create plan actions ids →
    ∃ draft protectedNow now planId actionIds, call = .committing draft protectedNow now ∧
      write = draft.create protectedNow now planId actionIds

theorem unhanded_of_charge (h : charge call = none) : unhanded call = [] := by
  cases call with
  | listing _ | working _ | acting _ _ _ => cases h
  | _ => rfl

/-- A call that executes nothing and writes no status. -/
theorem Effect.quiet (hevents : write.events = [])
    (hpending : ∀ actionId reason, write ≠ .action actionId .pending reason)
    (hlegal : Legal call') (hcharge : PlanRuns.charge call' = none)
    (hdrafting : ∀ draft, PlanRuns.drafting call' = some draft → PlanRuns.drafting call = some draft ∨
      ∃ request, call = .createPlan request ∧ draftOf db request = .ok draft) :
    Effect db call write call' where
  legal := hlegal
  charge := by simp [hcharge]
  unhanded := by
    rw [hevents, unhanded_of_charge hcharge]
    exact .inr (List.nil_sublist _)
  touched := by simp [hevents]
  status := by simp [hevents]
  pending := hpending
  drafting := hdrafting
  creates := by
    rintro plan actions ids rfl
    cases hevents

theorem Effect.idle (hevents : write.events = [])
    (hpending : ∀ actionId reason, write ≠ .action actionId .pending reason) (h : Idle call') :
    Effect db call write call' :=
  .quiet hevents hpending h.legal h.charge (by simp [h.drafting])

theorem Effect.decides {status known : PlanStatus} {count : Option ℕ}
    (hrelies : relies call = some (planId, known))
    (hknown : Legal call → canTransition known status = true ∧
      (known = .executing → PlanRuns.charge call = some planId))
    (hlegal : Legal call')
    (hcharge : ∀ id, PlanRuns.charge call' = some id → ∃ plan, call = .start plan ∧
      Write.plan planId status count = .plan plan.id .executing none ∧ call' = .listing plan ∧
      id = plan.id) (hunhanded : PlanRuns.unhanded call' = [])
    (hdrafting : PlanRuns.drafting call' = none) :
    Effect db call (.plan planId status count) call' where
  legal := hlegal
  charge := fun id hid => .inr (hcharge id hid)
  unhanded := by
    rw [hunhanded]
    exact .inr (List.nil_sublist _)
  touched := by simp [Write.events]
  status := by
    rintro id s hmem
    obtain ⟨rfl, rfl⟩ : id = planId ∧ s = status := by simpa [Write.events] using hmem
    exact .inr ⟨known, hrelies, hknown⟩
  pending := by simp
  drafting := by simp [hdrafting]
  creates := by simp

theorem Effect.runs {e : Execution} (hcall : PlanRuns.charge call = some e.plan.id)
    (hcall' : PlanRuns.charge call' = some e.plan.id) (hlegal : Legal call')
    (hsub : (handedIds write.events ++ PlanRuns.unhanded call').Sublist (PlanRuns.unhanded call))
    (htouched : ∀ planId actionId, .touched planId actionId ∈ write.events → planId = e.plan.id)
    (hstatus : ∀ planId status, .status planId status ∉ write.events)
    (hpending : ∀ actionId reason, write ≠ .action actionId .pending reason)
    (hlisting : ∀ plan, call' ≠ .listing plan) (hdrafting : PlanRuns.drafting call' = none) :
    Effect db call write call' where
  legal := hlegal
  charge := fun id hid => .inl ⟨hcall.trans (hcall'.symm.trans hid), hstatus id, hlisting⟩
  unhanded := .inr hsub
  touched := fun planId actionId hmem => by rw [htouched planId actionId hmem, hcall]
  status := fun planId status hmem => absurd hmem (hstatus planId status)
  pending := hpending
  drafting := by simp [hdrafting]
  creates := by
    rintro plan actions ids rfl
    exact absurd (List.mem_singleton_self _) (hstatus plan.id plan.status)

theorem effect_check (draft : Draft) : Effect db (.checking draft) .nothing (check db draft answer) := by
  unfold check
  dsimp only
  split_ifs
  · exact .idle rfl (by simp) (idle_threw _)
  · exact .idle rfl (by simp) (idle_threw _)
  · exact .idle rfl (by simp) (idle_threw _)
  · exact .idle rfl (by simp) (idle_threw _)
  · exact .quiet rfl (by simp) trivial rfl fun d hd => .inl hd

theorem effect_create (draft : Draft) (protectedNow : List String) (now : ℤ) (id : String)
    (actionIds : List String) : Effect db (.committing draft protectedNow now)
      (draft.create protectedNow now id actionIds) .returned where
  legal := trivial
  charge := by simp [PlanRuns.charge]
  unhanded := .inr (by simp [Draft.create, Write.events, handedIds, PlanRuns.unhanded])
  touched := by simp [Draft.create, Write.events]
  status := by
    intro planId status hmem
    obtain ⟨rfl, -⟩ : planId = id ∧ status = .pendingApproval := by
      simpa [Draft.create, Write.events, Draft.plan] using hmem
    exact .inl ⟨_, _, _, rfl, rfl⟩
  pending := by simp [Draft.create]
  drafting := by simp [PlanRuns.drafting]
  creates := fun _ _ _ _ => ⟨draft, protectedNow, now, id, actionIds, rfl, rfl⟩

theorem effect_transition (plan : PlanRow) (target : PlanStatus) (count : Option ℕ)
    (rest : List PlanRow) :
    Effect db (.transition plan target count rest) (transition plan target count rest).1
      (transition plan target count rest).2 := by
  unfold transition
  split_ifs with hcan
  · have hidle : Idle (afterTransition plan.id target rest) := idle_afterTransition target rest
    refine .decides rfl (fun hlegal => ⟨hcan, fun hknown => ?_⟩) hidle.legal
      (by simp [hidle.charge]) (unhanded_of_charge hidle.charge) hidle.drafting
    rw [hknown, show canTransition .executing target = false from hlegal] at hcan
    cases hcan
  · exact .idle rfl (by simp) (idle_threw _)

theorem effect_work (e : Execution) :
    Effect db (.working e) (work e answer).1 (work e answer).2 := by
  unfold work
  split
  · rename_i htodo
    have hrelies : relies (.working e) = some (e.plan.id, .executing) := by simp [relies, htodo]
    refine .decides hrelies (fun _ => ⟨?_, fun _ => rfl⟩) trivial (by simp [charge]) rfl rfl
    unfold Execution.finalStatus
    split_ifs <;> rfl
  · rename_i a todo htodo
    dsimp only
    split_ifs
    · exact .runs (e := e) rfl rfl trivial (by simp [Write.events, handedIds, unhanded, htodo])
        (by simp [Write.events]) (by simp [Write.events]) (by simp) (by rintro _ ⟨⟩) rfl
    · split
      · exact .runs (e := e) rfl rfl trivial (by simp [Write.events, handedIds, unhanded, htodo])
          (by simp [Write.events]) (by simp [Write.events]) (by simp) (by rintro _ ⟨⟩) rfl
      · exact .runs (e := e) rfl rfl trivial (by simp [Write.events, handedIds, unhanded, htodo])
          (by simp [Write.events]) (by simp [Write.events]) (by simp) (by rintro _ ⟨⟩) rfl

theorem effect_actOn (phase : Phase) (e : Execution) (a : ActionRow) :
    Effect db (.acting phase e a) (actOn phase e a answer).1 (actOn phase e a answer).2 := by
  cases phase <;> unfold actOn <;> dsimp only <;> (try split_ifs) <;>
    exact .runs (e := e) rfl rfl trivial (by simp [Write.events, handedIds, unhanded])
      (by simp [Write.events]) (by simp [Write.events]) (by simp) (by rintro _ ⟨⟩) rfl

theorem next_effect (h : next db call answer = some (write, call')) : Effect db call write call' := by
  cases call with
  | returned | threw _ => cases h
  | createPlan request =>
    obtain ⟨rfl, rfl⟩ := Prod.ext_iff.1 (Option.some.inj h)
    dsimp only
    split
    · rename_i draft hdraft
      refine .quiet rfl (by simp) trivial rfl fun d hd => .inr ⟨request, rfl, ?_⟩
      rw [← Option.some.inj hd]
      exact hdraft
    · exact .idle rfl (by simp) (idle_threw _)
  | checking draft =>
    obtain ⟨rfl, rfl⟩ := Prod.ext_iff.1 (Option.some.inj h)
    exact effect_check draft
  | committing draft protectedNow now =>
    rw [next] at h
    split_ifs at h
    obtain ⟨rfl, rfl⟩ := Prod.ext_iff.1 (Option.some.inj h)
    exact effect_create draft protectedNow now answer.planId answer.actionIds
  | approve id user =>
    obtain ⟨rfl, rfl⟩ := Prod.ext_iff.1 (Option.some.inj h)
    dsimp only
    split
    · exact .idle rfl (by simp) (idle_threw _)
    · exact .idle rfl (by simp) ⟨trivial, rfl, rfl⟩
  | refreshProtections plan user now =>
    obtain ⟨rfl, rfl⟩ := Prod.ext_iff.1 (Option.some.inj h)
    exact .idle rfl (by simp) ⟨trivial, rfl, rfl⟩
  | refreshing plan user now todo =>
    obtain ⟨rfl, rfl⟩ := Prod.ext_iff.1 (Option.some.inj h)
    cases todo with
    | nil =>
      change Effect db _ .nothing (approveVerdict db plan user now)
      exact .idle rfl (by simp) (idle_approveVerdict plan user now)
    | cons a todo =>
      unfold refresh
      dsimp only
      split <;> exact .idle rfl (by simp) ⟨trivial, rfl, rfl⟩
  | reject id | cancel id =>
    obtain ⟨rfl, rfl⟩ := Prod.ext_iff.1 (Option.some.inj h)
    exact .idle rfl (by simp) (idle_decision rfl)
  | sweepExpiry =>
    obtain ⟨rfl, rfl⟩ := Prod.ext_iff.1 (Option.some.inj h)
    exact .idle rfl (by simp) (idle_sweep _)
  | transition plan target count rest =>
    obtain ⟨rfl, rfl⟩ := Prod.ext_iff.1 (Option.some.inj h)
    exact effect_transition plan target count rest
  | affected id status rest =>
    obtain ⟨rfl, rfl⟩ := Prod.ext_iff.1 (Option.some.inj h)
    exact .idle rfl (by simp) ⟨trivial, rfl, rfl⟩
  | mirror ids status rest =>
    obtain ⟨rfl, rfl⟩ := Prod.ext_iff.1 (Option.some.inj h)
    exact .idle rfl (by simp) (idle_sweep rest)
  | execute id =>
    obtain ⟨rfl, rfl⟩ := Prod.ext_iff.1 (Option.some.inj h)
    exact .idle rfl (by simp) (idle_loadExecution answer.now)
  | expire plan =>
    obtain ⟨rfl, rfl⟩ := Prod.ext_iff.1 (Option.some.inj h)
    refine .decides rfl (fun hlegal => ?_) trivial (by simp [charge]) rfl rfl
    rw [approved_of_canTransition hlegal]
    exact ⟨rfl, nofun⟩
  | start plan =>
    obtain ⟨rfl, rfl⟩ := Prod.ext_iff.1 (Option.some.inj h)
    refine .decides rfl (fun hlegal => ⟨hlegal, ?_⟩) trivial (by simp [charge]) rfl rfl
    rw [approved_of_canTransition hlegal]
    nofun
  | listing plan =>
    obtain ⟨rfl, rfl⟩ := Prod.ext_iff.1 (Option.some.inj h)
    exact ⟨trivial, fun _ hid => .inl ⟨hid, by simp [Write.events], nofun⟩,
      .inl ⟨plan, rfl, rfl, rfl⟩, by simp [Write.events], by simp [Write.events], by simp,
      by simp [drafting], by simp⟩
  | working e =>
    obtain ⟨rfl, rfl⟩ := Prod.ext_iff.1 (Option.some.inj h)
    exact effect_work e
  | acting phase e a =>
    obtain ⟨rfl, rfl⟩ := Prod.ext_iff.1 (Option.some.inj h)
    exact effect_actOn phase e a

/-! ### The invariant -/

/-- The journal is that of decided plans, and agrees with the tables. -/
structure Journal (db : Db) : Prop where
  decided : Decided db.log
  current : ∀ planId, (statuses planId db.log).getLast? = db.planStatus planId
  handed : ∀ actionId ∈ handedIds db.log, ∃ planId status, db.planOf actionId = some planId ∧
    db.planStatus planId = some status ∧ status ∈ runStatuses

/-- What a call that executes a plan can count on. -/
structure InCharge (db : Db) (call : Call) (planId : String) : Prop where
  executing : db.planStatus planId = some .executing
  distinct : (unhanded call).Nodup
  own : ∀ actionId ∈ unhanded call, db.planOf actionId = some planId
  fresh : ∀ actionId ∈ unhanded call, actionId ∉ handedIds db.log
  first : ∀ plan, call = .listing plan → ∀ actionId ∈ handedIds db.log,
    db.planOf actionId ≠ some planId

structure Knows (db : Db) (call : Call) : Prop where
  legal : Legal call
  inCharge : ∀ planId, charge call = some planId → InCharge db call planId

/-- No plan is executed by two calls. -/
def Apart (k l : Call) : Prop := ∀ planId, charge k = some planId → charge l ≠ some planId

/-- A write of an undisturbed call moves a plan on, and one that executes only for the call
that executes it. -/
theorem status_step (heffect : Effect db call write call') (happly : db.apply write = some db')
    (hlegal : Legal call) (hundisturbed : Undisturbed db call) (planId : String) :
    statuses planId write.events = [] ∧ db'.planStatus planId = db.planStatus planId ∨
      ∃ t, statuses planId write.events = [t] ∧ db'.planStatus planId = some t ∧
        (db.planStatus planId = none ∨ ∃ s, db.planStatus planId = some s ∧
          canTransition s t = true ∧ (s = .executing → charge call = some planId)) := by
  have hafter := planStatus_apply happly planId
  rcases statuses_events planId write with hnone | ⟨t, ht⟩
  · refine .inl ⟨hnone, ?_⟩
    rw [hafter, hnone]
    rfl
  · refine .inr ⟨t, ht, by rw [hafter, ht]; rfl, ?_⟩
    have hmem : Event.status planId t ∈ write.events := by
      rw [← mem_statuses, ht]
      exact List.mem_singleton_self t
    rcases heffect.status planId t hmem with ⟨plan, actions, ids, rfl, rfl⟩ | ⟨s, hs, hmove⟩
    · exact .inl (planStatus_of_create happly)
    · exact .inr ⟨s, hundisturbed planId s hs, hmove hlegal⟩

theorem Knows.distinct (h : Knows db call) : (unhanded call).Nodup := by
  cases hcharge : charge call with
  | none =>
    rw [unhanded_of_charge hcharge]
    exact List.nodup_nil
  | some planId => exact (h.inCharge planId hcharge).distinct

theorem handed_step (heffect : Effect db call write call') (hknows : Knows db call) {actionId : String}
    (h : actionId ∈ handedIds write.events) : ∃ planId, charge call = some planId ∧
      db.planOf actionId = some planId ∧ actionId ∉ handedIds db.log := by
  rcases heffect.unhanded with ⟨plan, -, rfl, -⟩ | hsub
  · cases h
  · have hmem := hsub.subset (List.mem_append_left _ h)
    cases hcharge : charge call with
    | none =>
      rw [unhanded_of_charge hcharge] at hmem
      cases hmem
    | some planId =>
      have hin := hknows.inCharge planId hcharge
      exact ⟨planId, rfl, hin.own actionId hmem, hin.fresh actionId hmem⟩

theorem handedIds_step (happly : db.apply write = some db') :
    handedIds db'.log = handedIds db.log ++ handedIds write.events := by
  rw [log_apply happly, handedIds_append]

theorem executing_step (heffect : Effect db call write call') (happly : db.apply write = some db')
    (hlegal : Legal call) (hundisturbed : Undisturbed db call)
    (hexecuting : db.planStatus planId = some .executing) (hcharge : charge call ≠ some planId) :
    db'.planStatus planId = some .executing := by
  rcases status_step heffect happly hlegal hundisturbed planId with ⟨-, h⟩ | ⟨t, -, -, hold⟩
  · rw [h, hexecuting]
  · rw [hexecuting] at hold
    rcases hold with hnone | ⟨s, hs, -, hin⟩
    · cases hnone
    · exact absurd (hin (Option.some.inj hs).symm) hcharge

theorem InCharge.frame {other : Call} (hjournal : Journal db) (heffect : Effect db call write call')
    (happly : db.apply write = some db') (hknows : Knows db call)
    (hundisturbed : Undisturbed db call) (hcharge : charge call ≠ some planId)
    (h : InCharge db other planId) : InCharge db' other planId := by
  have hforeign : ∀ actionId ∈ handedIds write.events, db.planOf actionId ≠ some planId := by
    intro actionId hmem hplan
    obtain ⟨id, hid, hof, -⟩ := handed_step heffect hknows hmem
    exact hcharge (by rw [hid, ← hof, hplan])
  refine ⟨executing_step heffect happly hknows.legal hundisturbed h.executing hcharge, h.distinct,
    fun a ha => planOf_apply happly (h.own a ha), ?_, ?_⟩
  · intro a ha
    rw [handedIds_step happly, List.mem_append, not_or]
    exact ⟨h.fresh a ha, fun hnew => hforeign a hnew (h.own a ha)⟩
  · intro plan hplan a ha
    rw [handedIds_step happly, List.mem_append] at ha
    have hof : ∃ id, db.planOf a = some id ∧ id ≠ planId := by
      rcases ha with hold | hnew
      · obtain ⟨id, -, hid, -, -⟩ := hjournal.handed a hold
        exact ⟨id, hid, fun he => h.first plan hplan a hold (he ▸ hid)⟩
      · obtain ⟨id, -, hid, -⟩ := handed_step heffect hknows hnew
        exact ⟨id, hid, fun he => hforeign a hnew (he ▸ hid)⟩
    obtain ⟨id, hid, hne⟩ := hof
    rw [planOf_apply happly hid]
    exact fun he => hne (Option.some.inj he)

theorem mem_statuses_of_legal {l : List PlanStatus} {s t : PlanStatus}
    (hchain : l.IsChain fun s t => canTransition s t = true) (hlast : l.getLast? = some t)
    (hs : s ∈ l) : s = t ∨ ∃ u, canTransition s u = true := by
  induction l with
  | nil => cases hs
  | cons a l ih =>
    cases l with
    | nil =>
      rw [List.mem_singleton.1 hs]
      exact .inl (Option.some.inj hlast)
    | cons b l =>
      rw [List.isChain_cons_cons] at hchain
      rcases List.mem_cons.1 hs with rfl | hs
      · exact .inr ⟨b, hchain.1⟩
      · exact ih hchain.2 hlast hs

theorem calledOff_final {s t : PlanStatus} (hs : s ∈ calledOff) : canTransition s t = false := by
  cases s <;> first | exact absurd hs (by decide) | (cases t <;> rfl)

theorem Journal.step (hjournal : Journal db) (heffect : Effect db call write call')
    (happly : db.apply write = some db') (hknows : Knows db call)
    (hundisturbed : Undisturbed db call) : Journal db' := by
  have hstatus := status_step heffect happly hknows.legal hundisturbed
  have hlog := log_apply happly
  refine ⟨⟨?_, ?_, fun id => ?_⟩, fun id => ?_, ?_⟩
  · rw [handedIds_step happly, List.nodup_append]
    refine ⟨hjournal.decided.handedOnce, ?_, fun a ha b hb hab => ?_⟩
    · rcases heffect.unhanded with ⟨_, _, rfl, _⟩ | hsub
      · exact List.nodup_nil
      · exact (hsub.nodup hknows.distinct).of_append_left
    · obtain ⟨-, -, -, hfresh⟩ := handed_step heffect hknows hb
      exact hfresh (hab ▸ ha)
  · rw [hlog, List.pairwise_append]
    refine ⟨hjournal.decided.untouched, ?_, ?_⟩
    · cases write <;> simp [Write.events]
    · rintro e he f hf id actionId s hs rfl rfl
      have hin := hknows.inCharge id (heffect.touched id actionId hf)
      have hlast := (hjournal.current id).trans hin.executing
      rcases mem_statuses_of_legal (hjournal.decided.legal id) hlast (mem_statuses.2 he) with
        rfl | ⟨u, hu⟩
      · exact absurd hs (by decide)
      · rw [calledOff_final hs] at hu
        cases hu
  · rw [hlog, statuses_append, List.isChain_append]
    refine ⟨hjournal.decided.legal id, ?_, ?_⟩
    · rcases hstatus id with ⟨hnone, -⟩ | ⟨t, ht, -⟩
      · rw [hnone]
        exact .nil
      · rw [ht]
        exact .singleton t
    · rintro s hs t ht
      rcases hstatus id with ⟨hnone, -⟩ | ⟨u, hu, -, hold⟩
      · rw [hnone] at ht
        cases ht
      · rw [hu] at ht
        rw [Option.mem_def, hjournal.current id] at hs
        rw [hs] at hold
        rcases hold with hnone | ⟨v, hv, hmove, -⟩
        · cases hnone
        · cases hv
          cases ht
          exact hmove
  · rw [hlog, statuses_append, List.getLast?_append, planStatus_apply happly, hjournal.current id]
  · intro a ha
    rw [handedIds_step happly, List.mem_append] at ha
    have hof : ∃ id s, db.planOf a = some id ∧ db.planStatus id = some s ∧ s ∈ runStatuses := by
      rcases ha with hold | hnew
      · exact hjournal.handed a hold
      · obtain ⟨id, hid, hof, -⟩ := handed_step heffect hknows hnew
        exact ⟨id, .executing, hof, (hknows.inCharge id hid).executing, by decide⟩
    obtain ⟨id, s, hid, hs, hrun⟩ := hof
    refine ⟨id, ?_⟩
    rcases hstatus id with ⟨-, hkept⟩ | ⟨t, -, ht, hold⟩
    · exact ⟨s, planOf_apply happly hid, hkept.trans hs, hrun⟩
    · refine ⟨t, planOf_apply happly hid, ht, ?_⟩
      rw [hs] at hold
      rcases hold with hnone | ⟨u, hu, hmove, -⟩
      · cases hnone
      · cases hu
        exact mem_runStatuses_of_canTransition hrun hmove

theorem InCharge.list {plan : PlanRow} (h : InCharge db (.listing plan) planId)
    (hids : unhanded call' = (bySourcePath (db.pending planId)).map (·.id)) :
    (unhanded call').Nodup ∧ ∀ a ∈ unhanded call', db.planOf a = some planId ∧ a ∉ handedIds db.log := by
  have hperm := List.perm_insertionSort (fun a b : ActionRow => a.sourcePath ≤ b.sourcePath)
    (db.pending planId)
  rw [hids]
  refine ⟨?_, fun a ha => ?_⟩
  · have hsub : ((db.pending planId).map (·.id)).Sublist (db.actions.rows.map (·.id)) :=
      List.filter_sublist.map _
    exact (hperm.map _).nodup_iff.2 (hsub.nodup db.actions.nodup)
  · obtain ⟨row, hrow, rfl⟩ := List.mem_map.1 ha
    have hof := planOf_of_mem_pending (hperm.mem_iff.1 hrow)
    exact ⟨hof, fun hhanded => h.first plan rfl row.id hhanded hof⟩

theorem Knows.step (hjournal : Journal db) (heffect : Effect db call write call')
    (happly : db.apply write = some db') (hknows : Knows db call)
    (hundisturbed : Undisturbed db call) : Knows db' call' := by
  refine ⟨heffect.legal, fun id hid => ?_⟩
  rcases heffect.charge id hid with ⟨hcharge, hquiet, hlisting⟩ | ⟨plan, rfl, rfl, rfl, rfl⟩
  · have hin := hknows.inCharge id hcharge
    have hexecuting : db'.planStatus id = some .executing := by
      rw [planStatus_apply happly, hin.executing]
      have hnone : statuses id write.events = [] := by
        rw [List.eq_nil_iff_forall_not_mem]
        exact fun s hs => hquiet s (mem_statuses.1 hs)
      rw [hnone]
      rfl
    have hunhanded : (unhanded call').Nodup ∧ ∀ a ∈ unhanded call', db.planOf a = some id ∧
        a ∉ handedIds db.log ++ handedIds write.events := by
      rcases heffect.unhanded with ⟨plan, rfl, rfl, hids⟩ | hsub
      · cases hcharge
        simpa [handedIds, Write.events] using hin.list hids
      · have hnodup := hsub.nodup hin.distinct
        rw [List.nodup_append] at hnodup
        refine ⟨hnodup.2.1, fun a ha => ?_⟩
        have hmem := hsub.subset (List.mem_append_right _ ha)
        rw [List.mem_append, not_or]
        exact ⟨hin.own a hmem, hin.fresh a hmem, fun hnew => hnodup.2.2 a hnew a ha rfl⟩
    refine ⟨hexecuting, hunhanded.1, fun a ha => planOf_apply happly (hunhanded.2 a ha).1, ?_,
      fun plan hplan => absurd hplan (hlisting plan)⟩
    intro a ha
    rw [handedIds_step happly]
    exact (hunhanded.2 a ha).2
  · have hread := hundisturbed plan.id plan.status rfl
    rw [approved_of_canTransition hknows.legal] at hread
    refine ⟨?_, List.nodup_nil, by rintro _ ⟨⟩, by rintro _ ⟨⟩, fun plan' hplan' a ha => ?_⟩
    · rw [planStatus_apply happly]
      simp [statuses, Write.events]
    · rw [handedIds_step happly] at ha
      obtain ⟨id, s, hid, hs, hrun⟩ := hjournal.handed a (by simpa [handedIds, Write.events] using ha)
      rw [planOf_apply happly hid]
      rintro hsame
      rw [Option.some.inj hsame, hread] at hs
      cases hs
      exact absurd hrun (by decide)

/-! ### Runs -/

theorem act_eq_some (h : act db call answer = some (db', call')) :
    ∃ write, next db call answer = some (write, call') ∧ db.apply write = some db' := by
  obtain ⟨⟨write, call₁⟩, hnext, happly⟩ := Option.bind_eq_some_iff.1 h
  obtain ⟨db₁, hdb, hpair⟩ := Option.map_eq_some_iff.1 happly
  obtain ⟨rfl, rfl⟩ := Prod.ext_iff.1 hpair
  exact ⟨write, hnext, hdb⟩

variable {ι : Type*} [DecidableEq ι]

theorem statuses_opening (h : db.Opening) (planId : String) :
    statuses planId db.log = (db.planStatus planId).toList := by
  rw [h, statuses, List.filterMap_map]
  exact db.plans.filterMap_key planId fun plan => plan.status

theorem not_mem_log_opening (h : db.Opening) {e : Event} (he : e ∈ db.log) :
    ∃ planId status, e = .status planId status := by
  rw [h] at he
  obtain ⟨plan, -, rfl⟩ := List.mem_map.1 he
  exact ⟨_, _, rfl⟩

theorem handedIds_opening (h : db.Opening) : handedIds db.log = [] := by
  rw [h, handedIds, List.filterMap_map, List.filterMap_eq_nil_iff]
  exact fun _ _ => rfl

theorem journal_opening (h : db.Opening) : Journal db := by
  refine ⟨⟨?_, ?_, fun id => ?_⟩, fun id => ?_, ?_⟩
  · rw [handedIds_opening h]
    exact List.nodup_nil
  · rw [List.pairwise_iff_forall_sublist]
    rintro e f hsub id actionId s - - rfl
    obtain ⟨_, _, hf⟩ := not_mem_log_opening h
      (hsub.subset (List.mem_cons_of_mem _ (List.mem_singleton_self (Event.touched id actionId))))
    cases hf
  · rw [statuses_opening h]
    cases db.planStatus id with
    | none => exact .nil
    | some s => exact .singleton s
  · rw [statuses_opening h]
    cases db.planStatus id <;> rfl
  · rw [handedIds_opening h]
    nofun

/-- In a run of any number of calls in which no status is written over one the writer has not
read, every action is handed over at most once, no file of a plan is touched once it is
called off, and no plan leaves the paths of its state machine. -/
theorem undisturbed_decided {start c : Config ι Db Call} (hopening : start.store.Opening)
    (hentry : ∀ i, isEntry (start.call i) = true) (h : Run act (alone Undisturbed) start c) :
    Decided c.store.log := by
  suffices hinv : Inv Journal Knows Apart c from hinv.store.decided
  refine h.inv (fun k l hkl id hl hk => hkl id hk hl) ?_ ?_ ?_
  · refine ⟨journal_opening hopening, fun i => ⟨(idle_of_isEntry (hentry i)).legal, ?_⟩, fun i j _ => ?_⟩
    · simp [(idle_of_isEntry (hentry i)).charge]
    · simp [Apart, (idle_of_isEntry (hentry i)).charge]
  · intro db call answer db' call' hjournal hknows hundisturbed hact
    obtain ⟨write, hnext, happly⟩ := act_eq_some hact
    have heffect := next_effect hnext
    exact ⟨hjournal.step heffect happly hknows hundisturbed,
      hknows.step hjournal heffect happly hundisturbed⟩
  · intro db call answer db' call' other hjournal hknows hother hapart hundisturbed hact
    obtain ⟨write, hnext, happly⟩ := act_eq_some hact
    have heffect := next_effect hnext
    refine ⟨⟨hother.legal, fun id hid => ?_⟩, fun id hid => ?_⟩
    · exact (hother.inCharge id hid).frame hjournal heffect happly hknows hundisturbed
        fun hcharge => hapart id hcharge hid
    · rcases heffect.charge id hid with ⟨hcharge, -⟩ | ⟨plan, rfl, -, -, rfl⟩
      · exact hapart id hcharge
      · -- a plan just started was approved until now, so no other call was executing it
        intro hcharge
        have hexecuting := (hother.inCharge plan.id hcharge).executing
        rw [hundisturbed plan.id plan.status rfl, approved_of_canTransition hknows.legal] at hexecuting
        cases hexecuting

/-- An approved plan of one file, and calls that all execute it. -/
def approvedPlan : Config ℕ Db Call where
  store := {
    plans := ⟨[{ id := "plan", runId := "run", policyVersionId := "version", status := .approved
                 action := .trash, retentionDays := none, candidateCount := 1
                 estimatedReclaimBytes := 7, expiresAt := some 1000 }], by decide⟩
    actions := ⟨[{ id := "action", planId := "plan", candidateId := "file"
                   sourcePath := "/media/a.mkv", pinnedFingerprint := "f", actionType := "trash"
                   mediaItemId := none, mediaFileId := some "m", status := .pending
                   skipReason := none }], by decide⟩
    candidates := ⟨[], by decide⟩
    runs := fun _ => none
    versions := fun _ => none
    log := [.status "plan" .approved] }
  call := fun _ => .execute "plan"

/-- Two executions that both read `approved` hand the file over twice. -/
theorem executed_twice : ∃ c, approvedPlan.store.Opening ∧
    (∀ i, isEntry (approvedPlan.call i) = true) ∧ Run act (fun _ _ => True) approvedPlan c ∧
    ¬ Decided c.store.log := by
  obtain ⟨c, hrun, hlog⟩ := run_of_exec_any act (fun _ _ => True) approvedPlan
    ([0, 1, 0, 0, 1, 1, 0, 1, 0, 1].map fun i => (i, {}))
    (fun c => handedIds c.store.log = ["action", "action"]) (by decide +kernel)
  refine ⟨c, rfl, fun _ => rfl, hrun, fun h => ?_⟩
  have hnodup := h.handedOnce
  rw [of_decide_eq_true hlog] at hnodup
  exact absurd hnodup (by decide)

/-- One execution after the other. -/
theorem executed_once : ∃ c, Run act (alone Undisturbed) approvedPlan c ∧
    handedIds c.store.log = ["action"] ∧ Decided c.store.log := by
  obtain ⟨c, hrun, hlog⟩ := run_of_exec_any act (alone Undisturbed) approvedPlan
    ([0, 0, 0, 0, 0, 0, 0, 0, 0, 1].map fun i => (i, {}))
    (fun c => handedIds c.store.log = ["action"]) (by decide +kernel)
  exact ⟨c, hrun, of_decide_eq_true hlog, undisturbed_decided (show approvedPlan.store.Opening from rfl)
    (fun _ => rfl) hrun⟩

end UltraTorrent.Cleanup.PlanRuns
