import UltraTorrent.Acquisition.Approvals

/-! One decision and one download for an evaluation, as long as no call writes over what
another one has decided since it looked. -/
namespace UltraTorrent.Acquisition.OneDownload

open Library Library.Interleaving Approvals

def adds : Request → Option String
  | .add actionId _ => some actionId
  | .remove _ => none

/-- The actions whose release the engine has been asked to add. -/
def asked (s : Store) : List String := s.requests.filterMap adds

/-- Approve or reject has returned successfully. -/
def Decided (call : Call) : Prop := call = .approved ∨ call = .rejected

instance (call : Call) : Decidable (Decided call) := inferInstanceAs (Decidable (_ ∨ _))

variable {ι : Type*}

structure Once (c : Config ι Store Call) : Prop where
  decided : ∀ i j, Decided (c.call i) → Decided (c.call j) → i = j
  added : (asked c.store).Nodup
  rejected : ∀ i, c.call i = .rejected → asked c.store = []

/-- The evaluation is still pending when a decision on it is written; and an action is still
pending when it is switched to running, and its evaluation neither pending nor rejected. -/
def Unraced (s : Store) : Call → Prop
  | .approving | .rejecting => s.approvalStatus = .pending
  | .starting _ action _ _ =>
    (s.actions.find action.id).map (·.status) = some .pending ∧ s.approvalStatus ≠ .pending ∧
      s.approvalStatus ≠ .rejected
  | _ => True

instance (s : Store) (call : Call) : Decidable (Unraced s call) := by
  cases call <;> unfold Unraced <;> infer_instance

/-! ### What a call holds -/

def hasDecided : Call → Bool
  | .executeForEvaluation .approval | .executeAction .approval _ | .readingEvaluation .approval _
  | .refusing .approval _ | .starting .approval _ _ _ | .choosing .approval _ _ _
  | .adding .approval _ _ _ | .superseding .approval _ _ _ | .completing .approval _ _ _
  | .failing .approval _ _ | .approved | .rejected => true
  | _ => false

def claimed : Call → Option String
  | .choosing _ action _ _ | .adding _ action _ _ => some action.id
  | _ => none

def statusOf (s : Store) (actionId : String) : Option ActionStatus :=
  (s.actions.find actionId).map (·.status)

/-- What is known of a call by what the store says. -/
structure Backed (s : Store) (call : Call) : Prop where
  decided : hasDecided call = true → s.approvalStatus ≠ .pending
  rejected : call = .rejected → s.approvalStatus = .rejected
  unclaimed : ∀ actionId, claimed call = some actionId →
    statusOf s actionId ≠ some .pending ∧ actionId ∉ asked s ∧ s.approvalStatus ≠ .pending ∧
      s.approvalStatus ≠ .rejected

/-- Two calls have not both decided, and are not after one action. -/
def Apart (k l : Call) : Prop :=
  ¬ (hasDecided k = true ∧ hasDecided l = true) ∧
    ∀ actionId, claimed k = some actionId → claimed l ≠ some actionId

structure Sound (s : Store) : Prop where
  added : (asked s).Nodup
  spent : ∀ actionId ∈ asked s, statusOf s actionId ≠ some .pending
  undecided : s.approvalStatus = .pending ∨ s.approvalStatus = .rejected → asked s = []

/-! ### What one action of a call does -/

/-- A call that goes on without a new decision and without another action in hand. -/
structure Follows (call call' : Call) : Prop where
  decided : hasDecided call' = true → hasDecided call = true
  not_rejected : call' ≠ .rejected
  claimed : ∀ actionId, claimed call' = some actionId → OneDownload.claimed call = some actionId

inductive Effect (s : Store) (call : Call) : Store → Call → Prop
  | keep {call' : Call} : Follows call call' → Effect s call s call'
  | approve : call = .approving →
      Effect s call { s with approvalStatus := .approved } (.executeForEvaluation .approval)
  | reject : call = .rejecting → Effect s call { s with approvalStatus := .rejected } .rejected
  | start {caller : Caller} {action : Action} {url : String} {decision : Decision} :
      call = .starting caller action url decision →
      Effect s call (s.setStatus action.id .running) (.choosing caller action url decision)
  | add {actionId url : String} {call' : Call} : claimed call = some actionId → claimed call' = none →
      Follows call call' → Effect s call (s.ask (.add actionId url)) call'
  | remove {hash : String} {call' : Call} : Follows call call' →
      Effect s call (s.ask (.remove hash)) call'
  | settle {actionId : String} {status : ActionStatus} {call' : Call} : status ≠ .pending →
      Follows call call' → Effect s call (s.setStatus actionId status) call'

variable {s s' : Store} {call call' : Call} {answer : Answer}

section Follows

attribute [local simp] hasDecided

theorem follows_of_claimed_none (hdecided : hasDecided call' = true → hasDecided call = true)
    (hrejected : call' ≠ .rejected) (hclaimed : claimed call' = none) : Follows call call' :=
  ⟨hdecided, hrejected, fun _ h => by rw [hclaimed] at h; cases h⟩

theorem follows_threw {message : String} : Follows call (.threw message) :=
  follows_of_claimed_none (by simp) (by simp) rfl

/-- An execution gives its caller no more than its caller had. -/
theorem follows_finish {result : ExecutionResult} {caller : Caller}
    (h : caller = .approval → hasDecided call = true) : Follows call (finish result caller) := by
  cases caller with
  | direct => exact follows_of_claimed_none (by simp [finish]) (by simp [finish]) rfl
  | approval => exact follows_of_claimed_none (fun _ => h rfl) (by simp [finish]) rfl

theorem follows_admission {caller : Caller} {action : Option Action}
    (h : caller = .approval → hasDecided call = true) : Follows call (admission caller action) := by
  unfold admission
  cases action with
  | none => exact follows_finish h
  | some action =>
    dsimp only
    split_ifs
    · exact follows_finish h
    · exact follows_finish h
    · cases caller with
      | direct => exact follows_of_claimed_none (by simp) (by simp) rfl
      | approval => exact follows_of_claimed_none (fun _ => h rfl) (by simp) rfl

theorem follows_added {caller : Caller} (action : Action) (decision : Decision) (hash : String)
    (h : caller = .approval → hasDecided call = true) :
    Follows call (added caller action decision hash) ∧ claimed (added caller action decision hash) = none := by
  have hcompleting : ∀ removed, Follows call (.completing caller action.id hash removed) := by
    intro removed
    cases caller with
    | direct => exact follows_of_claimed_none (by simp) (by simp) rfl
    | approval => exact follows_of_claimed_none (fun _ => h rfl) (by simp) rfl
  unfold added
  split
  · exact ⟨hcompleting _, rfl⟩
  · split_ifs
    · refine ⟨?_, rfl⟩
      cases caller with
      | direct => exact follows_of_claimed_none (by simp) (by simp) rfl
      | approval => exact follows_of_claimed_none (fun _ => h rfl) (by simp) rfl
    · exact ⟨hcompleting _, rfl⟩

theorem answered_effect {next : Store × Call} (h : Effect s call next.1 next.2) :
    Effect s call (answered s answer next).1 (answered s answer next).2 := by
  unfold answered
  cases answer.error with
  | some message => exact .keep follows_threw
  | none => exact h

theorem failing_follows {caller : Caller} {actionId message : String}
    (h : caller = .approval → hasDecided call = true) : Follows call (.failing caller actionId message) := by
  cases caller with
  | direct => exact follows_of_claimed_none (by simp) (by simp) rfl
  | approval => exact follows_of_claimed_none (fun _ => h rfl) (by simp) rfl

theorem failed_effect {caller : Caller} {actionId error : String}
    (h : caller = .approval → hasDecided call = true) :
    Effect s call (if answer.error.isSome then s else s.setStatus actionId .failed)
      (finish (.failed error) caller) := by
  split_ifs
  · exact .keep (follows_finish h)
  · exact .settle (by simp) (follows_finish h)

theorem act_effect {next : Store × Call} (h : act s call answer = some next) :
    Effect s call next.1 next.2 := by
  cases call with
  | approve | reject =>
    cases h
    refine answered_effect ?_
    split_ifs
    · exact .keep follows_threw
    · exact .keep (follows_of_claimed_none (by simp) (by simp) rfl)
  | approving =>
    cases h
    exact answered_effect (.approve rfl)
  | rejecting =>
    cases h
    exact answered_effect (.reject rfl)
  | executeForEvaluation caller =>
    cases h
    refine answered_effect (.keep ?_)
    have hcaller : caller = .approval → hasDecided (.executeForEvaluation caller) = true := by
      rintro rfl
      rfl
    dsimp only
    split
    · exact follows_finish hcaller
    · exact follows_of_claimed_none (by cases caller <;> simp) (by simp) rfl
  | executeAction caller actionId =>
    cases h
    refine answered_effect (.keep (follows_admission ?_))
    rintro rfl
    rfl
  | readingEvaluation caller action =>
    cases h
    refine answered_effect (.keep ?_)
    dsimp only
    split <;> exact follows_of_claimed_none (by cases caller <;> simp) (by simp) rfl
  | refusing caller action =>
    cases h
    refine failed_effect ?_
    rintro rfl
    rfl
  | starting caller action url decision =>
    cases h
    exact answered_effect (.start rfl)
  | choosing caller action url decision =>
    cases h
    refine .keep ?_
    split
    · refine failing_follows ?_
      rintro rfl
      rfl
    · exact ⟨by cases caller <;> simp, by simp, fun _ h => h⟩
  | adding caller action url decision =>
    cases h
    have hcaller : caller = .approval → hasDecided (.adding caller action url decision) = true := by
      rintro rfl
      rfl
    split
    · exact .add rfl rfl (failing_follows hcaller)
    · obtain ⟨hfollows, hclaimed⟩ := follows_added action decision answer.hash hcaller
      exact .add rfl hclaimed hfollows
  | superseding caller actionId hash superseded =>
    cases h
    refine .remove ?_
    split
    · refine failing_follows ?_
      rintro rfl
      rfl
    · exact follows_of_claimed_none (by cases caller <;> simp) (by simp) rfl
  | completing caller actionId hash removed =>
    cases h
    have hcaller : caller = .approval → hasDecided (.completing caller actionId hash removed) = true := by
      rintro rfl
      rfl
    split
    · exact .keep (failing_follows hcaller)
    · exact .settle (by simp) (follows_finish hcaller)
  | failing caller actionId error =>
    cases h
    refine failed_effect ?_
    rintro rfl
    rfl
  | approved | rejected | executed _ | threw _ => cases h

end Follows

/-! ### What it leaves -/

theorem statusOf_setStatus {actionId other : String} {status : ActionStatus} (h : status ≠ .pending)
    (hother : statusOf s other ≠ some .pending) : statusOf (s.setStatus actionId status) other ≠ some .pending := by
  have hrow : (s.actions.updateAt actionId fun a => { a with status }).find other =
      (s.actions.find other).map fun a => if a.id = actionId then { a with status } else a :=
    Table.find_update _ _
  unfold statusOf at hother ⊢
  rw [show (s.setStatus actionId status).actions = s.actions.updateAt actionId fun a => { a with status }
    from rfl, hrow]
  cases hfind : s.actions.find other with
  | none => simp
  | some a =>
    rw [hfind] at hother
    simp only [Option.map_some, ne_eq, Option.some.injEq] at hother ⊢
    split_ifs
    · exact h
    · exact hother

theorem statusOf_setStatus_self {actionId : String} {status : ActionStatus} (h : status ≠ .pending) :
    statusOf (s.setStatus actionId status) actionId ≠ some .pending := by
  have hrow : (s.actions.updateAt actionId fun a => { a with status }).find actionId =
      (s.actions.find actionId).map fun a => { a with status } := Table.find_updateAt_self _
  unfold statusOf
  rw [show (s.setStatus actionId status).actions = s.actions.updateAt actionId fun a => { a with status }
    from rfl, hrow]
  cases s.actions.find actionId with
  | none => simp
  | some a => simpa using h

theorem asked_add {actionId url : String} : asked (s.ask (.add actionId url)) = asked s ++ [actionId] := by
  simp [asked, Store.ask, adds]

theorem asked_remove {hash : String} : asked (s.ask (.remove hash)) = asked s := by
  simp [asked, Store.ask, adds]

theorem Backed.follows (h : Backed s call) (hfollows : Follows call call') : Backed s call' where
  decided hd := h.decided (hfollows.decided hd)
  rejected hr := absurd hr hfollows.not_rejected
  unclaimed actionId hclaimed := h.unclaimed actionId (hfollows.claimed actionId hclaimed)

theorem Apart.follows {other : Call} (h : Apart call other) (hfollows : Follows call call') :
    Apart call' other :=
  ⟨fun hd => h.1 ⟨hfollows.decided hd.1, hd.2⟩,
    fun actionId hclaimed => h.2 actionId (hfollows.claimed actionId hclaimed)⟩

theorem Backed.setStatus {actionId : String} {status : ActionStatus} (h : Backed s call)
    (hstatus : status ≠ .pending) : Backed (s.setStatus actionId status) call where
  decided := h.decided
  rejected := h.rejected
  unclaimed id hclaimed :=
    ⟨statusOf_setStatus hstatus (h.unclaimed id hclaimed).1, (h.unclaimed id hclaimed).2⟩

theorem Sound.setStatus {actionId : String} {status : ActionStatus} (h : Sound s)
    (hstatus : status ≠ .pending) : Sound (s.setStatus actionId status) where
  added := h.added
  spent id hid := statusOf_setStatus hstatus (h.spent id hid)
  undecided := h.undecided

theorem Effect.own (heffect : Effect s call s' call') (hunraced : Unraced s call) (hsound : Sound s)
    (hbacked : Backed s call) : Sound s' ∧ Backed s' call' := by
  cases heffect with
  | keep hfollows => exact ⟨hsound, hbacked.follows hfollows⟩
  | approve hcall =>
    subst hcall
    refine ⟨⟨hsound.added, hsound.spent, by simp⟩, ⟨by simp, by simp, by simp [claimed]⟩⟩
  | reject hcall =>
    subst hcall
    exact ⟨⟨hsound.added, hsound.spent, fun _ => hsound.undecided (.inl hunraced)⟩,
      ⟨by simp, by simp, by simp [claimed]⟩⟩
  | @start caller action url decision hcall =>
    subst hcall
    obtain ⟨hpending, hundecided⟩ := hunraced
    refine ⟨hsound.setStatus (by simp), ⟨?_, by simp, ?_⟩⟩
    · intro hd
      exact hbacked.decided (by cases caller <;> simp_all [hasDecided])
    · rintro actionId ⟨⟩
      exact ⟨statusOf_setStatus_self (by simp), fun hmem => hsound.spent _ hmem hpending, hundecided⟩
  | @add actionId url call' hclaimed hnone hfollows =>
    obtain ⟨hspent, hnew, hpending, hrejected⟩ := hbacked.unclaimed actionId hclaimed
    refine ⟨⟨?_, ?_, fun hstatus => absurd hstatus (not_or.2 ⟨hpending, hrejected⟩)⟩, ⟨?_, ?_, ?_⟩⟩
    · rw [asked_add, List.nodup_append]
      exact ⟨hsound.added, List.nodup_singleton _, fun id hid other hother => by
        rw [List.mem_singleton.1 hother]
        exact fun heq => hnew (heq ▸ hid)⟩
    · intro id hid
      rw [asked_add, List.mem_append, List.mem_singleton] at hid
      rcases hid with hold | rfl
      · exact hsound.spent id hold
      · exact hspent
    · exact fun hd => hbacked.decided (hfollows.decided hd)
    · exact fun hr => absurd hr hfollows.not_rejected
    · intro id hid
      rw [hnone] at hid
      cases hid
  | remove hfollows =>
    have hfollowed := hbacked.follows hfollows
    exact ⟨⟨by rw [asked_remove]; exact hsound.added, by rw [asked_remove]; exact hsound.spent,
        by rw [asked_remove]; exact hsound.undecided⟩,
      ⟨hfollowed.decided, hfollowed.rejected, by rw [asked_remove]; exact hfollowed.unclaimed⟩⟩
  | settle hstatus hfollows => exact ⟨hsound.setStatus hstatus, (hbacked.follows hfollows).setStatus hstatus⟩

theorem Effect.other {other : Call} (heffect : Effect s call s' call') (hunraced : Unraced s call)
    (hother : Backed s other) (hapart : Apart call other) : Backed s' other ∧ Apart call' other := by
  cases heffect with
  | keep hfollows => exact ⟨hother, hapart.follows hfollows⟩
  | approve hcall =>
    subst hcall
    have hpending : s.approvalStatus = .pending := hunraced
    refine ⟨⟨by simp, fun hr => ?_, fun id hid => absurd hpending (hother.unclaimed id hid).2.2.1⟩,
      fun hd => hother.decided hd.2 hpending, by simp [claimed]⟩
    rw [hother.rejected hr] at hpending
    cases hpending
  | reject hcall =>
    subst hcall
    have hpending : s.approvalStatus = .pending := hunraced
    exact ⟨⟨by simp, by simp, fun id hid => absurd hpending (hother.unclaimed id hid).2.2.1⟩,
      fun hd => hother.decided hd.2 hpending, by simp [claimed]⟩
  | @start caller action url decision hcall =>
    subst hcall
    refine ⟨hother.setStatus (by simp), fun hd => hapart.1 ⟨?_, hd.2⟩, ?_⟩
    · have hd := hd.1
      cases caller <;> simp_all [hasDecided]
    · rintro actionId ⟨⟩ hclaimed
      exact (hother.unclaimed _ hclaimed).1 hunraced.1
  | @add actionId url call' hclaimed hnone hfollows =>
    refine ⟨⟨hother.decided, hother.rejected, fun id hid => ?_⟩, hapart.follows hfollows⟩
    obtain ⟨hspent, hnew, hdecided⟩ := hother.unclaimed id hid
    refine ⟨hspent, ?_, hdecided⟩
    rw [asked_add, List.mem_append, List.mem_singleton]
    rintro (hold | rfl)
    · exact hnew hold
    · exact hapart.2 _ hclaimed hid
  | remove hfollows =>
    exact ⟨⟨hother.decided, hother.rejected, by rw [asked_remove]; exact hother.unclaimed⟩,
      hapart.follows hfollows⟩
  | settle hstatus hfollows => exact ⟨hother.setStatus hstatus, hapart.follows hfollows⟩

/-! ### Runs -/

variable [DecidableEq ι]

/-- Nothing has been asked of the engine yet, and every call is at its start. -/
structure Fresh (c : Config ι Store Call) : Prop where
  requests : c.store.requests = []
  entry : ∀ i, isEntry (c.call i) = true

/-- In a run of any number of calls that never write over what another has decided since they
looked, there is one decision and one download. -/
theorem unraced_once {start c : Config ι Store Call} (hfresh : Fresh start)
    (h : Run act (alone Unraced) start c) : Once c := by
  have hinv : Inv Sound Backed Apart c := by
    refine h.inv (fun k l hkl => ⟨fun hd => hkl.1 hd.symm, fun id hl hk => hkl.2 id hk hl⟩) ?_ ?_ ?_
    · have hasked : asked start.store = [] := by simp [asked, hfresh.requests]
      have hentry : ∀ i, hasDecided (start.call i) = false ∧ claimed (start.call i) = none := by
        intro i
        have hi := hfresh.entry i
        cases hcall : start.call i <;> rw [hcall] at hi <;> simp_all [isEntry, hasDecided, claimed]
        cases ‹Caller› <;> simp_all
      refine ⟨⟨by simp [hasked], by simp [hasked], fun _ => hasked⟩, fun i => ⟨?_, ?_, ?_⟩, fun i j _ => ⟨?_, ?_⟩⟩
      · simp [(hentry i).1]
      · intro hr
        have hd := (hentry i).1
        rw [hr] at hd
        cases hd
      · simp [(hentry i).2]
      · simp [(hentry i).1]
      · simp [(hentry i).2]
    · intro s k answer s' k' hsound hbacked hunraced hact
      exact (act_effect hact).own hunraced hsound hbacked
    · intro s k answer s' k' l _ _ hother hapart hunraced hact
      exact (act_effect hact).other hunraced hother hapart
  have hdecides : ∀ call, Decided call → hasDecided call = true := by
    rintro call (rfl | rfl) <;> rfl
  refine ⟨fun i j hi hj => ?_, hinv.store.added, fun i hi => ?_⟩
  · by_contra hne
    exact (hinv.pair i j hne).1 ⟨hdecides _ hi, hdecides _ hj⟩
  · exact hinv.store.undecided (.inr ((hinv.call i).rejected hi))

/-- A held evaluation with its download, one request to approve it and others to reject it. -/
def held : Config ℕ Store Call where
  store :=
    { approvalStatus := .pending
      decision := .holdForApproval
      actions := ⟨[{ id := "action", actionType := "download_torrent", status := .pending
                     payload := { downloadUrl := some "magnet:?xt=urn:btih:aa" }, createdAt := 0 }],
        by decide⟩
      requests := [] }
  call := fun i => if i = 0 then .approve else .reject

theorem held_fresh : Fresh held := by
  refine ⟨rfl, fun i => ?_⟩
  unfold held
  dsimp only
  split_ifs <;> rfl

/-- Both requests find it pending: it is rejected, and downloaded all the same. -/
theorem rejected_downloaded : ∃ c, Fresh held ∧ Run act (fun _ _ => True) held c ∧ ¬ Once c := by
  obtain ⟨c, hrun, hboth⟩ := run_of_exec_any act (fun _ _ => True) held
    ([0, 1, 1, 0, 0, 0, 0, 0, 0, 0, 0].map fun i => (i, { hash := "aa" }))
    (fun c => c.call 0 = .approved && c.call 1 = .rejected && asked c.store ≠ []) (by decide +kernel)
  simp only [Bool.and_eq_true, decide_eq_true_eq] at hboth
  exact ⟨c, held_fresh, hrun, fun h => hboth.2 (h.rejected 1 hboth.1.2)⟩

/-- A rejection that comes after the approval is refused. -/
theorem approved_downloaded_once : ∃ c, Run act (alone Unraced) held c ∧ asked c.store = ["action"] ∧ Once c := by
  obtain ⟨c, hrun, hasked⟩ := run_of_exec_any act (alone Unraced) held
    ([0, 0, 0, 0, 0, 0, 0, 0, 0, 1].map fun i => (i, { hash := "aa" }))
    (fun c => asked c.store = ["action"]) (by decide +kernel)
  exact ⟨c, hrun, of_decide_eq_true hasked, unraced_once held_fresh hrun⟩

end UltraTorrent.Acquisition.OneDownload
