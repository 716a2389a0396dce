import UltraTorrent.Scheduler.Removal

/-! What a plan may do to a torrent: every torrent gets one decision, the untouchable ones are left
alone, and each kind of action is taken only of torrents that allow it. -/
namespace UltraTorrent.Scheduler.WarrantedActions

open Library Library.EcmaScript
open Occupancy Policy Planner WalkSteps Assignments Removal

/-- The decision is about the torrent, and what it does to it is allowed. -/
structure Warranted (t : PlannerTorrent) (d : TorrentDecision) : Prop where
  hash : d.hash = t.hash
  leaves : t.occupancy ∈ [OccupancyClass.userPaused, .providerPaused, .parked, .excluded, .error,
    .checking, .unknown] → d.action = .none
  pauses : d.action = .pause →
    t.occupancy.holdsTotalActiveSlot = true ∧ t.protectedFromPause = false
  resumes : d.action = .resume →
    t.occupancy ∈ [OccupancyClass.schedulerPaused, .downloadQueued, .seedQueued]
  removes : d.action = .removeAndCleanup → t.complete = true ∧
    t.occupancy.holdsTotalActiveSlot = true ∧ t.protectedFromPause = false ∧
    t.protectedFromRemoval = false

variable {rt : Runtime} {dateNow : String → Instant} {opts : PlannerOptions} {engineId : String}
  {torrents : List PlannerTorrent} {caps : TorrentQueueCapabilities} {limits : Limits}
  {s : Slots} {t : PlannerTorrent} {d : TorrentDecision}

theorem isUntouchable_of_mem {o : OccupancyClass} (h : o ∈ [OccupancyClass.userPaused,
    .providerPaused, .parked, .excluded, .error, .checking, .unknown]) : o.isUntouchable = true := by
  revert o
  decide

theorem mem_of_isResumable {o : OccupancyClass} (h : o.isResumable = true) :
    o ∈ [OccupancyClass.schedulerPaused, .downloadQueued, .seedQueued] := by
  cases o <;> first | exact absurd h (by decide) | simp

/-! ### Single visits -/

/-- The seed rule is silent on a protected torrent, and a full engine does not stop it. -/
theorem visit_pause_unprotected (h : (visit rt dateNow opts limits s t).2.action = .pause) :
    t.protectedFromPause = false := by
  have hactive := visit_pause_active h
  cases hseed : consultSeedTarget rt dateNow opts limits s t with
  | some settled =>
    obtain ⟨-, -, hprotected, -⟩ := consultSeedTarget_some hseed
    exact hprotected
  | none =>
    cases hf : t.forceStarted with
    | true =>
      rw [visit_forced hseed hf, visitForced, if_pos hactive] at h
      cases h
    | false =>
      rw [visit_active hseed hf hactive, visitActive_action] at h
      split_ifs at h with hkept
      simp only [vetoed, Bool.or_eq_true, not_or, Bool.not_eq_true] at hkept
      exact hkept.2.1.1

theorem visit_resume_resumable (hc : t.occupancy.isUntouchable = false)
    (h : (visit rt dateNow opts limits s t).2.action = .resume) : t.occupancy.isResumable = true := by
  obtain hf | hresumable := visit_resume_source hc h
  · rw [OccupancyClass.isResumable_eq_not_active hc]
    cases hactive : t.occupancy.holdsTotalActiveSlot with
    | false => rfl
    | true =>
      cases hseed : consultSeedTarget rt dateNow opts limits s t with
      | some settled =>
        obtain ⟨-, -, -, policy, -, hd⟩ := consultSeedTarget_some hseed
        rw [visit_settled hseed, settleSeed_action] at h
        exact absurd h (seedTargetDecision_action_ne_resume hd)
      | none =>
        rw [visit_forced hseed hf, visitForced, if_pos hactive] at h
        cases h
  · exact hresumable

theorem targetMetDecision_unprotected {policy : SeedingPolicy}
    (h : (targetMetDecision t policy).action = .removeAndCleanup) : t.protectedFromRemoval = false := by
  unfold targetMetDecision at h
  split_ifs at h with himport hcopy hprotected <;>
    simp only [decide_action, reduceCtorEq] at h
  simpa using hprotected

theorem seedTargetDecision_unprotected {policy : SeedingPolicy} {now : Instant}
    {limitations : List SchedulerLimitation} {settled : TorrentDecision × List SchedulerLimitation}
    (h : seedTargetDecision rt dateNow t policy engineId now limitations = some settled)
    (hr : settled.1.action = .removeAndCleanup) : t.protectedFromRemoval = false := by
  unfold seedTargetDecision at h
  dsimp only at h
  split_ifs at h with hdeadline
  · simp only [Bool.and_eq_true, Bool.not_eq_true'] at hdeadline
    exact hdeadline.1.2
  · split at h
    · cases h
    · cases h
      cases hr
    · cases h
      exact targetMetDecision_unprotected hr

theorem visit_warranted (hc : t.occupancy.isUntouchable = false) :
    Warranted t (visit rt dateNow opts limits s t).2 where
  hash := visit_hash
  leaves h := by
    rw [isUntouchable_of_mem h] at hc
    cases hc
  pauses h := ⟨visit_pause_active h, visit_pause_unprotected h⟩
  resumes h := mem_of_isResumable (visit_resume_resumable hc h)
  removes h := by
    obtain ⟨settled, hseed, hr⟩ := visit_removes h
    obtain ⟨hcomplete, hactive, hprotected, policy, -, hd⟩ := consultSeedTarget_some hseed
    exact ⟨hcomplete, hactive, hprotected, seedTargetDecision_unprotected hd hr⟩

theorem Warranted.of_none (hhash : d.hash = t.hash) (hnone : d.action = .none) : Warranted t d where
  hash := hhash
  leaves _ := hnone
  pauses h := by rw [hnone] at h; cases h
  resumes h := by rw [hnone] at h; cases h
  removes h := by rw [hnone] at h; cases h

/-! ### Whole plans -/

theorem assignments_warranted {a : PlannerTorrent × TorrentDecision}
    (h : a ∈ assignments rt dateNow opts engineId torrents caps) : Warranted a.1 a.2 := by
  by_cases hnone : a.2.action = .none
  · exact .of_none (assignments_hash h) hnone
  · obtain ⟨-, v, hv, rfl⟩ := action_place h hnone
    exact visit_warranted (mem_places hv).2

variable (rt dateNow opts engineId torrents caps) in
/-- The decisions of a plan belong to the torrents of the engine one by one, and every one of them
is warranted. -/
theorem planEngine_warranted : ∃ plan : List (PlannerTorrent × TorrentDecision),
    (plan.map Prod.fst).Perm torrents ∧
    plan.map Prod.snd = (planEngine rt dateNow opts engineId torrents caps).decisions ∧
    ∀ a ∈ plan, Warranted a.1 a.2 := by
  refine ⟨assignments rt dateNow opts engineId torrents caps, ?_, assignments_map_snd,
    fun a => assignments_warranted⟩
  rw [assignments_map_fst]
  exact planOrder_perm

end UltraTorrent.Scheduler.WarrantedActions
