import UltraTorrent.Scheduler.Assignments

/-! Which torrents a plan removes, and whether their payload was safe by then. A removal
comes from a met target, behind the import and library gates, or from an expired age
deadline, which passes neither. -/
namespace UltraTorrent.Scheduler.Removal

open Library.EcmaScript Library.Kleene
open Occupancy Policy Planner WalkSteps Assignments

/-- What the seed policy asks of a torrent before its payload may be taken away. -/
def GatesOpen (policy : SeedingPolicy) (t : PlannerTorrent) : Prop :=
  (policy.requireImportCompleted = true → t.intakeImported = some true) ∧
  (policy.requireLibraryCopyVerified = true → t.libraryCopyVerified = some true)

instance (policy : SeedingPolicy) (t : PlannerTorrent) : Decidable (GatesOpen policy t) :=
  inferInstanceAs (Decidable (_ ∧ _))

/-- Every torrent the plan removes has passed the gates of its own seed policy. -/
def RemovalsAreSafe (plan : List (PlannerTorrent × TorrentDecision)) : Prop :=
  ∀ a ∈ plan, a.2.action = .removeAndCleanup →
    ∀ policy, a.1.policy.seedPolicy = some policy → GatesOpen policy a.1

/-- The torrent is a running seed whose target is not met and whose deadline has passed,
and nothing protects it. -/
structure AgesOut (rt : Runtime) (dateNow : String → Instant) (now : Instant)
    (policy : SeedingPolicy) (t : PlannerTorrent) : Prop where
  complete : t.complete = true
  running : (t.occupancy.holdsDownloadSlot || t.occupancy.holdsSeedSlot) = true
  notProtectedFromPause : t.protectedFromPause = false
  notProtectedFromRemoval : t.protectedFromRemoval = false
  targetNotMet : evaluateSeedTarget rt policy (seedFactsOf dateNow t) ≠ .yes
  deadlinePassed : evaluateSeedAgeDeadline policy t.completedAt now = .yes

variable {rt : Runtime} {dateNow : String → Instant} {opts : PlannerOptions} {engineId : String}
  {torrents : List PlannerTorrent} {caps : TorrentQueueCapabilities} {limits : Limits}
  {s : Slots} {t : PlannerTorrent} {policy : SeedingPolicy}

/-- A met target removes only behind the open gates. -/
theorem targetMetDecision_gates (h : (targetMetDecision t policy).action = .removeAndCleanup) :
    GatesOpen policy t := by
  unfold targetMetDecision at h
  split_ifs at h with himport hcopy <;> simp only [decide_action, reduceCtorEq] at h
  exact ⟨by simpa using himport, by simpa using hcopy⟩

theorem seedTargetDecision_removes {now : Instant} {limitations : List SchedulerLimitation}
    {settled : TorrentDecision × List SchedulerLimitation}
    (h : seedTargetDecision rt dateNow t policy engineId now limitations = some settled)
    (hr : settled.1.action = .removeAndCleanup) :
    (evaluateSeedTarget rt policy (seedFactsOf dateNow t) ≠ .yes ∧ t.protectedFromRemoval = false ∧
      evaluateSeedAgeDeadline policy t.completedAt now = .yes) ∨ GatesOpen policy t := by
  unfold seedTargetDecision at h
  dsimp only at h
  split_ifs at h with hdeadline
  · left
    simpa [and_assoc] using hdeadline
  · split at h
    · exact absurd h nofun
    · obtain rfl := Option.some.inj h
      exact absurd hr nofun
    · obtain rfl := Option.some.inj h
      exact .inr (targetMetDecision_gates hr)

theorem seedTargetDecision_of_agesOut {now : Instant} (limitations : List SchedulerLimitation)
    (h : AgesOut rt dateNow now policy t) :
    ∃ settled, seedTargetDecision rt dateNow t policy engineId now limitations = some settled ∧
      settled.1.action = .removeAndCleanup := by
  unfold seedTargetDecision
  rw [if_pos (by simp [h.targetNotMet, h.notProtectedFromRemoval, h.deadlinePassed])]
  exact ⟨_, rfl, rfl⟩

theorem visit_removes (h : (visit rt dateNow opts limits s t).2.action = .removeAndCleanup) :
    ∃ settled, consultSeedTarget rt dateNow opts limits s t = some settled ∧
      settled.1.action = .removeAndCleanup := by
  cases hseed : consultSeedTarget rt dateNow opts limits s t with
  | some settled =>
    rw [visit_settled hseed, settleSeed_action] at h
    exact ⟨settled, rfl, h⟩
  | none =>
    cases hf : t.forceStarted with
    | true =>
      rw [visit_forced hseed hf] at h
      unfold visitForced at h
      split_ifs at h <;> exact absurd h nofun
    | false =>
      cases hactive : t.occupancy.holdsTotalActiveSlot with
      | true =>
        rw [visit_active hseed hf hactive, visitActive_action] at h
        split_ifs at h
      | false =>
        rw [visit_waiting hf hactive, visitWaiting_action] at h
        split_ifs at h

theorem place_removes (hc : t.occupancy.isUntouchable = false)
    (h : (visit rt dateNow opts limits s t).2.action = .removeAndCleanup)
    (hpolicy : t.policy.seedPolicy = some policy) :
    AgesOut rt dateNow opts.now policy t ∨ GatesOpen policy t := by
  obtain ⟨settled, hseed, hr⟩ := visit_removes h
  obtain ⟨hcomplete, hactive, hprotected, p, hp, hd⟩ := consultSeedTarget_some hseed
  obtain rfl : p = policy := Option.some.inj (hp.symm.trans hpolicy)
  rw [← holdsOwnSlot_eq_active hc] at hactive
  exact (seedTargetDecision_removes hd hr).imp
    (fun ⟨hv, hu, hdl⟩ => ⟨hcomplete, hactive, hprotected, hu, hv, hdl⟩) id

theorem visit_of_agesOut (hc : t.occupancy.isUntouchable = false)
    (hpolicy : t.policy.seedPolicy = some policy) (h : AgesOut rt dateNow opts.now policy t) :
    (visit rt dateNow opts limits s t).2.action = .removeAndCleanup := by
  have hactive : t.occupancy.holdsTotalActiveSlot = true := by
    rw [← holdsOwnSlot_eq_active hc]
    exact h.running
  obtain ⟨settled, hd, hr⟩ := seedTargetDecision_of_agesOut s.limitations h
  have hseed : consultSeedTarget rt dateNow opts limits s t = some settled := by
    rw [consultSeedTarget, if_pos (by simp [h.complete, hactive, h.notProtectedFromPause]), hpolicy]
    exact hd
  rw [visit_settled hseed, settleSeed_action]
  exact hr

theorem not_untouchable_of_holdsOwnSlot {o : OccupancyClass}
    (h : (o.holdsDownloadSlot || o.holdsSeedSlot) = true) : o.isUntouchable = false := by
  cases o <;> first | rfl | exact absurd h nofun

theorem agesOut_removed (hpause : canDo caps.pause = true) (ht : t ∈ torrents)
    (hpolicy : t.policy.seedPolicy = some policy) (h : AgesOut rt dateNow opts.now policy t) :
    ∃ a ∈ assignments rt dateNow opts engineId torrents caps,
      a.1 = t ∧ a.2.action = .removeAndCleanup := by
  have hc := not_untouchable_of_holdsOwnSlot h.running
  obtain ⟨v, hv, rfl⟩ := @exists_place rt dateNow opts engineId torrents caps t ht hc
  exact ⟨_, (mem_assignments hpause).2 (.inr ⟨v, hv, rfl⟩), rfl, visit_of_agesOut hc hpolicy h⟩

/-- A plan removes no payload before it is safe exactly when every running seed whose age
deadline removes it has passed the gates anyway. -/
theorem removalsAreSafe_iff :
    RemovalsAreSafe (assignments rt dateNow opts engineId torrents caps) ↔
      (canDo caps.pause = true → ∀ t ∈ torrents, ∀ policy, t.policy.seedPolicy = some policy →
        AgesOut rt dateNow opts.now policy t → GatesOpen policy t) := by
  constructor
  · intro h hpause t ht policy hpolicy hages
    obtain ⟨a, ha, rfl, hr⟩ := @agesOut_removed rt dateNow opts engineId torrents caps t policy
      hpause ht hpolicy hages
    exact h a ha hr policy hpolicy
  · intro h a ha hr policy hpolicy
    cases hpause : canDo caps.pause with
    | false =>
      rw [assignments_of_cannot_pause hpause] at ha
      obtain ⟨t, -, rfl⟩ := List.mem_map.1 ha
      exact absurd hr nofun
    | true =>
      obtain ⟨-, hd⟩ | ⟨v, hv, rfl⟩ := (mem_assignments hpause).1 ha
      · rw [hd] at hr
        exact absurd hr nofun
      · obtain ⟨hmem, hc⟩ := mem_places hv
        exact (place_removes hc hr hpolicy).elim (h hpause _ hmem policy hpolicy) id

/-! ### A removal that waits for nothing -/

/-- Removes after thirty days and asks for a finished import first. -/
def importFirst : SeedingPolicy where
  mode := .ratio
  targetRatio := some 2
  afterTarget := .removeTorrentAndStagingData
  requireImportCompleted := true
  maxAgeDays := some 30

/-- A seed below its ratio, complete for thirty-one days, never imported. -/
def agedSeed : PlannerTorrent where
  hash := "s"
  engineId := "e"
  occupancy := .seedActive
  decision := ⟨"s", 0, .normal, []⟩
  policy := { seedPolicy := some importFirst }
  complete := true
  ratio := some 1
  completedAt := some 0
  intakeImported := some false

/-- The age deadline removes the payload although the import never finished. -/
theorem agedSeed_removed_before_import :
    ¬ RemovalsAreSafe (assignments .ascii (fun _ => 31 * 86400000) { now := 31 * 86400000 } "e"
      [agedSeed] ⟨.native, .native, .native⟩) := by
  intro h
  have hages : AgesOut .ascii (fun _ => 31 * 86400000) (31 * 86400000) importFirst agedSeed :=
    ⟨rfl, rfl, rfl, rfl, by decide +kernel, by decide +kernel⟩
  obtain ⟨a, ha, heq, hr⟩ := @agesOut_removed .ascii (fun _ => 31 * 86400000)
    { now := 31 * 86400000 } "e" [agedSeed] ⟨.native, .native, .native⟩ agedSeed importFirst
    rfl List.mem_cons_self rfl hages
  have hgates := h a ha hr importFirst (by rw [heq]; rfl)
  rw [heq] at hgates
  exact absurd (hgates.1 rfl) (by decide)

end UltraTorrent.Scheduler.Removal
