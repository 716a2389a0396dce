import UltraTorrent.Scheduler.Planner

/-! What one visit of the planner's walk can do, said once. Every later result about a
plan reads these lemmas instead of the branches of `visit`. -/
namespace UltraTorrent.Scheduler.WalkSteps

open Library.EcmaScript Library.Kleene
open Occupancy Policy Planner

variable {rt : Runtime} {dateNow : String → Instant} {opts : PlannerOptions} {limits : Limits}
  {s : Slots} {t : PlannerTorrent}

/-- Protection, hysteresis or a spent budget keeps a torrent running over the limit. -/
def vetoed (opts : PlannerOptions) (s : Slots) (t : PlannerTorrent) : Bool :=
  t.protectedFromPause || heldFor opts t < opts.minimumActive || !budgetLeft opts s

/-- A waiting torrent is started: it may be resumed, nothing blocks starting it, a slot is
free and an action is left. -/
def starts (opts : PlannerOptions) (limits : Limits) (s : Slots) (t : PlannerTorrent) : Bool :=
  t.occupancy.isResumable && !(!t.complete && t.allowNewDownloads = some false)
    && slotFree limits s t.complete && budgetLeft opts s

/-! ### Seed targets -/

theorem targetMetDecision_action_ne_resume (policy : SeedingPolicy) :
    (targetMetDecision t policy).action ≠ .resume := by
  unfold targetMetDecision
  split_ifs <;> simp

theorem seedTargetDecision_action_ne_resume {policy : SeedingPolicy} {engineId : String}
    {now : Instant} {limitations : List SchedulerLimitation}
    {settled : TorrentDecision × List SchedulerLimitation}
    (h : seedTargetDecision rt dateNow t policy engineId now limitations = some settled) :
    settled.1.action ≠ .resume := by
  unfold seedTargetDecision at h
  dsimp only at h
  split_ifs at h with hdeadline
  · obtain rfl := Option.some.inj h
    simp
  · split at h
    · exact absurd h nofun
    · obtain rfl := Option.some.inj h
      simp
    · obtain rfl := Option.some.inj h
      exact targetMetDecision_action_ne_resume policy

theorem consultSeedTarget_some {settled : TorrentDecision × List SchedulerLimitation}
    (h : consultSeedTarget rt dateNow opts limits s t = some settled) :
    t.complete = true ∧ t.occupancy.holdsTotalActiveSlot = true ∧ t.protectedFromPause = false ∧
      ∃ policy, t.policy.seedPolicy = some policy ∧
        seedTargetDecision rt dateNow t policy limits.engineId opts.now s.limitations = some settled := by
  unfold consultSeedTarget at h
  split_ifs at h with hc
  rw [Option.bind_eq_some_iff] at h
  simp only [Bool.and_eq_true, Bool.not_eq_true'] at hc
  exact ⟨hc.1.1, hc.1.2, hc.2, h⟩

theorem consultSeedTarget_of_not_active (h : t.occupancy.holdsTotalActiveSlot = false) :
    consultSeedTarget rt dateNow opts limits s t = none := by
  simp [consultSeedTarget, h]

/-! ### Branches -/

theorem visitActive_slots : (visitActive opts limits s t).1 =
    if slotFree limits s t.complete || vetoed opts s t then s.occupy t.complete else s.act := by
  unfold visitActive vetoed
  by_cases hheld : heldFor opts t < opts.minimumActive
  · simp only [hheld, decide_true, Bool.or_true, Bool.true_or, if_true]
    split_ifs <;> rfl
  · simp only [hheld, decide_false, Bool.or_false, if_false]
    split_ifs <;> simp_all

theorem visitActive_action : (visitActive opts limits s t).2.action =
    if slotFree limits s t.complete || vetoed opts s t then .none else .pause := by
  unfold visitActive vetoed
  by_cases hheld : heldFor opts t < opts.minimumActive
  · simp only [hheld, decide_true, Bool.or_true, Bool.true_or, if_true]
    split_ifs <;> rfl
  · simp only [hheld, decide_false, Bool.or_false, if_false]
    split_ifs <;> simp_all

theorem visitWaiting_slots : (visitWaiting opts limits s t).1 =
    if starts opts limits s t then s.act.occupy t.complete else s := by
  unfold visitWaiting starts
  split_ifs <;> simp_all

theorem visitWaiting_action : (visitWaiting opts limits s t).2.action =
    if starts opts limits s t then .resume else .none := by
  unfold visitWaiting starts
  split_ifs <;> simp_all

theorem settleSeed_action (settled : TorrentDecision × List SchedulerLimitation) :
    (settleSeed s settled).2 = settled.1 := by
  unfold settleSeed
  split_ifs <;> rfl

theorem targetMetDecision_decides (policy : SeedingPolicy) : ∃ desired action reasonCode values,
    targetMetDecision t policy = decide t desired action reasonCode values := by
  unfold targetMetDecision
  split_ifs <;> exact ⟨_, _, _, _, rfl⟩

theorem seedTargetDecision_decides {policy : SeedingPolicy} {engineId : String} {now : Instant}
    {limitations : List SchedulerLimitation} {settled : TorrentDecision × List SchedulerLimitation}
    (h : seedTargetDecision rt dateNow t policy engineId now limitations = some settled) :
    ∃ desired action reasonCode values, settled.1 = decide t desired action reasonCode values := by
  unfold seedTargetDecision at h
  dsimp only at h
  split_ifs at h
  · obtain rfl := Option.some.inj h
    exact ⟨_, _, _, _, rfl⟩
  · split at h
    · exact absurd h nofun
    · obtain rfl := Option.some.inj h
      exact ⟨_, _, _, _, rfl⟩
    · obtain rfl := Option.some.inj h
      exact targetMetDecision_decides policy

/-- Where no seed rule decides, one of the three branches does. -/
theorem visit_of_silent (hseed : consultSeedTarget rt dateNow opts limits s t = none) :
    visit rt dateNow opts limits s t = visitForced opts s t ∨
      visit rt dateNow opts limits s t = visitActive opts limits s t ∨
      visit rt dateNow opts limits s t = visitWaiting opts limits s t := by
  unfold visit
  rw [hseed]
  dsimp only
  split_ifs
  · exact .inl rfl
  · exact .inr (.inl rfl)
  · exact .inr (.inr rfl)

theorem visitForced_decides : ∃ desired action reasonCode values,
    (visitForced opts s t).2 = decide t desired action reasonCode values := by
  unfold visitForced
  split_ifs <;> exact ⟨_, _, _, _, rfl⟩

theorem visitActive_decides : ∃ desired action reasonCode values,
    (visitActive opts limits s t).2 = decide t desired action reasonCode values := by
  unfold visitActive
  split_ifs <;> exact ⟨_, _, _, _, rfl⟩

theorem visitWaiting_decides : ∃ desired action reasonCode values,
    (visitWaiting opts limits s t).2 = decide t desired action reasonCode values := by
  unfold visitWaiting
  split_ifs <;> exact ⟨_, _, _, _, rfl⟩

theorem visit_decides : ∃ desired action reasonCode values,
    (visit rt dateNow opts limits s t).2 = decide t desired action reasonCode values := by
  cases hseed : consultSeedTarget rt dateNow opts limits s t with
  | some settled =>
    obtain ⟨-, -, -, policy, -, hd⟩ := consultSeedTarget_some hseed
    simp only [visit, hseed]
    rw [settleSeed_action]
    exact seedTargetDecision_decides hd
  | none =>
    rcases visit_of_silent hseed with hvisit | hvisit | hvisit <;> rw [hvisit]
    · exact visitForced_decides
    · exact visitActive_decides
    · exact visitWaiting_decides

theorem visit_hash : (visit rt dateNow opts limits s t).2.hash = t.hash := by
  obtain ⟨desired, action, reasonCode, values, h⟩ := @visit_decides rt dateNow opts limits s t
  rw [h, decide_hash]

theorem visit_settled {settled : TorrentDecision × List SchedulerLimitation}
    (h : consultSeedTarget rt dateNow opts limits s t = some settled) :
    visit rt dateNow opts limits s t = settleSeed s settled := by
  simp only [visit, h]

theorem visit_forced (hseed : consultSeedTarget rt dateNow opts limits s t = none)
    (hf : t.forceStarted = true) :
    visit rt dateNow opts limits s t = visitForced opts s t := by
  simp [visit, hseed, hf]

theorem visit_active (hseed : consultSeedTarget rt dateNow opts limits s t = none)
    (hf : t.forceStarted = false) (hactive : t.occupancy.holdsTotalActiveSlot = true) :
    visit rt dateNow opts limits s t = visitActive opts limits s t := by
  simp [visit, hseed, hf, hactive]

theorem visit_waiting (hf : t.forceStarted = false)
    (hactive : t.occupancy.holdsTotalActiveSlot = false) :
    visit rt dateNow opts limits s t = visitWaiting opts limits s t := by
  simp [visit, consultSeedTarget_of_not_active hactive, hf, hactive]

/-! ### Taking a slot -/

/-- Whether the seed rule leaves the torrent alone; a silent rule leaves the question open. -/
def seedKeeps (rt : Runtime) (dateNow : String → Instant) (opts : PlannerOptions) (limits : Limits)
    (s : Slots) (t : PlannerTorrent) (whenSilent : Bool) : Bool :=
  match consultSeedTarget rt dateNow opts limits s t with
  | some settled => settled.1.action = .none
  | none => whenSilent

/-- A running torrent is left running: its seed rule answered without acting, or stayed
silent and the torrent is within the limit or protected by a veto. -/
def kept (rt : Runtime) (dateNow : String → Instant) (opts : PlannerOptions) (limits : Limits)
    (s : Slots) (t : PlannerTorrent) : Bool :=
  t.occupancy.holdsTotalActiveSlot &&
    seedKeeps rt dateNow opts limits s t (slotFree limits s t.complete || vetoed opts s t)

/-- The visit counts the torrent as running. -/
def takesSlot (rt : Runtime) (dateNow : String → Instant) (opts : PlannerOptions) (limits : Limits)
    (s : Slots) (t : PlannerTorrent) : Bool :=
  starts opts limits s t || kept rt dateNow opts limits s t

theorem not_starts_of_active (hc : t.occupancy.isUntouchable = false)
    (hactive : t.occupancy.holdsTotalActiveSlot = true) : starts opts limits s t = false := by
  simp [starts, OccupancyClass.isResumable_eq_not_active hc, hactive]

theorem takesSlot_settled (hc : t.occupancy.isUntouchable = false)
    {settled : TorrentDecision × List SchedulerLimitation}
    (h : consultSeedTarget rt dateNow opts limits s t = some settled) :
    takesSlot rt dateNow opts limits s t = (settled.1.action == .none) := by
  have hactive := (consultSeedTarget_some h).2.1
  simp only [takesSlot, not_starts_of_active hc hactive, kept, seedKeeps, hactive, h]
  rfl

theorem takesSlot_active (hc : t.occupancy.isUntouchable = false)
    (hseed : consultSeedTarget rt dateNow opts limits s t = none)
    (hactive : t.occupancy.holdsTotalActiveSlot = true) :
    takesSlot rt dateNow opts limits s t = (slotFree limits s t.complete || vetoed opts s t) := by
  simp [takesSlot, not_starts_of_active hc hactive, kept, seedKeeps, hactive, hseed]

theorem takesSlot_waiting (hactive : t.occupancy.holdsTotalActiveSlot = false) :
    takesSlot rt dateNow opts limits s t = starts opts limits s t := by
  simp [takesSlot, kept, hactive]

/-- The counters after a visit to a torrent nobody force-started. -/
theorem visit_counters (hc : t.occupancy.isUntouchable = false) (hf : t.forceStarted = false) :
    let s' := (visit rt dateNow opts limits s t).1
    let takes := takesSlot rt dateNow opts limits s t
    s'.downloads = s.downloads + (if takes && !t.complete then 1 else 0) ∧
    s'.seeds = s.seeds + (if takes && t.complete then 1 else 0) ∧
    s'.total = s.total + (if takes then 1 else 0) := by
  dsimp only
  cases hactive : t.occupancy.holdsTotalActiveSlot with
  | false =>
    rw [visit_waiting hf hactive, takesSlot_waiting hactive, visitWaiting_slots]
    cases starts opts limits s t <;> cases t.complete <;> simp [Slots.act, Slots.occupy]
  | true =>
    cases hseed : consultSeedTarget rt dateNow opts limits s t with
    | none =>
      rw [visit_active hseed hf hactive, takesSlot_active hc hseed hactive, visitActive_slots]
      cases slotFree limits s t.complete || vetoed opts s t <;> cases t.complete <;>
        simp [Slots.act, Slots.occupy]
    | some settled =>
      obtain ⟨hcomplete, -, -, policy, -, hd⟩ := consultSeedTarget_some hseed
      have hne := seedTargetDecision_action_ne_resume hd
      rw [visit_settled hseed, takesSlot_settled hc hseed, settleSeed, hcomplete]
      cases ha : settled.1.action <;> simp_all [Slots.act, Slots.note, Slots.occupy]

theorem visit_resume_iff (hc : t.occupancy.isUntouchable = false) (hf : t.forceStarted = false) :
    (visit rt dateNow opts limits s t).2.action = .resume ↔ starts opts limits s t = true := by
  cases hactive : t.occupancy.holdsTotalActiveSlot with
  | false =>
    rw [visit_waiting hf hactive, visitWaiting_action]
    cases starts opts limits s t <;> simp
  | true =>
    rw [not_starts_of_active hc hactive]
    cases hseed : consultSeedTarget rt dateNow opts limits s t with
    | none =>
      rw [visit_active hseed hf hactive, visitActive_action]
      cases slotFree limits s t.complete || vetoed opts s t <;> simp
    | some settled =>
      obtain ⟨-, -, -, policy, -, hd⟩ := consultSeedTarget_some hseed
      rw [visit_settled hseed, settleSeed_action]
      simpa using seedTargetDecision_action_ne_resume hd

theorem visit_pause_active (h : (visit rt dateNow opts limits s t).2.action = .pause) :
    t.occupancy.holdsTotalActiveSlot = true := by
  by_contra hactive
  rw [Bool.not_eq_true] at hactive
  by_cases hf : t.forceStarted
  · simp only [visit, consultSeedTarget_of_not_active hactive, hf, if_true, visitForced, hactive] at h
    split_ifs at h <;> exact absurd h (by simp)
  · rw [visit_waiting (by simpa using hf) hactive, visitWaiting_action] at h
    split_ifs at h

theorem visit_resume_source (hc : t.occupancy.isUntouchable = false)
    (h : (visit rt dateNow opts limits s t).2.action = .resume) :
    t.forceStarted = true ∨ t.occupancy.isResumable = true := by
  by_cases hf : t.forceStarted
  · exact .inl hf
  · have hstarts := (visit_resume_iff hc (by simpa using hf)).1 h
    simp only [starts, Bool.and_eq_true] at hstarts
    exact .inr hstarts.1.1.1

theorem visit_resume_seed_iff (hc : t.occupancy.isUntouchable = false) (hcomplete : t.complete = true) :
    (visit rt dateNow opts limits s t).2.action = .resume ↔
      t.occupancy.isResumable = true ∧ budgetLeft opts s = true ∧
        (t.forceStarted = true ∨ slotFree limits s true = true) := by
  by_cases hf : t.forceStarted = true
  · rw [OccupancyClass.isResumable_eq_not_active hc]
    cases hactive : t.occupancy.holdsTotalActiveSlot with
    | false =>
      simp only [visit, consultSeedTarget_of_not_active hactive, hf, if_true, visitForced, hactive]
      by_cases hbudget : budgetLeft opts s = true <;> simp [hbudget]
    | true =>
      cases hseed : consultSeedTarget rt dateNow opts limits s t with
      | none => simp [visit, hseed, hf, visitForced, hactive]
      | some settled =>
        obtain ⟨-, -, -, policy, -, hd⟩ := consultSeedTarget_some hseed
        rw [visit_settled hseed, settleSeed_action]
        simpa using seedTargetDecision_action_ne_resume hd
  · rw [visit_resume_iff hc (by simpa using hf)]
    simp only [starts, hcomplete, Bool.not_true, Bool.false_and, Bool.not_false, Bool.and_true,
      Bool.and_eq_true, hf]
    tauto

theorem complete_of_seedTargetReached
    (h : (visit rt dateNow opts limits s t).2.reasonCode = .seedTargetReached) :
    t.complete = true := by
  cases hseed : consultSeedTarget rt dateNow opts limits s t with
  | some settled => exact (consultSeedTarget_some hseed).1
  | none =>
    rcases visit_of_silent hseed with hvisit | hvisit | hvisit <;> rw [hvisit] at h
    · unfold visitForced at h
      split_ifs at h <;> cases h
    · unfold visitActive at h
      split_ifs at h <;> cases h
    · unfold visitWaiting at h
      split_ifs at h <;> cases h

theorem seedTargetDecision_not_limit {policy : SeedingPolicy} {engineId : String}
    {now : Instant} {limitations : List SchedulerLimitation}
    {settled : TorrentDecision × List SchedulerLimitation}
    (h : seedTargetDecision rt dateNow t policy engineId now limitations = some settled) :
    settled.1.reasonCode.isLimit = false := by
  unfold seedTargetDecision at h
  dsimp only at h
  split_ifs at h with hdeadline
  · obtain rfl := Option.some.inj h
    rfl
  · split at h
    · exact absurd h nofun
    · obtain rfl := Option.some.inj h
      rfl
    · obtain rfl := Option.some.inj h
      unfold targetMetDecision
      split_ifs <;> rfl

/-- A running torrent is over its limit and nothing but hysteresis stands in the way of
pausing it. -/
def overLimit (rt : Runtime) (dateNow : String → Instant) (opts : PlannerOptions) (limits : Limits)
    (s : Slots) (t : PlannerTorrent) : Bool :=
  t.occupancy.holdsTotalActiveSlot && (consultSeedTarget rt dateNow opts limits s t).isNone
    && !t.forceStarted && !slotFree limits s t.complete && !t.protectedFromPause
    && budgetLeft opts s

/-- A visit pauses a torrent for a limit exactly when it is over the limit and was not acted
on too recently. -/
theorem visit_limit_iff : (visit rt dateNow opts limits s t).2.reasonCode.isLimit = true ↔
    overLimit rt dateNow opts limits s t = true ∧ ¬ heldFor opts t < opts.minimumActive := by
  unfold overLimit
  cases hseed : consultSeedTarget rt dateNow opts limits s t with
  | some settled =>
    obtain ⟨-, -, -, policy, -, hd⟩ := consultSeedTarget_some hseed
    rw [visit_settled hseed, settleSeed_action, seedTargetDecision_not_limit hd]
    simp
  | none =>
    by_cases hf : t.forceStarted = true
    · simp only [visit, hseed, hf, if_true, visitForced]
      split_ifs <;> simp [ReasonCode.isLimit]
    · cases hactive : t.occupancy.holdsTotalActiveSlot with
      | false =>
        rw [visit_waiting (by simpa using hf) hactive]
        unfold visitWaiting
        split_ifs <;> simp [ReasonCode.isLimit]
      | true =>
        rw [visit_active hseed (by simpa using hf) hactive]
        unfold visitActive
        by_cases hheld : heldFor opts t < opts.minimumActive
        · simp only [hheld, if_true, not_true_eq_false, and_false, iff_false]
          split_ifs <;> simp [ReasonCode.isLimit]
        · simp only [hheld, if_false, hf]
          split_ifs <;> simp_all [ReasonCode.isLimit]

theorem pause_of_limit (h : (visit rt dateNow opts limits s t).2.reasonCode.isLimit = true) :
    (visit rt dateNow opts limits s t).2.action = .pause := by
  have hover := (visit_limit_iff.1 h).1
  unfold overLimit at hover
  simp only [Bool.and_eq_true, Bool.not_eq_true', Option.isNone_iff_eq_none] at hover
  obtain ⟨⟨⟨⟨⟨hactive, hseed⟩, hf⟩, hfull⟩, hprotected⟩, hbudget⟩ := hover
  have hheld := (visit_limit_iff.1 h).2
  rw [visit_active hseed hf hactive, visitActive_action]
  simp [hfull, vetoed, hprotected, hheld, hbudget]

/-- A torrent of the plan runs afterwards: it was running and is neither paused nor
removed, or it is resumed. -/
def leftRunning (t : PlannerTorrent) (d : TorrentDecision) : Bool :=
  ((t.occupancy.holdsDownloadSlot || t.occupancy.holdsSeedSlot)
    && d.action ≠ .pause && d.action ≠ .removeAndCleanup) || d.action = .resume

theorem holdsOwnSlot_eq_active {o : OccupancyClass} (hc : o.isUntouchable = false) :
    (o.holdsDownloadSlot || o.holdsSeedSlot) = o.holdsTotalActiveSlot := by
  cases o <;> first | rfl | exact absurd hc nofun

theorem visit_leftRunning (hc : t.occupancy.isUntouchable = false) (hf : t.forceStarted = false) :
    leftRunning t (visit rt dateNow opts limits s t).2 = takesSlot rt dateNow opts limits s t := by
  unfold leftRunning
  rw [holdsOwnSlot_eq_active hc]
  cases hactive : t.occupancy.holdsTotalActiveSlot with
  | false =>
    rw [visit_waiting hf hactive, takesSlot_waiting hactive, visitWaiting_action]
    cases starts opts limits s t <;> simp
  | true =>
    cases hseed : consultSeedTarget rt dateNow opts limits s t with
    | none =>
      rw [visit_active hseed hf hactive, takesSlot_active hc hseed hactive, visitActive_action]
      cases slotFree limits s t.complete || vetoed opts s t <;> simp
    | some settled =>
      obtain ⟨-, -, -, policy, -, hd⟩ := consultSeedTarget_some hseed
      have hne := seedTargetDecision_action_ne_resume hd
      rw [visit_settled hseed, takesSlot_settled hc hseed, settleSeed_action]
      cases ha : settled.1.action <;> simp_all

end UltraTorrent.Scheduler.WalkSteps
