import UltraTorrent.Scheduler.Assignments

/-! What the host's own clock decides in a plan. It is read for the age of a seed, which the
conditions of a seed rule may ask for; the age deadline, like everything else, goes by the
injected clock. -/
namespace UltraTorrent.Scheduler.HostClock

open Library Library.EcmaScript Library.Kleene
open Occupancy Policy SeedConditions Planner WalkSteps Assignments

variable (rt : Runtime) (dateNow dateNow' : String → Instant) (opts : PlannerOptions)
  (engineId : String) (torrents : List PlannerTorrent) (caps : TorrentQueueCapabilities)

/-- The seed rule of the torrent is consulted. -/
def consulted (t : PlannerTorrent) : Bool :=
  !t.occupancy.isUntouchable && t.complete && t.occupancy.holdsTotalActiveSlot
    && !t.protectedFromPause

/-- The age deadline removes a seed that has not met its target, whatever else its rule says. -/
def expires (now : Instant) (t : PlannerTorrent) (policy : SeedingPolicy) : Prop :=
  t.protectedFromRemoval = false ∧ evaluateSeedAgeDeadline policy t.completedAt now = .yes

/-- Two readings of the host's clock come to the same about a seed: its rule answers the same, or
the deadline settles it without an answer. -/
def SameAtBoth (t : PlannerTorrent) (policy : SeedingPolicy) : Prop :=
  let verdict := evaluateSeedTarget rt policy (seedFactsOf dateNow t)
  let verdict' := evaluateSeedTarget rt policy (seedFactsOf dateNow' t)
  verdict = verdict' ∨ verdict ≠ .yes ∧ verdict' ≠ .yes ∧ expires opts.now t policy

variable {rt dateNow dateNow' opts engineId torrents caps} {limits : Limits} {s s' : Slots}
  {t : PlannerTorrent} {policy : SeedingPolicy}

/-! ### One seed -/

def ruled (rt : Runtime) (now : Instant) (t : PlannerTorrent) (policy : SeedingPolicy)
    (verdict : SeedTargetVerdict) : Option TorrentDecision :=
  if verdict ≠ .yes && !t.protectedFromRemoval
      && evaluateSeedAgeDeadline policy t.completedAt now = .yes then
    some (decide t .removed .removeAndCleanup .seedAgeDeadlineReached
      [("maxAgeDays", .ofOption number policy.maxAgeDays),
       ("completedAt", .ofOption (fun at_ => .string (rt.toISOString at_)) t.completedAt),
       ("ratio", .ofOption number t.ratio)])
  else match verdict with
    | .no => none
    | .unknown => some (decide t .active .none .seedTargetUnknown)
    | .yes => some (targetMetDecision t policy)

theorem seedTargetDecision_fst {now : Instant} {limitations : List SchedulerLimitation} :
    (seedTargetDecision rt dateNow t policy engineId now limitations).map Prod.fst =
      ruled rt now t policy (evaluateSeedTarget rt policy (seedFactsOf dateNow t)) := by
  unfold seedTargetDecision ruled
  dsimp only
  split_ifs
  · rfl
  · cases evaluateSeedTarget rt policy (seedFactsOf dateNow t) <;> rfl

/-- The decision of a met target is neither that of an undecided one nor that of the deadline. -/
theorem targetMetDecision_reason : (targetMetDecision t policy).reasonCode ≠ .seedTargetUnknown ∧
    (targetMetDecision t policy).reasonCode ≠ .seedAgeDeadlineReached := by
  unfold targetMetDecision
  split_ifs <;> simp

theorem expires_iff {now : Instant} : expires now t policy ↔ (!t.protectedFromRemoval
    && Decidable.decide (evaluateSeedAgeDeadline policy t.completedAt now = .yes)) = true := by
  simp [expires]

theorem ruled_of_expires {now : Instant} {v v' : SeedTargetVerdict} (hv : v ≠ .yes)
    (hv' : v' ≠ .yes) (h : expires now t policy) :
    ruled rt now t policy v = ruled rt now t policy v' := by
  have h := expires_iff.1 h
  unfold ruled
  rw [Bool.and_assoc, Bool.and_assoc, h]
  simp [hv, hv']

theorem eq_of_ruled_eq {now : Instant} {v v' : SeedTargetVerdict}
    (h : ruled rt now t policy v = ruled rt now t policy v') :
    v = v' ∨ v ≠ .yes ∧ v' ≠ .yes ∧ expires now t policy := by
  obtain ⟨hunknown, hdeadline⟩ := @targetMetDecision_reason t policy
  have hreason := congrArg (Option.map (·.reasonCode)) h
  simp only [ruled, Bool.and_assoc] at hreason
  cases hexpires : (!t.protectedFromRemoval
      && Decidable.decide (evaluateSeedAgeDeadline policy t.completedAt now = .yes)) with
  | true =>
    rw [hexpires] at hreason
    have hexpires := expires_iff.2 hexpires
    cases v <;> cases v' <;> simp_all [Ne.symm hdeadline]
  | false =>
    rw [hexpires] at hreason
    cases v <;> cases v' <;> simp_all [Ne.symm hunknown]

theorem ruled_eq_iff {now : Instant} {v v' : SeedTargetVerdict} :
    ruled rt now t policy v = ruled rt now t policy v' ↔
      v = v' ∨ v ≠ .yes ∧ v' ≠ .yes ∧ expires now t policy := by
  refine ⟨eq_of_ruled_eq, ?_⟩
  rintro (rfl | ⟨hv, hv', h⟩)
  · rfl
  · exact ruled_of_expires hv hv' h

/-! ### The walk -/

/-- What the seed rule of a torrent decides, if it is consulted and answers. -/
def settledBy (rt : Runtime) (dateNow : String → Instant) (now : Instant) (t : PlannerTorrent) :
    Option TorrentDecision :=
  if t.complete && t.occupancy.holdsTotalActiveSlot && !t.protectedFromPause then
    t.policy.seedPolicy.bind fun policy =>
      ruled rt now t policy (evaluateSeedTarget rt policy (seedFactsOf dateNow t))
  else none

theorem consultSeedTarget_fst : (consultSeedTarget rt dateNow opts limits s t).map Prod.fst =
    settledBy rt dateNow opts.now t := by
  unfold consultSeedTarget settledBy
  split_ifs
  · cases t.policy.seedPolicy with
    | none => rfl
    | some policy => exact seedTargetDecision_fst
  · rfl

def isSeedReason : ReasonCode → Bool
  | .seedAgeDeadlineReached | .seedTargetUnknown | .seedTargetWaitingForImport
  | .seedTargetWaitingForLibraryCopy | .protectedFromRemoval | .seedTargetReachedRemoved
  | .seedTargetReachedLeftActive | .seedTargetReached => true
  | _ => false

theorem isSeedReason_ruled {now : Instant} {v : SeedTargetVerdict} {d : TorrentDecision}
    (h : ruled rt now t policy v = some d) : isSeedReason d.reasonCode = true := by
  unfold ruled at h
  split_ifs at h
  · obtain rfl := Option.some.inj h
    rfl
  · cases v with
    | no => cases h
    | unknown =>
      obtain rfl := Option.some.inj h
      rfl
    | yes =>
      obtain rfl := Option.some.inj h
      unfold targetMetDecision
      split_ifs <;> rfl

theorem isSeedReason_settledBy {now : Instant} {d : TorrentDecision}
    (h : settledBy rt dateNow now t = some d) : isSeedReason d.reasonCode = true := by
  unfold settledBy at h
  split_ifs at h
  obtain ⟨policy, -, hruled⟩ := Option.bind_eq_some_iff.1 h
  exact isSeedReason_ruled hruled

/-- A visit decides what the seed rule decides, and for other reasons when it is silent. -/
theorem visit_decision : (visit rt dateNow opts limits s t).2 =
    (settledBy rt dateNow opts.now t).getD (visit rt dateNow opts limits s t).2 ∧
    isSeedReason (visit rt dateNow opts limits s t).2.reasonCode =
      (settledBy rt dateNow opts.now t).isSome := by
  have hfst := @consultSeedTarget_fst rt dateNow opts limits s t
  cases hseed : consultSeedTarget rt dateNow opts limits s t with
  | some settled =>
    rw [hseed, Option.map_some] at hfst
    rw [visit_settled hseed, settleSeed_action, ← hfst]
    exact ⟨rfl, isSeedReason_settledBy hfst.symm⟩
  | none =>
    rw [hseed, Option.map_none] at hfst
    rw [← hfst]
    refine ⟨rfl, ?_⟩
    rcases visit_of_silent hseed with hvisit | hvisit | hvisit <;> rw [hvisit]
    · unfold visitForced
      split_ifs <;> rfl
    · unfold visitActive
      split_ifs <;> rfl
    · unfold visitWaiting
      split_ifs <;> rfl

theorem visit_note_congr (hsettled : settledBy rt dateNow opts.now t = settledBy rt dateNow' opts.now t)
    (hs : s.note [] = s'.note []) :
    (visit rt dateNow opts limits s t).2 = (visit rt dateNow' opts limits s' t).2 ∧
      (visit rt dateNow opts limits s t).1.note [] = (visit rt dateNow' opts limits s' t).1.note [] := by
  have hfst := @consultSeedTarget_fst rt dateNow opts limits s t
  have hfst' := @consultSeedTarget_fst rt dateNow' opts limits s' t
  rw [← hsettled] at hfst'
  obtain ⟨d, e, f, n, l⟩ := s
  obtain ⟨d', e', f', n', l'⟩ := s'
  cases hs
  cases hdecision : settledBy rt dateNow opts.now t with
  | some d =>
    rw [hdecision] at hfst hfst'
    obtain ⟨settled, hseed, rfl⟩ := Option.map_eq_some_iff.1 hfst
    obtain ⟨settled', hseed', hd⟩ := Option.map_eq_some_iff.1 hfst'
    rw [visit_settled hseed, visit_settled hseed', settleSeed, settleSeed, hd]
    split_ifs <;> exact ⟨rfl, rfl⟩
  | none =>
    rw [hdecision] at hfst hfst'
    simp only [visit, Option.map_eq_none_iff.1 hfst, Option.map_eq_none_iff.1 hfst']
    split_ifs
    · unfold visitForced budgetLeft
      split_ifs <;> exact ⟨rfl, rfl⟩
    · unfold visitActive slotFree budgetLeft
      split_ifs <;> exact ⟨rfl, rfl⟩
    · unfold visitWaiting slotFree budgetLeft
      split_ifs <;> exact ⟨rfl, rfl⟩

theorem outputs_eq_iff {ts : List PlannerTorrent} (hs : s.note [] = s'.note []) :
    Walk.outputs (visit rt dateNow opts limits) s ts =
        Walk.outputs (visit rt dateNow' opts limits) s' ts ↔
      ∀ t ∈ ts, settledBy rt dateNow opts.now t = settledBy rt dateNow' opts.now t := by
  induction ts generalizing s s' with
  | nil => simp [Walk.outputs]
  | cons t ts ih =>
    rw [Walk.outputs, Walk.outputs, List.cons.injEq, List.forall_mem_cons]
    constructor
    · rintro ⟨hdecision, hrest⟩
      have hsettled : settledBy rt dateNow opts.now t = settledBy rt dateNow' opts.now t := by
        obtain ⟨hd, hseed⟩ := @visit_decision rt dateNow opts limits s t
        obtain ⟨hd', hseed'⟩ := @visit_decision rt dateNow' opts limits s' t
        rw [hdecision] at hd hseed
        rw [hseed] at hseed'
        cases hone : settledBy rt dateNow opts.now t with
        | none =>
          rw [hone, Option.isSome_none] at hseed'
          exact (Option.isSome_eq_false_iff.1 hseed'.symm |> Option.isNone_iff_eq_none.1).symm
        | some d =>
          rw [hone, Option.isSome_some] at hseed'
          obtain ⟨d', htwo⟩ := Option.isSome_iff_exists.1 hseed'.symm
          rw [hone, Option.getD_some] at hd
          rw [htwo, Option.getD_some] at hd'
          rw [htwo, ← hd, ← hd']
      exact ⟨hsettled, (ih (visit_note_congr hsettled hs).2).1 hrest⟩
    · rintro ⟨hsettled, hrest⟩
      obtain ⟨hdecision, hnote⟩ := @visit_note_congr rt dateNow dateNow' opts limits s s' t hsettled hs
      exact ⟨hdecision, (ih hnote).2 hrest⟩

/-! ### The plan -/

theorem settledBy_eq_iff : settledBy rt dateNow opts.now t = settledBy rt dateNow' opts.now t ↔
    (t.complete && t.occupancy.holdsTotalActiveSlot && !t.protectedFromPause) = true →
      ∀ policy, t.policy.seedPolicy = some policy → SameAtBoth rt dateNow dateNow' opts t policy := by
  unfold settledBy
  split_ifs with h
  · rw [forall_prop_of_true h]
    cases hpolicy : t.policy.seedPolicy with
    | none => simp
    | some policy =>
      simp only [Option.bind_some, Option.some.injEq, forall_eq']
      exact ruled_eq_iff
  · exact ⟨fun _ hc => absurd hc h, fun _ => rfl⟩

/-- Two plans that differ in the host's clock decide the same exactly when the engine cannot pause,
or both readings come to the same about every seed whose rule is consulted. -/
theorem decisions_eq_iff : (planEngine rt dateNow opts engineId torrents caps).decisions =
      (planEngine rt dateNow' opts engineId torrents caps).decisions ↔
    (canDo caps.pause = true → ∀ t ∈ torrents, consulted t = true →
      ∀ policy, t.policy.seedPolicy = some policy →
        SameAtBoth rt dateNow dateNow' opts t policy) := by
  cases hpause : canDo caps.pause with
  | false =>
    refine ⟨fun _ h => ?_, fun _ => ?_⟩
    · cases h
    · simp [planEngine, hpause]
  | true =>
    have hplan (clock : String → Instant) :
        (planEngine rt clock opts engineId torrents caps).decisions =
          (untouchable torrents).map settleUntouchable ++
            Walk.outputs (visit rt clock opts (limitsOf engineId torrents))
              (initialSlots engineId torrents caps) (ranked rt torrents) := by
      simp [planEngine, hpause]
    rw [hplan, hplan, List.append_cancel_left_eq, outputs_eq_iff rfl, forall_prop_of_true rfl]
    constructor
    · intro h t ht hconsulted
      simp only [consulted, Bool.and_assoc, Bool.and_eq_true] at hconsulted
      obtain ⟨hc, hrest⟩ := hconsulted
      refine settledBy_eq_iff.1 (h t (mem_ranked.2 ⟨ht, by simpa using hc⟩)) ?_
      simpa [and_assoc] using hrest
    · intro h t ht
      obtain ⟨htorrent, hc⟩ := mem_ranked.1 ht
      refine settledBy_eq_iff.2 fun hasked => h t htorrent ?_
      rw [consulted, hc]
      exact hasked

/-! ### A seed of ten days -/

/-- Seeding stops after five days. -/
def fiveDays : EffectivePolicy where
  seedPolicy := some
    { mode := .manual
      afterTarget := .pause
      stopWhen := some (.leaf ⟨"seed.ageDays", .gt, .number (.fin 5)⟩) }

def tenDays : Instant := 864000000

/-- It was completed at the epoch, and it is the tenth day. -/
def agedSeed : PlannerTorrent where
  hash := "a"
  engineId := "e"
  occupancy := .seedActive
  decision := ⟨"a", 0, .normal, []⟩
  policy := fiveDays
  complete := true
  completedAt := some 0

/-- The seed is stopped on a host whose clock agrees, and not on one whose clock is behind. -/
theorem hostClock_decides :
    (planEngine .ascii (fun _ => tenDays) { now := tenDays } "e" [agedSeed]
        nativeCapabilities).decisions ≠
      (planEngine .ascii (fun _ => 0) { now := tenDays } "e" [agedSeed]
        nativeCapabilities).decisions := by
  intro h
  have hactions := congrArg (List.map TorrentDecision.action) h
  have hstopped : ((planEngine .ascii (fun _ => tenDays) { now := tenDays } "e" [agedSeed]
      nativeCapabilities).decisions.map TorrentDecision.action) = [.pause] := by decide +kernel
  have hkept : ((planEngine .ascii (fun _ => 0) { now := tenDays } "e" [agedSeed]
      nativeCapabilities).decisions.map TorrentDecision.action) = [.none] := by decide +kernel
  rw [hstopped, hkept] at hactions
  cases hactions

end UltraTorrent.Scheduler.HostClock
