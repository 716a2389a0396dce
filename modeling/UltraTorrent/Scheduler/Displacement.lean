import UltraTorrent.Scheduler.Assignments

/-! Which torrents change places in a plan. A slot that is not free stays taken to the end of the
walk, so whatever displaces a running torrent is reached before it; by how much its score is
higher, the walk never asks. -/
namespace UltraTorrent.Scheduler.Displacement

open Library Library.EcmaScript
open Occupancy Policy Planner WalkSteps Assignments

variable (rt : Runtime) (dateNow : String → Instant) (opts : PlannerOptions) (engineId : String)
  (torrents : List PlannerTorrent) (caps : TorrentQueueCapabilities)

/-- How much a waiting torrent must beat an active one by. -/
def threshold : ℚ := opts.priorityDisplacementThreshold.getD 100

/-- The score of `b` exceeds that of `a` by the threshold. -/
def Beats (b a : PlannerTorrent) : Prop :=
  threshold opts ≤ (b.decision.score : ℚ) - (a.decision.score : ℚ)

/-- Paused because its limit was reached. -/
def pausedForLimit (a : PlannerTorrent × TorrentDecision) : Prop :=
  a.2.action = .pause ∧ a.2.reasonCode.isLimit = true

/-- Resumed, and not by force-start. -/
def resumedInTurn (b : PlannerTorrent × TorrentDecision) : Prop :=
  b.2.action = .resume ∧ b.2.reasonCode ≠ .forceStartedResume

/-- Whatever is resumed beats every torrent of its kind that is paused in the same plan. -/
def RespectsThreshold (plan : List (PlannerTorrent × TorrentDecision)) : Prop :=
  ∀ a ∈ plan, ∀ b ∈ plan, pausedForLimit a → resumedInTurn b →
    a.1.complete = b.1.complete → Beats opts b.1 a.1

def startsHere (place : Slots × PlannerTorrent) : Bool :=
  !place.2.forceStarted && starts opts (limitsOf engineId torrents) place.1 place.2

/-- The running torrent is over its limit here, and hysteresis does not keep it. -/
def overLimitHere (place : Slots × PlannerTorrent) : Bool :=
  overLimit rt dateNow opts (limitsOf engineId torrents) place.1 place.2 &&
    opts.minimumActive ≤ heldFor opts place.2

/-- No waiting torrent is started ahead of a running one of its kind that is over the limit,
unless it beats it. -/
def NoNarrowStart : Prop :=
  (places rt dateNow opts engineId torrents caps).Pairwise fun earlier later =>
    startsHere opts engineId torrents earlier = true →
      overLimitHere rt dateNow opts engineId torrents later = true →
        earlier.2.complete = later.2.complete → Beats opts earlier.2 later.2

variable {rt dateNow opts engineId torrents caps} {limits : Limits} {s s' : Slots}
  {t : PlannerTorrent}

/-! ### Slots only fill up -/

/-- Every slot that was taken still is. -/
structure Fills (s s' : Slots) : Prop where
  downloads : s.downloads ≤ s'.downloads
  seeds : s.seeds ≤ s'.seeds
  total : s.total ≤ s'.total

theorem Fills.refl (s : Slots) : Fills s s := ⟨le_rfl, le_rfl, le_rfl⟩

theorem Fills.trans {s s' s'' : Slots} (h : Fills s s') (h' : Fills s' s'') : Fills s s'' :=
  ⟨h.downloads.trans h'.downloads, h.seeds.trans h'.seeds, h.total.trans h'.total⟩

theorem fills_act : Fills s s.act := ⟨le_rfl, le_rfl, le_rfl⟩

theorem fills_occupy (wantsSeed : Bool) : Fills s (s.occupy wantsSeed) := by
  cases wantsSeed <;> exact ⟨by simp [Slots.occupy], by simp [Slots.occupy], by simp [Slots.occupy]⟩

theorem fills_note (limitations : List SchedulerLimitation) : Fills s (s.note limitations) :=
  ⟨le_rfl, le_rfl, le_rfl⟩

theorem visit_fills : Fills s (visit rt dateNow opts limits s t).1 := by
  unfold visit
  split
  · unfold settleSeed
    split_ifs
    · exact (fills_note _).trans fills_act
    · exact (fills_note _).trans (fills_occupy _)
  · split_ifs with hf hactive
    · unfold visitForced
      split_ifs
      · exact fills_occupy _
      · exact fills_act.trans (fills_occupy _)
      · exact fills_occupy _
    · rw [visitActive_slots]
      split_ifs
      · exact fills_occupy _
      · exact fills_act
    · rw [visitWaiting_slots]
      split_ifs
      · exact fills_act.trans (fills_occupy _)
      · exact Fills.refl s

theorem withinLimit_mono {m n : ℕ} {limit : Option ℤ} (h : m ≤ n) (hn : withinLimit n limit = true) :
    withinLimit m limit = true := by
  cases limit with
  | none => rfl
  | some cap =>
    simp only [withinLimit, decide_eq_true_eq] at hn ⊢
    omega

/-- A slot that is free was free before. -/
theorem slotFree_of_fills {wantsSeed : Bool} (h : Fills s s')
    (hfree : slotFree limits s' wantsSeed = true) : slotFree limits s wantsSeed = true := by
  cases wantsSeed <;> simp only [slotFree, Bool.and_eq_true] at hfree ⊢
  · exact ⟨withinLimit_mono h.downloads hfree.1, withinLimit_mono h.total hfree.2⟩
  · exact ⟨withinLimit_mono h.seeds hfree.1, withinLimit_mono h.total hfree.2⟩

/-! ### Places -/

theorem slotFree_of_startsHere {place : Slots × PlannerTorrent}
    (h : startsHere opts engineId torrents place = true) :
    slotFree (limitsOf engineId torrents) place.1 place.2.complete = true := by
  simp only [startsHere, starts, Bool.and_eq_true] at h
  exact h.2.1.2

theorem overLimitHere_full {place : Slots × PlannerTorrent}
    (h : overLimitHere rt dateNow opts engineId torrents place = true) :
    slotFree (limitsOf engineId torrents) place.1 place.2.complete = false := by
  simp only [overLimitHere, overLimit, Bool.and_eq_true, Bool.not_eq_true'] at h
  exact h.1.1.1.2

theorem never_started_after : (places rt dateNow opts engineId torrents caps).Pairwise
    fun earlier later => overLimitHere rt dateNow opts engineId torrents earlier = true →
      startsHere opts engineId torrents later = true →
        earlier.2.complete ≠ later.2.complete := by
  have hstep : ∀ s t, Fills s (visit rt dateNow opts (limitsOf engineId torrents) s t).1 :=
    fun _ _ => visit_fills
  have hfills := Walk.visits_pairwise Fills.refl (fun _ _ _ => Fills.trans) hstep
    (initialSlots engineId torrents caps) (ranked rt torrents)
  refine hfills.imp fun {earlier later} hvw hover hstarts hkind => ?_
  have hfree := slotFree_of_startsHere hstarts
  rw [← hkind] at hfree
  have hearlier := slotFree_of_fills (visit_fills.trans hvw) hfree
  rw [overLimitHere_full hover] at hearlier
  cases hearlier

section Plan

variable (hpause : canDo caps.pause = true)
include hpause

theorem pausedForLimit_iff {a : PlannerTorrent × TorrentDecision} :
    a ∈ assignments rt dateNow opts engineId torrents caps ∧ pausedForLimit a ↔
      ∃ place ∈ places rt dateNow opts engineId torrents caps,
        a = (place.2, decisionAt rt dateNow opts engineId torrents place) ∧
        overLimitHere rt dateNow opts engineId torrents place = true := by
  have hlimit (place : Slots × PlannerTorrent) :
      (decisionAt rt dateNow opts engineId torrents place).reasonCode.isLimit = true ↔
        overLimitHere rt dateNow opts engineId torrents place = true := by
    rw [decisionAt, visit_limit_iff, overLimitHere, Bool.and_eq_true, decide_eq_true_eq, not_lt]
  constructor
  · rintro ⟨ha, hpaused, hreason⟩
    obtain ⟨-, place, hplace, rfl⟩ := action_place ha (by rw [hpaused]; simp)
    exact ⟨place, hplace, rfl, (hlimit place).1 hreason⟩
  · rintro ⟨place, hplace, rfl, hover⟩
    have hreason := (hlimit place).2 hover
    exact ⟨(mem_assignments hpause).2 (.inr ⟨place, hplace, rfl⟩), pause_of_limit hreason, hreason⟩

theorem resumedInTurn_iff {b : PlannerTorrent × TorrentDecision} :
    b ∈ assignments rt dateNow opts engineId torrents caps ∧ resumedInTurn b ↔
      ∃ place ∈ places rt dateNow opts engineId torrents caps,
        b = (place.2, decisionAt rt dateNow opts engineId torrents place) ∧
        startsHere opts engineId torrents place = true := by
  have hturn (place : Slots × PlannerTorrent) (hc : place.2.occupancy.isUntouchable = false) :
      resumedInTurn (place.2, decisionAt rt dateNow opts engineId torrents place) ↔
        startsHere opts engineId torrents place = true := by
    unfold resumedInTurn decisionAt startsHere
    cases hf : place.2.forceStarted with
    | false =>
      rw [visit_resume_iff hc hf, Bool.not_false, Bool.true_and, and_iff_left_iff_imp]
      intro hstarts
      have hactive : place.2.occupancy.holdsTotalActiveSlot = false := by
        by_contra hactive
        rw [not_starts_of_active hc (by simpa using hactive)] at hstarts
        cases hstarts
      rw [visit_waiting hf hactive, visitWaiting]
      split_ifs <;> simp
    | true =>
      cases hseed : consultSeedTarget rt dateNow opts (limitsOf engineId torrents) place.1
          place.2 with
      | some settled =>
        obtain ⟨-, -, -, policy, -, hd⟩ := consultSeedTarget_some hseed
        rw [visit_settled hseed, settleSeed_action]
        simp [seedTargetDecision_action_ne_resume hd]
      | none =>
        rw [visit_forced hseed hf, visitForced]
        split_ifs <;> simp
  constructor
  · rintro ⟨hb, hresumed⟩
    obtain ⟨-, place, hplace, rfl⟩ := action_place hb (by rw [hresumed.1]; simp)
    exact ⟨place, hplace, rfl, (hturn place (mem_places hplace).2).1 hresumed⟩
  · rintro ⟨place, hplace, rfl, hstarts⟩
    exact ⟨(mem_assignments hpause).2 (.inr ⟨place, hplace, rfl⟩),
      (hturn place (mem_places hplace).2).2 hstarts⟩

end Plan

/-- A plan respects the threshold exactly when its walk starts no waiting torrent ahead of a
running one of its kind that is over the limit and that it does not beat. -/
theorem respectsThreshold_iff :
    RespectsThreshold opts (assignments rt dateNow opts engineId torrents caps) ↔
      (canDo caps.pause = true → NoNarrowStart rt dateNow opts engineId torrents caps) := by
  cases hpause : canDo caps.pause with
  | false =>
    refine ⟨fun _ h => ?_, fun _ a ha _ _ hpaused => ?_⟩
    · cases h
    · rw [(action_place ha (by rw [hpaused.1]; simp)).1] at hpause
      cases hpause
  | true =>
    constructor
    · intro h _
      refine List.pairwise_of_forall_mem_list fun earlier hearlier later hlater => ?_
      intro hstarts hover hkind
      obtain ⟨ha, hpaused⟩ := (pausedForLimit_iff hpause).2 ⟨later, hlater, rfl, hover⟩
      obtain ⟨hb, hresumed⟩ := (resumedInTurn_iff hpause).2 ⟨earlier, hearlier, rfl, hstarts⟩
      have hbeats := h _ ha _ hb hpaused hresumed hkind.symm
      exact hbeats
    · intro h a ha b hb hpaused hresumed hkind
      obtain ⟨later, hlater, rfl, hover⟩ := (pausedForLimit_iff hpause).1 ⟨ha, hpaused⟩
      obtain ⟨earlier, hearlier, rfl, hstarts⟩ := (resumedInTurn_iff hpause).1 ⟨hb, hresumed⟩
      refine (h rfl).forall_of_forall_of_flip ?_ ?_ hearlier hlater hstarts hover hkind.symm
      · intro place _ hstarts hover
        cases (slotFree_of_startsHere hstarts).symm.trans (overLimitHere_full hover)
      · -- the running torrent first: then nothing of its kind is started
        exact never_started_after.imp fun hnever hstarts hover hkind =>
          absurd hkind.symm (hnever hover hstarts)

/-! ### A narrow lead -/

def narrow (hash : String) (occupancy : OccupancyClass) (score : ℤ) : PlannerTorrent where
  hash := hash
  engineId := "e"
  occupancy := occupancy
  decision := ⟨hash, score, .normal, []⟩
  policy := oneDownload
  complete := false

/-- A waiting torrent leads a running one by one point. -/
def narrowQueue : List PlannerTorrent :=
  [narrow "a" .downloadActive 0, narrow "b" .schedulerPaused 1]

/-- The running torrent is paused, and the other takes its place. -/
theorem displaced_by_one :
    (∀ t ∈ narrowQueue, t.policy = oneDownload) ∧ threshold { now := 0 } = 100 ∧
    ¬ RespectsThreshold { now := 0 }
      (assignments .ascii (fun _ => 0) { now := 0 } "e" narrowQueue nativeCapabilities) := by
  refine ⟨by simp [narrowQueue, narrow], rfl, fun h => ?_⟩
  have hpaused : ∃ a ∈ assignments .ascii (fun _ => 0) { now := 0 } "e" narrowQueue
      nativeCapabilities, a.1.complete = false ∧ a.1.decision.score = 0 ∧
        (a.2.action = .pause ∧ a.2.reasonCode.isLimit = true) := by decide +kernel
  have hresumed : ∃ b ∈ assignments .ascii (fun _ => 0) { now := 0 } "e" narrowQueue
      nativeCapabilities, b.1.complete = false ∧ b.1.decision.score = 1 ∧
        (b.2.action = .resume ∧ b.2.reasonCode ≠ .forceStartedResume) := by decide +kernel
  obtain ⟨a, ha, hkind, hscore, hpause⟩ := hpaused
  obtain ⟨b, hb, hkind', hscore', hresume⟩ := hresumed
  have hbeats := h a ha b hb hpause hresume (hkind.trans hkind'.symm)
  rw [Beats, hscore, hscore'] at hbeats
  norm_num [threshold] at hbeats

end UltraTorrent.Scheduler.Displacement
