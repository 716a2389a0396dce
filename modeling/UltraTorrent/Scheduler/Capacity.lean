import UltraTorrent.Scheduler.Assignments

/-! Whether a plan that resumes something stays within the caps. The walk hands out slots
in rank order, so a torrent it cannot pause may be met after the slot it holds was given
away; the caps survive exactly when that does not happen. -/
namespace UltraTorrent.Scheduler.Capacity

open Library Library.EcmaScript
open Occupancy Policy Planner WalkSteps Assignments

variable (rt : Runtime) (dateNow : String → Instant) (opts : PlannerOptions) (engineId : String)
  (torrents : List PlannerTorrent) (caps : TorrentQueueCapabilities)

/-- Torrents of one kind the plan leaves running. -/
def running (kind : PlannerTorrent → Bool) (plan : List (PlannerTorrent × TorrentDecision)) : ℕ :=
  plan.countP fun a => leftRunning a.1 a.2 && kind a.1

def verifying (plan : List (PlannerTorrent × TorrentDecision)) : ℕ :=
  plan.countP fun a => a.1.occupancy = .checking

def resumes (kind : PlannerTorrent → Bool) (plan : List (PlannerTorrent × TorrentDecision)) : Prop :=
  ∃ a ∈ plan, a.2.action = .resume ∧ kind a.1 = true

instance (kind : PlannerTorrent → Bool) (plan : List (PlannerTorrent × TorrentDecision)) :
    Decidable (resumes kind plan) :=
  inferInstanceAs (Decidable (∃ a ∈ plan, a.2.action = .resume ∧ kind a.1 = true))

/-- A count may reach its cap and not exceed it; `null` imposes nothing. -/
def AtMost (count : ℕ) (limit : Option ℤ) : Prop := ∀ cap, limit = some cap → (count : ℤ) ≤ cap

/-- A plan that resumes a torrent does not overshoot the caps that torrent is under. -/
structure WithinCaps (policy : EffectivePolicy) (plan : List (PlannerTorrent × TorrentDecision)) :
    Prop where
  downloads : resumes (!·.complete) plan →
    AtMost (running (!·.complete) plan) policy.maxConcurrentDownloads
  seeds : resumes (·.complete) plan →
    AtMost (running (·.complete) plan) policy.maxConcurrentSeeds
  total : resumes (fun _ => true) plan →
    AtMost (running (fun _ => true) plan + verifying plan) policy.maxTotalActive

/-- A running torrent the planner will not pause here even over the limit: its seed rule
says to leave it, or protection, hysteresis or the spent budget vetoes the pause. -/
def heldOver (limits : Limits) (place : Slots × PlannerTorrent) : Bool :=
  place.2.occupancy.holdsTotalActiveSlot &&
    seedKeeps rt dateNow opts limits place.1 place.2 (vetoed opts place.1 place.2)

def kindHasRoom (limits : Limits) (place : Slots × PlannerTorrent) : Bool :=
  if place.2.complete then withinLimit place.1.seeds limits.maxSeeds
  else withinLimit place.1.downloads limits.maxDownloads

/-- After a torrent was started, no torrent is held running where its kind's cap, if it is
of the same kind, or the total cap is already used up. -/
def NoneHeldAfterStart : Prop :=
  let limits := limitsOf engineId torrents
  (places rt dateNow opts engineId torrents caps).Pairwise fun earlier later =>
    starts opts limits earlier.1 earlier.2 = true → heldOver rt dateNow opts limits later = true →
      (earlier.2.complete = later.2.complete → kindHasRoom limits later = true) ∧
      withinLimit later.1.total limits.maxTotal = true

/-! ### One kind at a time -/

variable {rt dateNow opts engineId torrents caps}

theorem slotFree_eq {limits : Limits} {s : Slots} {t : PlannerTorrent} :
    slotFree limits s t.complete = (kindHasRoom limits (s, t) && withinLimit s.total limits.maxTotal) :=
  rfl

/-- Where no slot is free, taking one means being held over the limit. -/
theorem takesSlot_of_full {limits : Limits} {s : Slots} {t : PlannerTorrent}
    (h : slotFree limits s t.complete = false) :
    takesSlot rt dateNow opts limits s t = heldOver rt dateNow opts limits (s, t) := by
  simp [takesSlot, kept, heldOver, starts, h]

section Kind

variable {limits : Limits} {f : Slots → ℕ} {limit : Option ℤ} {kind : PlannerTorrent → Bool}

theorem kind_within_iff {ts : List PlannerTorrent} (s : Slots)
    (hcount : ∀ s, ∀ t ∈ ts, f (visit rt dateNow opts limits s t).1 =
      f s + if takesSlot rt dateNow opts limits s t && kind t then 1 else 0)
    (hroom : ∀ s t, kind t = true → slotFree limits s t.complete = true →
      withinLimit (f s) limit = true) :
    ((∃ v ∈ Walk.visits (visit rt dateNow opts limits) s ts,
        starts opts limits v.1 v.2 = true ∧ kind v.2 = true) →
      AtMost (f (Walk.finish (visit rt dateNow opts limits) s ts)) limit) ↔
    (Walk.visits (visit rt dateNow opts limits) s ts).Pairwise fun v w =>
      starts opts limits v.1 v.2 = true → kind v.2 = true →
        heldOver rt dateNow opts limits w = true → kind w.2 = true →
          withinLimit (f w.1) limit = true := by
  cases hlimit : limit with
  | none =>
    exact ⟨fun _ => List.pairwise_of_forall fun _ _ _ _ _ _ => rfl, fun _ _ cap hcap => nomatch hcap⟩
  | some cap =>
    subst hlimit
    have hstep : ∀ s, ∀ t ∈ ts, f (visit rt dateNow opts limits s t).1 = f s ∨
        f (visit rt dateNow opts limits s t).1 = f s + 1 := fun s t ht => by
      rw [hcount s t ht]
      split_ifs <;> simp
    have hstarts : ∀ v : Slots × PlannerTorrent,
        (starts opts limits v.1 v.2 = true ∧ kind v.2 = true) → (f v.1 : ℤ) < cap := by
      rintro v ⟨hv, hk⟩
      simp only [starts, Bool.and_eq_true] at hv
      simpa [withinLimit] using hroom v.1 v.2 hk hv.1.2
    have hover : ∀ w ∈ Walk.visits (visit rt dateNow opts limits) s ts,
        (¬ Walk.Overfills (visit rt dateNow opts limits) f cap w ↔
          (heldOver rt dateNow opts limits w = true → kind w.2 = true →
            withinLimit (f w.1) (some cap) = true)) := by
      intro w hw
      rw [Walk.Overfills, hcount w.1 w.2 (Walk.mem_of_mem_visits _ hw)]
      cases hk : kind w.2 with
      | false => simp
      | true =>
        by_cases hfull : cap ≤ (f w.1 : ℤ)
        · have hnot : slotFree limits w.1 w.2.complete = false := by
            by_contra hfree
            have := hroom w.1 w.2 hk (by simpa using hfree)
            simp only [withinLimit, decide_eq_true_eq] at this
            omega
          rw [takesSlot_of_full hnot]
          have : ¬ (f w.1 : ℤ) < cap := by omega
          cases hh : heldOver rt dateNow opts limits (w.1, w.2) <;> simp [withinLimit, hfull, this]
        · have : (f w.1 : ℤ) < cap := by omega
          simp [withinLimit, hfull, this]
    have hcap : (AtMost (f (Walk.finish (visit rt dateNow opts limits) s ts)) (some cap)) ↔
        (f (Walk.finish (visit rt dateNow opts limits) s ts) : ℤ) ≤ cap := by
      simp [AtMost]
    rw [hcap, Walk.started_within_iff hstarts s ts hstep]
    refine List.Pairwise.iff_of_mem fun {v w} _ hw => ?_
    rw [and_imp, hover w hw]

end Kind

/-! ### The plan as the visits of the walk -/

theorem settleUntouchable_not_running {t : PlannerTorrent} (h : t ∈ untouchable torrents) :
    leftRunning t (settleUntouchable t) = false := by
  have hu : t.occupancy.isUntouchable = true := (List.mem_filter.1 h).2
  simp [leftRunning, settleUntouchable, OccupancyClass.not_holdsDownloadSlot hu,
    OccupancyClass.not_holdsSeedSlot hu]

section Plain

variable (hpause : canDo caps.pause = true) (hforce : ∀ t ∈ torrents, t.forceStarted = false)
  {kind : PlannerTorrent → Bool}
include hpause hforce

theorem resumes_iff : resumes kind (assignments rt dateNow opts engineId torrents caps) ↔
    ∃ v ∈ places rt dateNow opts engineId torrents caps,
      starts opts (limitsOf engineId torrents) v.1 v.2 = true ∧ kind v.2 = true := by
  rw [resumes, assignments_eq hpause]
  constructor
  · rintro ⟨a, ha, hr, hk⟩
    rcases List.mem_append.1 ha with ha | ha <;> obtain ⟨v, hv, rfl⟩ := List.mem_map.1 ha
    · exact absurd hr nofun
    · obtain ⟨hmem, hc⟩ := mem_places hv
      exact ⟨v, hv, (visit_resume_iff hc (hforce _ hmem)).1 hr, hk⟩
  · rintro ⟨v, hv, hst, hk⟩
    obtain ⟨hmem, hc⟩ := mem_places hv
    exact ⟨_, List.mem_append_right _ (List.mem_map_of_mem hv),
      (visit_resume_iff hc (hforce _ hmem)).2 hst, hk⟩

theorem running_eq : running kind (assignments rt dateNow opts engineId torrents caps) =
    (places rt dateNow opts engineId torrents caps).countP fun v =>
      takesSlot rt dateNow opts (limitsOf engineId torrents) v.1 v.2 && kind v.2 := by
  rw [running, assignments_eq hpause, List.countP_append, List.countP_map, List.countP_map]
  have huntouched : (untouchable torrents).countP ((fun a => leftRunning a.1 a.2 && kind a.1) ∘
      fun t => (t, settleUntouchable t)) = 0 := by
    rw [List.countP_eq_zero]
    intro t ht
    simp [settleUntouchable_not_running ht]
  rw [huntouched, Nat.zero_add]
  refine List.countP_congr fun v hv => ?_
  obtain ⟨hmem, hc⟩ := mem_places hv
  simp [decisionAt, visit_leftRunning hc (hforce _ hmem)]

end Plain

theorem untouchable_counts (hold : OccupancyClass → Bool)
    (h : ∀ o : OccupancyClass, o.isUntouchable = true → hold o = false) :
    (untouchable torrents).countP (fun t => hold t.occupancy) = 0 := by
  rw [List.countP_eq_zero]
  intro t ht
  simp [h _ (List.mem_filter.1 ht).2]

theorem verifying_eq (hpause : canDo caps.pause = true) :
    verifying (assignments rt dateNow opts engineId torrents caps) =
      (initialSlots engineId torrents caps).total := by
  rw [verifying, assignments_eq hpause, List.countP_append, List.countP_map, List.countP_map]
  have hranked : (places rt dateNow opts engineId torrents caps).countP
      ((fun a => a.1.occupancy = .checking) ∘ fun v =>
        (v.2, decisionAt rt dateNow opts engineId torrents v)) = 0 := by
    rw [List.countP_eq_zero]
    intro v hv hch
    have hc := (mem_places hv).2
    simp only [Function.comp_apply, decide_eq_true_eq] at hch
    rw [hch] at hc
    exact absurd hc nofun
  rw [hranked, Nat.add_zero, initialSlots]
  refine List.countP_congr fun t ht => ?_
  have hu : t.occupancy.isUntouchable = true := (List.mem_filter.1 ht).2
  cases ho : t.occupancy <;> simp_all [OccupancyClass.isUntouchable, OccupancyClass.holdsTotalActiveSlot]

/-! ### The plan -/

section Plan

variable (hpause : canDo caps.pause = true) (hforce : ∀ t ∈ torrents, t.forceStarted = false)
include hpause hforce

/-- The capacity rule for one cap of the plan. `f` is the counter the planner compares with
the cap and `extra` what it held before the walk. -/
theorem plan_kind_iff {f : Slots → ℕ} {limit : Option ℤ} {kind : PlannerTorrent → Bool} {extra : ℕ}
    (hextra : extra = f (initialSlots engineId torrents caps))
    (hcount : ∀ s, ∀ t ∈ ranked rt torrents,
      f (visit rt dateNow opts (limitsOf engineId torrents) s t).1 =
        f s + if takesSlot rt dateNow opts (limitsOf engineId torrents) s t && kind t then 1 else 0)
    (hroom : ∀ s t, kind t = true → slotFree (limitsOf engineId torrents) s t.complete = true →
      withinLimit (f s) limit = true) :
    (resumes kind (assignments rt dateNow opts engineId torrents caps) →
      AtMost (running kind (assignments rt dateNow opts engineId torrents caps) + extra) limit) ↔
    (places rt dateNow opts engineId torrents caps).Pairwise fun v w =>
      starts opts (limitsOf engineId torrents) v.1 v.2 = true → kind v.2 = true →
        heldOver rt dateNow opts (limitsOf engineId torrents) w = true → kind w.2 = true →
          withinLimit (f w.1) limit = true := by
  rw [resumes_iff hpause hforce, running_eq hpause hforce, hextra, Nat.add_comm, places,
    ← Walk.finish_counter (p := fun v => takesSlot rt dateNow opts (limitsOf engineId torrents) v.1 v.2
      && kind v.2) hcount]
  exact kind_within_iff _ hcount hroom

theorem downloads_within_iff {limit : Option ℤ} (hl : (limitsOf engineId torrents).maxDownloads = limit) :
    (resumes (!·.complete) (assignments rt dateNow opts engineId torrents caps) →
      AtMost (running (!·.complete) (assignments rt dateNow opts engineId torrents caps)) limit) ↔
    (places rt dateNow opts engineId torrents caps).Pairwise fun v w =>
      starts opts (limitsOf engineId torrents) v.1 v.2 = true → (!v.2.complete) = true →
        heldOver rt dateNow opts (limitsOf engineId torrents) w = true → (!w.2.complete) = true →
          withinLimit w.1.downloads limit = true := by
  have hzero : 0 = (initialSlots engineId torrents caps).downloads :=
    (untouchable_counts _ fun _ => OccupancyClass.not_holdsDownloadSlot).symm
  have hcount : ∀ s, ∀ t ∈ ranked rt torrents,
      (visit rt dateNow opts (limitsOf engineId torrents) s t).1.downloads = s.downloads +
        if takesSlot rt dateNow opts (limitsOf engineId torrents) s t && !t.complete then 1 else 0 :=
    fun s t ht => (visit_counters (mem_ranked.1 ht).2 (hforce t (mem_ranked.1 ht).1)).1
  refine plan_kind_iff hpause hforce hzero hcount fun s t hk hfree => ?_
  rw [slotFree_eq, Bool.and_eq_true] at hfree
  simpa [kindHasRoom, hl, show t.complete = false by simpa using hk] using hfree.1

theorem seeds_within_iff {limit : Option ℤ} (hl : (limitsOf engineId torrents).maxSeeds = limit) :
    (resumes (·.complete) (assignments rt dateNow opts engineId torrents caps) →
      AtMost (running (·.complete) (assignments rt dateNow opts engineId torrents caps)) limit) ↔
    (places rt dateNow opts engineId torrents caps).Pairwise fun v w =>
      starts opts (limitsOf engineId torrents) v.1 v.2 = true → v.2.complete = true →
        heldOver rt dateNow opts (limitsOf engineId torrents) w = true → w.2.complete = true →
          withinLimit w.1.seeds limit = true := by
  have hzero : 0 = (initialSlots engineId torrents caps).seeds :=
    (untouchable_counts _ fun _ => OccupancyClass.not_holdsSeedSlot).symm
  have hcount : ∀ s, ∀ t ∈ ranked rt torrents,
      (visit rt dateNow opts (limitsOf engineId torrents) s t).1.seeds = s.seeds +
        if takesSlot rt dateNow opts (limitsOf engineId torrents) s t && t.complete then 1 else 0 :=
    fun s t ht => (visit_counters (mem_ranked.1 ht).2 (hforce t (mem_ranked.1 ht).1)).2.1
  refine plan_kind_iff hpause hforce hzero hcount fun s t hk hfree => ?_
  rw [slotFree_eq, Bool.and_eq_true] at hfree
  simpa [kindHasRoom, hl, hk] using hfree.1

theorem total_within_iff {limit : Option ℤ} (hl : (limitsOf engineId torrents).maxTotal = limit) :
    (resumes (fun _ => true) (assignments rt dateNow opts engineId torrents caps) →
      AtMost (running (fun _ => true) (assignments rt dateNow opts engineId torrents caps) +
        verifying (assignments rt dateNow opts engineId torrents caps)) limit) ↔
    (places rt dateNow opts engineId torrents caps).Pairwise fun v w =>
      starts opts (limitsOf engineId torrents) v.1 v.2 = true → true = true →
        heldOver rt dateNow opts (limitsOf engineId torrents) w = true → true = true →
          withinLimit w.1.total limit = true := by
  have hcount : ∀ s, ∀ t ∈ ranked rt torrents,
      (visit rt dateNow opts (limitsOf engineId torrents) s t).1.total = s.total +
        if takesSlot rt dateNow opts (limitsOf engineId torrents) s t && true then 1 else 0 :=
    fun s t ht => by
      rw [Bool.and_true]
      exact (visit_counters (mem_ranked.1 ht).2 (hforce t (mem_ranked.1 ht).1)).2.2
  refine plan_kind_iff hpause hforce (verifying_eq hpause) hcount fun s t _ hfree => ?_
  rw [slotFree_eq, Bool.and_eq_true, hl] at hfree
  exact hfree.2

/-- A plan that resumes something keeps within the caps of the one policy in force exactly
when the walk, after starting a torrent, never meets one that is held running where the cap
they share is already used up. -/
theorem withinCaps_iff {policy : EffectivePolicy} (hpolicy : ∀ t ∈ torrents, t.policy = policy) :
    WithinCaps policy (assignments rt dateNow opts engineId torrents caps) ↔
      NoneHeldAfterStart rt dateNow opts engineId torrents caps := by
  cases torrents with
  | nil =>
    refine ⟨fun _ => List.Pairwise.nil, fun _ => ⟨?_, ?_, ?_⟩⟩ <;>
      rintro ⟨a, ha, -⟩ <;> rw [assignments_eq hpause] at ha <;> exact absurd ha List.not_mem_nil
  | cons first rest =>
    have hfirst : first.policy = policy := hpolicy first List.mem_cons_self
    have hdown := @downloads_within_iff rt dateNow opts engineId _ caps hpause hforce _
      (show (limitsOf engineId (first :: rest)).maxDownloads = _ from
        congrArg EffectivePolicy.maxConcurrentDownloads hfirst)
    have hseed := @seeds_within_iff rt dateNow opts engineId _ caps hpause hforce _
      (show (limitsOf engineId (first :: rest)).maxSeeds = _ from
        congrArg EffectivePolicy.maxConcurrentSeeds hfirst)
    have htotal := @total_within_iff rt dateNow opts engineId _ caps hpause hforce _
      (show (limitsOf engineId (first :: rest)).maxTotal = _ from
        congrArg EffectivePolicy.maxTotalActive hfirst)
    have hroom : ∀ w : Slots × PlannerTorrent,
        kindHasRoom (limitsOf engineId (first :: rest)) w =
          if w.2.complete then withinLimit w.1.seeds policy.maxConcurrentSeeds
          else withinLimit w.1.downloads policy.maxConcurrentDownloads := fun w => by
      rw [← hfirst]; rfl
    have hcap : (limitsOf engineId (first :: rest)).maxTotal = policy.maxTotalActive :=
      congrArg EffectivePolicy.maxTotalActive hfirst
    constructor
    · rintro ⟨hd, hs, ht⟩
      refine ((hdown.1 hd).and ((hseed.1 hs).and (htotal.1 ht))).imp ?_
      rintro v w ⟨hd, hs, ht⟩ hst hheld
      refine ⟨fun hkind => ?_, hcap ▸ ht hst rfl hheld rfl⟩
      rw [hroom]
      cases hw : w.2.complete with
      | true => exact hs hst (hkind.trans hw) hheld hw
      | false => exact hd hst (by rw [hkind, hw]; rfl) hheld (by rw [hw]; rfl)
    · intro h
      refine ⟨hdown.2 (h.imp ?_), hseed.2 (h.imp ?_), htotal.2 (h.imp ?_)⟩
      · intro v w hvw hst hv hheld hw
        have hk := (hvw hst hheld).1 (by rw [Bool.not_eq_true'] at hv hw; rw [hv, hw])
        rwa [hroom, if_neg (by simpa using hw)] at hk
      · intro v w hvw hst hv hheld hw
        have hk := (hvw hst hheld).1 (by rw [hv, hw])
        rwa [hroom, if_pos hw] at hk
      · intro v w hvw hst _ hheld _
        exact hcap ▸ (hvw hst hheld).2

end Plan

/-! ### A plan that overshoots -/

def scored (score : ℤ) : Priority.TorrentPriorityDecision := ⟨"", score, .normal, []⟩

/-- The better-ranked torrent waits, the other runs and is protected from pausing. -/
def protectedQueue : List PlannerTorrent :=
  [{ hash := "w", engineId := "e", occupancy := .schedulerPaused, decision := scored 50,
     policy := oneDownload, complete := false },
   { hash := "a", engineId := "e", occupancy := .downloadActive, decision := scored 0,
     policy := oneDownload, complete := false, protectedFromPause := true }]

/-- The waiting torrent takes the only slot and the protected one keeps its own. -/
theorem plan_overshoots : (∀ t ∈ protectedQueue, t.policy = oneDownload ∧ t.forceStarted = false) ∧
    canDo nativeCapabilities.pause = true ∧
    ¬ WithinCaps oneDownload
      (assignments .ascii (fun _ => 0) { now := 0 } "e" protectedQueue nativeCapabilities) := by
  refine ⟨by simp [protectedQueue], rfl, fun h => ?_⟩
  have hresume : resumes (!·.complete)
      (assignments .ascii (fun _ => 0) { now := 0 } "e" protectedQueue nativeCapabilities) := by
    decide +kernel
  have hcount : running (!·.complete)
      (assignments .ascii (fun _ => 0) { now := 0 } "e" protectedQueue nativeCapabilities) = 2 := by
    decide +kernel
  have := h.downloads hresume 1 rfl
  rw [hcount] at this
  exact absurd this (by decide)

theorem withinCaps_iff_protectedQueue :
    WithinCaps oneDownload
      (assignments .ascii (fun _ => 0) { now := 0 } "e" protectedQueue nativeCapabilities) ↔
    NoneHeldAfterStart .ascii (fun _ => 0) { now := 0 } "e" protectedQueue nativeCapabilities :=
  withinCaps_iff rfl (by simp [protectedQueue]) (by simp [protectedQueue])

end UltraTorrent.Scheduler.Capacity
