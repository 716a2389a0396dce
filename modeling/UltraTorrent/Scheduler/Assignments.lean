import UltraTorrent.Scheduler.WalkSteps

/-! A plan read torrent by torrent: which decision belongs to which torrent, and the
places of the walk the decisions were taken at. -/
namespace UltraTorrent.Scheduler.Assignments

open Library Library.EcmaScript
open Occupancy Planner WalkSteps

variable (rt : Runtime) (dateNow : String → Instant) (opts : PlannerOptions) (engineId : String)
  (torrents : List PlannerTorrent) (caps : TorrentQueueCapabilities)

def planOrder : List PlannerTorrent :=
  if canDo caps.pause then untouchable torrents ++ ranked rt torrents else torrents

/-- Each torrent of the engine with the decision the plan holds for it. -/
def assignments : List (PlannerTorrent × TorrentDecision) :=
  (planOrder rt torrents caps).zip (planEngine rt dateNow opts engineId torrents caps).decisions

/-- The places of the planner's walk: each contender with the slots counted before it. -/
def places : List (Slots × PlannerTorrent) :=
  Walk.visits (visit rt dateNow opts (limitsOf engineId torrents))
    (initialSlots engineId torrents caps) (ranked rt torrents)

def decisionAt (place : Slots × PlannerTorrent) : TorrentDecision :=
  (visit rt dateNow opts (limitsOf engineId torrents) place.1 place.2).2

variable {rt dateNow opts engineId torrents caps} {t : PlannerTorrent}

theorem mem_ranked : t ∈ ranked rt torrents ↔ t ∈ torrents ∧ t.occupancy.isUntouchable = false := by
  rw [ranked, (Priority.orderByPriority_perm rt orderable (contenders torrents)).mem_iff]
  simp [contenders]

theorem mem_places {v : Slots × PlannerTorrent}
    (h : v ∈ places rt dateNow opts engineId torrents caps) :
    v.2 ∈ torrents ∧ v.2.occupancy.isUntouchable = false :=
  mem_ranked.1 (Walk.mem_of_mem_visits _ h)

theorem exists_place (ht : t ∈ torrents) (hc : t.occupancy.isUntouchable = false) :
    ∃ v ∈ places rt dateNow opts engineId torrents caps, v.2 = t := by
  have hmem : t ∈ (places rt dateNow opts engineId torrents caps).map Prod.snd := by
    rw [places, Walk.visits_map_snd]
    exact mem_ranked.2 ⟨ht, hc⟩
  exact List.mem_map.1 hmem

theorem planOrder_perm : (planOrder rt torrents caps).Perm torrents := by
  unfold planOrder
  split_ifs
  · have hranked := Priority.orderByPriority_perm rt orderable (contenders torrents)
    refine (List.Perm.append_left _ hranked).trans ?_
    simpa [untouchable, contenders] using
      List.filter_append_perm (fun t : PlannerTorrent => t.occupancy.isUntouchable) torrents
  · exact List.Perm.refl _

theorem planEngine_decisions (hpause : canDo caps.pause = true) :
    (planEngine rt dateNow opts engineId torrents caps).decisions =
      (untouchable torrents).map settleUntouchable ++
        (places rt dateNow opts engineId torrents caps).map
          (decisionAt rt dateNow opts engineId torrents) := by
  simp [planEngine, hpause, Walk.outputs_eq_map, places, decisionAt]

theorem assignments_eq (hpause : canDo caps.pause = true) :
    assignments rt dateNow opts engineId torrents caps =
      (untouchable torrents).map (fun t => (t, settleUntouchable t)) ++
      (places rt dateNow opts engineId torrents caps).map fun v =>
        (v.2, decisionAt rt dateNow opts engineId torrents v) := by
  rw [assignments, planEngine_decisions hpause, planOrder, if_pos hpause,
    List.zip_append (List.length_map _).symm]
  congr 1
  · exact List.map_prod_left_eq_zip.symm
  · have hranked : ranked rt torrents =
        (places rt dateNow opts engineId torrents caps).map Prod.snd :=
      (Walk.visits_map_snd _ _ _).symm
    rw [hranked, List.zip_map']

/-- On an engine that cannot pause every decision leaves its torrent alone. -/
theorem assignments_of_cannot_pause (hpause : canDo caps.pause = false) :
    assignments rt dateNow opts engineId torrents caps =
      torrents.map fun t => (t, decide t .unchanged .none .engineCannotPause) := by
  rw [assignments, planOrder, if_neg (by simp [hpause])]
  simp only [planEngine, hpause, Bool.not_false, if_true]
  exact List.map_prod_left_eq_zip.symm

theorem mem_assignments (hpause : canDo caps.pause = true) {a : PlannerTorrent × TorrentDecision} :
    a ∈ assignments rt dateNow opts engineId torrents caps ↔
      (a.1 ∈ untouchable torrents ∧ a.2 = settleUntouchable a.1) ∨
      ∃ v ∈ places rt dateNow opts engineId torrents caps,
        a = (v.2, decisionAt rt dateNow opts engineId torrents v) := by
  rw [assignments_eq hpause, List.mem_append, List.mem_map, List.mem_map]
  constructor
  · rintro (⟨t, ht, rfl⟩ | ⟨v, hv, rfl⟩)
    · exact .inl ⟨ht, rfl⟩
    · exact .inr ⟨v, hv, rfl⟩
  · rintro (⟨ht, ha⟩ | ⟨v, hv, rfl⟩)
    · exact .inl ⟨a.1, ht, Prod.ext rfl ha.symm⟩
    · exact .inr ⟨v, hv, rfl⟩

theorem assignments_map_snd : (assignments rt dateNow opts engineId torrents caps).map Prod.snd =
    (planEngine rt dateNow opts engineId torrents caps).decisions := by
  cases hpause : canDo caps.pause with
  | false =>
    rw [assignments_of_cannot_pause hpause, List.map_map]
    simp [planEngine, hpause]
  | true =>
    rw [assignments_eq hpause, planEngine_decisions hpause, List.map_append, List.map_map,
      List.map_map]
    rfl

theorem fst_mem_of_mem_assignments {a : PlannerTorrent × TorrentDecision}
    (h : a ∈ assignments rt dateNow opts engineId torrents caps) : a.1 ∈ torrents :=
  planOrder_perm.mem_iff.1 (List.of_mem_zip h).1

theorem action_place {a : PlannerTorrent × TorrentDecision}
    (h : a ∈ assignments rt dateNow opts engineId torrents caps) (haction : a.2.action ≠ .none) :
    canDo caps.pause = true ∧ ∃ v ∈ places rt dateNow opts engineId torrents caps,
      a = (v.2, decisionAt rt dateNow opts engineId torrents v) := by
  cases hpause : canDo caps.pause with
  | false =>
    rw [assignments_of_cannot_pause hpause] at h
    obtain ⟨t, -, rfl⟩ := List.mem_map.1 h
    exact absurd rfl haction
  | true =>
    obtain ⟨-, ha⟩ | hplace := (mem_assignments hpause).1 h
    · rw [ha] at haction
      exact absurd rfl haction
    · exact ⟨rfl, hplace⟩

theorem assignments_decides {a : PlannerTorrent × TorrentDecision}
    (h : a ∈ assignments rt dateNow opts engineId torrents caps) :
    ∃ desired action reasonCode values, a.2 = decide a.1 desired action reasonCode values := by
  cases hpause : canDo caps.pause with
  | false =>
    rw [assignments_of_cannot_pause hpause] at h
    obtain ⟨t, -, rfl⟩ := List.mem_map.1 h
    exact ⟨_, _, _, _, rfl⟩
  | true =>
    obtain ⟨-, ha⟩ | ⟨v, -, rfl⟩ := (mem_assignments hpause).1 h
    · exact ⟨_, _, _, _, ha⟩
    · exact visit_decides

theorem assignments_hash {a : PlannerTorrent × TorrentDecision}
    (h : a ∈ assignments rt dateNow opts engineId torrents caps) : a.2.hash = a.1.hash := by
  obtain ⟨desired, action, reasonCode, values, hd⟩ := assignments_decides h
  rw [hd, decide_hash]

theorem assignments_map_fst : (assignments rt dateNow opts engineId torrents caps).map Prod.fst =
    planOrder rt torrents caps := by
  cases hpause : canDo caps.pause with
  | false =>
    rw [assignments_of_cannot_pause hpause, List.map_map, planOrder, if_neg (by simp [hpause])]
    exact List.map_id _
  | true =>
    rw [assignments_eq hpause, planOrder, if_pos hpause, List.map_append, List.map_map, List.map_map]
    congr 1
    · exact List.map_id _
    · exact Walk.visits_map_snd _ _ _

end UltraTorrent.Scheduler.Assignments
