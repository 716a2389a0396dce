import UltraTorrent.Scheduler.Assignments

/-! The bound on the changes of one sweep. The walk asks for an action that is left before it
pauses or resumes, but not before it stops a seed at its target, so the bound holds as long as
no seed is stopped after the actions are spent. -/
namespace UltraTorrent.Scheduler.ActionBudget

open Library Library.EcmaScript
open Occupancy Policy Planner WalkSteps Assignments

variable (rt : Runtime) (dateNow : String → Instant) (opts : PlannerOptions) (engineId : String)
  (torrents : List PlannerTorrent) (caps : TorrentQueueCapabilities)

/-- The decisions that change something. -/
def actions (decisions : List TorrentDecision) : ℕ := decisions.countP fun d => d.action ≠ .none

/-- The seed rule of the torrent stops or removes it. -/
def stopsSeed (limits : Limits) (place : Slots × PlannerTorrent) : Bool :=
  (consultSeedTarget rt dateNow opts limits place.1 place.2).any fun settled =>
    settled.1.action ≠ .none

variable {rt dateNow opts engineId torrents caps} {limits : Limits} {s : Slots} {t : PlannerTorrent}

/-- What a visit spends is what its decision does. -/
theorem visit_actions : (visit rt dateNow opts limits s t).1.actions =
    s.actions + if (visit rt dateNow opts limits s t).2.action ≠ .none then 1 else 0 := by
  cases hseed : consultSeedTarget rt dateNow opts limits s t with
  | some settled =>
    obtain ⟨-, -, -, policy, -, hd⟩ := consultSeedTarget_some hseed
    have hne := seedTargetDecision_action_ne_resume hd
    rw [visit_settled hseed, settleSeed_action, settleSeed]
    cases ha : settled.1.action <;> simp_all [Slots.act, Slots.note, Slots.occupy]
  | none =>
    by_cases hf : t.forceStarted = true
    · rw [visit_forced hseed hf, visitForced]
      split_ifs <;> simp_all [Slots.act, Slots.occupy]
    · have hf : t.forceStarted = false := by simpa using hf
      cases hactive : t.occupancy.holdsTotalActiveSlot with
      | true =>
        rw [visit_active hseed hf hactive, visitActive_slots, visitActive_action]
        split_ifs <;> simp_all [Slots.act, Slots.occupy]
      | false =>
        rw [visit_waiting hf hactive, visitWaiting_slots, visitWaiting_action]
        split_ifs <;> simp_all [Slots.act, Slots.occupy]

theorem visit_acts_iff (hspent : budgetLeft opts s = false) :
    (visit rt dateNow opts limits s t).2.action ≠ .none ↔
      stopsSeed rt dateNow opts limits (s, t) = true := by
  unfold stopsSeed
  cases hseed : consultSeedTarget rt dateNow opts limits s t with
  | some settled => simp [visit_settled hseed, settleSeed_action]
  | none =>
    by_cases hf : t.forceStarted = true
    · rw [visit_forced hseed hf, visitForced]
      split_ifs <;> simp_all
    · have hf : t.forceStarted = false := by simpa using hf
      cases hactive : t.occupancy.holdsTotalActiveSlot with
      | true =>
        rw [visit_active hseed hf hactive, visitActive_action]
        simp [vetoed, hspent]
      | false =>
        rw [visit_waiting hf hactive, visitWaiting_action]
        simp [starts, hspent]

theorem actions_append (ds es : List TorrentDecision) :
    actions (ds ++ es) = actions ds + actions es := List.countP_append

theorem actions_untouchable : actions ((untouchable torrents).map settleUntouchable) = 0 := by
  rw [actions, List.countP_map, List.countP_eq_zero]
  intro t _
  simp [settleUntouchable]

theorem actions_planEngine (hpause : canDo caps.pause = true) :
    actions (planEngine rt dateNow opts engineId torrents caps).decisions =
      (Walk.finish (visit rt dateNow opts (limitsOf engineId torrents))
        (initialSlots engineId torrents caps) (ranked rt torrents)).actions := by
  have hstep : ∀ s, ∀ t ∈ ranked rt torrents,
      (visit rt dateNow opts (limitsOf engineId torrents) s t).1.actions = s.actions +
        if Decidable.decide
          ((decisionAt rt dateNow opts engineId torrents (s, t)).action ≠ .none) then 1 else 0 := by
    intro s t _
    rw [visit_actions, decisionAt]
    simp only [decide_eq_true_eq]
  have hcounter := Walk.finish_counter (f := Slots.actions)
    (s := initialSlots engineId torrents caps) (p := fun v =>
      Decidable.decide ((decisionAt rt dateNow opts engineId torrents v).action ≠ .none)) hstep
  rw [hcounter, planEngine_decisions hpause, actions_append, actions_untouchable, actions,
    List.countP_map]
  rfl

/-- A plan keeps to its budget exactly when the budget is not negative and the walk stops no seed
at its target once the actions are spent. -/
theorem actions_le_budget_iff :
    (actions (planEngine rt dateNow opts engineId torrents caps).decisions : ℤ) ≤ opts.budget ↔
      0 ≤ opts.budget ∧ (canDo caps.pause = true →
        ∀ place ∈ places rt dateNow opts engineId torrents caps,
          stopsSeed rt dateNow opts (limitsOf engineId torrents) place = true →
            budgetLeft opts place.1 = true) := by
  cases hpause : canDo caps.pause with
  | false =>
    have hnone : actions (planEngine rt dateNow opts engineId torrents caps).decisions = 0 := by
      rw [← assignments_map_snd, assignments_of_cannot_pause hpause, actions, List.countP_map,
        List.countP_map, List.countP_eq_zero]
      intro t _
      simp
    simp [hnone]
  | true =>
    by_cases hbudget : 0 ≤ opts.budget
    · rw [actions_planEngine hpause, Walk.finish_le_iff (ranked rt torrents) _ hbudget]
      · simp only [hbudget, true_and, forall_const]
        refine forall₂_congr fun place _ => ?_
        rw [Walk.Overfills, visit_actions, Nat.add_left_cancel_iff, not_and]
        by_cases hleft : budgetLeft opts place.1 = true
        · have hlt : (place.1.actions : ℤ) < opts.budget := by simpa [budgetLeft] using hleft
          simp [hleft, not_le.2 hlt]
        · have hspent : budgetLeft opts place.1 = false := by simpa using hleft
          have hle : opts.budget ≤ (place.1.actions : ℤ) := by simpa [budgetLeft] using hleft
          have hacts : (visit rt dateNow opts (limitsOf engineId torrents) place.1 place.2).2.action
              ≠ .none ↔ _ := visit_acts_iff hspent
          simp [hle, hspent, ← hacts]
      · intro s t _
        rw [visit_actions]
        split_ifs <;> simp
    · refine ⟨fun h => absurd h ?_, fun h => absurd h.1 hbudget⟩
      omega

/-! ### Two seeds at their target -/

/-- Seeding stops at a ratio of one. -/
def stopAtOne : EffectivePolicy where
  seedPolicy := some { mode := .ratio, targetRatio := some 1, afterTarget := .pause }

def finished (hash : String) : PlannerTorrent where
  hash := hash
  engineId := "e"
  occupancy := .seedActive
  decision := ⟨hash, 0, .normal, []⟩
  policy := stopAtOne
  complete := true
  ratio := some 2

/-- One change is allowed, and two are planned. -/
theorem budget_exceeded :
    PlannerOptions.budget { now := 0, maxActionsPerSweep := some 1 } = 1 ∧
    actions (planEngine .ascii (fun _ => 0) { now := 0, maxActionsPerSweep := some 1 } "e"
      [finished "a", finished "b"] ⟨.native, .native, .native⟩).decisions = 2 := by
  decide +kernel

end UltraTorrent.Scheduler.ActionBudget
