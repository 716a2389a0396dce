import UltraTorrent.Scheduler.Sweeps

/-! Whether a seed that met its target stays stopped. The seed rule is asked only about
torrents that run, so nothing but a full engine or a spent action budget keeps a later
sweep from starting the seed again. -/
namespace UltraTorrent.Scheduler.SeedStops

open Library Library.EcmaScript
open Occupancy Planner WalkSteps Assignments Preview Reconciliation Sweeps

variable (rt : Runtime)

/-- The sweep pauses the torrent because its seed target was reached, the engine is seen to
carry the pause out and the note about it is written. -/
structure StoppedAtTarget (s : Sweep) (a : PlannerTorrent × TorrentDecision) : Prop where
  action : a.2.action = .pause
  reasonCode : a.2.reasonCode = .seedTargetReached
  confirmed : pauseConfirmed (s.provider.pauseTorrent a.2.hash) = true
  recorded : (s.provider.pauseTorrent a.2.hash).recorded = true

/-- The torrent with its policy and all that is known of it is the same; what it occupies,
when it was last acted on and how it ranks may differ. -/
def SameFacts (t t' : PlannerTorrent) : Prop :=
  t' = { t with
    occupancy := t'.occupancy, lastActionAt := t'.lastActionAt, decision := t'.decision }

/-- In the run, no seed stopped at its target is resumed by a later sweep that finds its
facts and its policy unchanged. -/
def StaysStopped (w : World) (events : List Event) : Prop :=
  (Walk.visits (step rt) w events).Pairwise fun v v' =>
    ∀ s s', v.2 = .sweep s → v'.2 = .sweep s' →
      ∀ a ∈ s.assigned rt v.1, StoppedAtTarget s a →
        ∀ a' ∈ s'.assigned rt v'.1, SameFacts a.1 a'.1 → a'.2.action ≠ .resume

/-- Where the walk reaches the torrent it could be resumed, but the actions of the sweep
are spent, or the torrent is not force-started and no seed slot is free. -/
def Crowded (s : Sweep) (w : World) (place : Slots × PlannerTorrent) : Prop :=
  place.2.occupancy.isResumable = true → budgetLeft s.options place.1 = false ∨
    place.2.forceStarted = false ∧ slotFree (s.limits rt w) place.1 true = false

variable {rt} {s : Sweep} {w : World}

theorem complete_of_stopped {a : PlannerTorrent × TorrentDecision} (ha : a ∈ s.assigned rt w)
    (h : StoppedAtTarget s a) : a.1.complete = true := by
  obtain ⟨v, -, rfl⟩ := Sweep.assigned_place ha (by rw [h.action]; nofun)
  exact complete_of_seedTargetReached h.reasonCode

theorem not_resumed_iff {v : Slots × PlannerTorrent} (hv : v ∈ s.walked rt w)
    (hcomplete : v.2.complete = true) :
    (s.decided rt w v).action ≠ .resume ↔ Crowded rt s w v := by
  unfold Sweep.decided Crowded
  rw [ne_eq, visit_resume_seed_iff (Sweep.not_untouchable hv) hcomplete]
  cases budgetLeft s.options v.1 <;> cases v.2.forceStarted <;>
    cases slotFree (s.limits rt w) v.1 true <;> simp

/-- One later sweep leaves the stopped seed alone exactly when it finds no way to start it. -/
theorem leaves_stopped_iff {s' : Sweep} {w' : World} {a : PlannerTorrent × TorrentDecision}
    (ha : a ∈ s.assigned rt w) (h : StoppedAtTarget s a) :
    (∀ a' ∈ s'.assigned rt w', SameFacts a.1 a'.1 → a'.2.action ≠ .resume) ↔
      ∀ place ∈ s'.walked rt w', SameFacts a.1 place.2 → Crowded rt s' w' place := by
  have hcomplete : ∀ t', SameFacts a.1 t' → t'.complete = true := fun t' hsame => by
    rw [hsame]
    exact complete_of_stopped ha h
  constructor
  · intro hleft place hplace hsame
    exact (not_resumed_iff hplace (hcomplete _ hsame)).1
      (hleft _ (Sweep.assigned_of_walked hplace) hsame)
  · intro hcrowded a' ha' hsame hresume
    obtain ⟨place, hplace, rfl⟩ := Sweep.assigned_place ha' (by rw [hresume]; nofun)
    exact (not_resumed_iff hplace (hcomplete _ hsame)).2 (hcrowded place hplace hsame) hresume

/-- A run restarts no seed that was stopped at its target exactly when each later sweep that
could resume the torrent, its facts and its policy unchanged, finds the engine full or its
actions spent. -/
theorem staysStopped_iff (w : World) (events : List Event) : StaysStopped rt w events ↔
    (Walk.visits (step rt) w events).Pairwise fun v v' =>
      ∀ s s', v.2 = .sweep s → v'.2 = .sweep s' →
        ∀ a ∈ s.assigned rt v.1, StoppedAtTarget s a →
          ∀ place ∈ s'.walked rt v'.1, SameFacts a.1 place.2 → Crowded rt s' v'.1 place := by
  refine List.Pairwise.iff fun v v' => forall₄_congr fun s s' _ _ => ?_
  exact forall₃_congr fun a ha h => leaves_stopped_iff ha h

/-! ### A seed that flaps -/

/-- Seeding ends at a ratio of one. -/
def ratioOne : PolicyService.PolicyRow :=
  { oneAtATime with
    seedPolicy := some { mode := .ratio, targetRatio := some 1, afterTarget := .pause } }

def seed (state : TorrentState) : TorrentSnapshot :=
  { download "a" state 1 with ratio := 2 }

def tablesAt (now : Instant) (state : TorrentState) : Tables := (small ratioOne now [seed state]).tables

/-- Nothing but the policy row decides the seed's policy. -/
theorem policyOf_seed (now : Instant) (state : TorrentState) :
    policyOf .ascii "/" (tablesAt now state) "e" now (seed state) =
      policyOf .ascii "/" (tablesAt 0 .seeding) "e" 0 (seed .seeding) := by
  simp [policyOf, libraryOf, ruleMatches, intakeJob, Scopes.libraryForPath, Schedule.applySchedule,
    Schedule.activeWindows, tablesAt, small, seed, download]

theorem sameFacts_seed (now now' : Instant) (state state' : TorrentState)
    (states states' : List SchedulerState) (caps caps' : TorrentQueueCapabilities) :
    SameFacts
      (plannerTorrent .ascii "/" (tablesAt now state) states "e" now caps (seed state))
      (plannerTorrent .ascii "/" (tablesAt now' state') states' "e" now' caps' (seed state')) := by
  simp only [SameFacts, plannerTorrent, policyOf_seed]
  rfl

def stopping : Sweep := small ratioOne 0 [seed .seeding]

def restarting : Sweep := small ratioOne 60000 [seed .paused]

/-- The seed is stopped at its target, and a minute later started again. -/
theorem stoppedSeed_restarts :
    ¬ StaysStopped .ascii quiet [.sweep stopping, .sweep restarting] := by
  intro h
  have hpair := List.rel_of_pairwise_cons h List.mem_cons_self
  have hstop : ∃ d ∈ stopping.decisions .ascii quiet,
      d.action = .pause ∧ d.reasonCode = .seedTargetReached := by decide +kernel
  have hrestart : ∃ d ∈ restarting.decisions .ascii (stopping.run .ascii quiet).1,
      d.action = .resume := by decide +kernel
  obtain ⟨d, hd, haction, hreason⟩ := hstop
  obtain ⟨d', hd', hresume⟩ := hrestart
  obtain ⟨t, ht⟩ := Sweep.exists_assigned hd
  obtain ⟨t', ht'⟩ := Sweep.exists_assigned hd'
  obtain ⟨caps, snap, hsnap, -, -, htorrent⟩ := Sweep.assigned_snapshot ht
  obtain ⟨caps', snap', hsnap', -, -, htorrent'⟩ := Sweep.assigned_snapshot ht'
  obtain rfl := List.mem_singleton.1 hsnap
  obtain rfl := List.mem_singleton.1 hsnap'
  refine hpair stopping restarting rfl rfl (t, d) ht ⟨haction, hreason, rfl, rfl⟩ (t', d') ht' ?_
    hresume
  rw [htorrent, htorrent']
  exact sameFacts_seed 0 60000 .seeding .paused quiet.states (stopping.run .ascii quiet).1.states
    caps caps'

end UltraTorrent.Scheduler.SeedStops
