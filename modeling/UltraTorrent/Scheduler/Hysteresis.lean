import UltraTorrent.Scheduler.Sweeps

/-! Whether a torrent the scheduler started is left to run for a while. The planner would
leave it alone, but it learns when a torrent was last acted on from the notes that claim a
pause, and a verified resume takes that claim back. -/
namespace UltraTorrent.Scheduler.Hysteresis

open Library Library.EcmaScript
open Occupancy Planner WalkSteps Assignments Preview Reconciliation Sweeps

variable (rt : Runtime)

/-- The sweep resumes the torrent and the engine is seen to run it. -/
structure Resumed (s : Sweep) (w : World) (hash : String) : Prop where
  decided : ∃ d ∈ s.decisions rt w, d.hash = hash ∧ d.action = .resume
  confirmed : resumeConfirmed (s.provider.resumeTorrent hash) = true

def PausesForLimit (s : Sweep) (w : World) (hash : String) : Prop :=
  ∃ d ∈ s.decisions rt w, d.hash = hash ∧ d.action = .pause ∧ d.reasonCode.isLimit = true

/-- Less than the minimum active time has passed. -/
def within (s : Sweep) (since : Instant) : Prop :=
  ((s.now - since : ℤ) : ℚ) / 1000 < s.options.minimumActive

/-- In the run, no torrent that a sweep resumed and saw running is paused for a limit by a
later sweep of the engine within the minimum active time. -/
def HysteresisHolds (w : World) (events : List Event) : Prop :=
  (Walk.visits (step rt) w events).Pairwise fun v v' =>
    ∀ s s', v.2 = .sweep s → v'.2 = .sweep s' → s'.engineId = s.engineId →
      s.now ≤ s'.now → within s' s.now →
        ∀ hash, Resumed rt s v.1 hash → ¬ PausesForLimit rt s' v'.1 hash

/-- A note claims the torrent's pause, and it was acted on within the minimum active time. -/
def HeldRecently (s : Sweep) (w : World) (hash : String) : Prop :=
  ∃ since ∈ (mapGet (ourPauses rt w.states s.engineId) (rt.toLowerCase hash)).join, within s since

/-- The walk finds the torrent running over its limit, with nothing but hysteresis in the
way of pausing it. -/
def OverLimit (s : Sweep) (w : World) (hash : String) : Prop :=
  ∃ place ∈ s.walked rt w, place.2.hash = hash ∧
    overLimit rt s.dateNow s.options (s.limits rt w) place.1 place.2 = true

variable {rt} {s : Sweep} {w : World}

theorem heldFor_lt_iff {place : Slots × PlannerTorrent} (h : place ∈ s.walked rt w) :
    heldFor s.options place.2 < s.options.minimumActive ↔ HeldRecently rt s w place.2.hash := by
  obtain ⟨caps, snap, -, -, hhash, ht⟩ := Sweep.assigned_snapshot (Sweep.assigned_of_walked h)
  dsimp only at ht
  have hlast : place.2.lastActionAt =
      (mapGet (ourPauses rt w.states s.engineId) (rt.toLowerCase place.2.hash)).join := by
    rw [ht]
    rfl
  unfold heldFor HeldRecently within
  rw [← hlast]
  cases place.2.lastActionAt with
  | some since => simp [Sweep.options]
  | none =>
    simp only [Option.mem_def, reduceCtorEq, false_and, exists_false, iff_false, not_lt]
    norm_num [Sweep.options, PlannerOptions.minimumActive, Priority.maxSafeInteger]

/-- A sweep pauses a torrent for a limit exactly when it finds the torrent over its limit
and no note shows that it was acted on just now. -/
theorem pausesForLimit_iff {hash : String} :
    PausesForLimit rt s w hash ↔ OverLimit rt s w hash ∧ ¬ HeldRecently rt s w hash := by
  constructor
  · rintro ⟨d, hd, rfl, hpause, hlimit⟩
    obtain ⟨t, ht⟩ := Sweep.exists_assigned hd
    obtain ⟨place, hplace, ha⟩ := Sweep.assigned_place ht (by rw [hpause]; nofun)
    obtain ⟨rfl, rfl⟩ := Prod.ext_iff.1 ha
    have hhash : (s.decided rt w place).hash = place.2.hash := visit_hash
    obtain ⟨hover, hheld⟩ := visit_limit_iff.1 hlimit
    rw [hhash]
    exact ⟨⟨place, hplace, rfl, hover⟩, fun hrecent => hheld ((heldFor_lt_iff hplace).2 hrecent)⟩
  · rintro ⟨⟨place, hplace, rfl, hover⟩, hrecent⟩
    have hlimit : (s.decided rt w place).reasonCode.isLimit = true :=
      visit_limit_iff.2 ⟨hover, fun hheld => hrecent ((heldFor_lt_iff hplace).1 hheld)⟩
    exact ⟨s.decided rt w place, Sweep.decisions_of_walked hplace, visit_hash,
      pause_of_limit hlimit, hlimit⟩

/-! ### Runs -/

/-- Hysteresis holds in a run exactly when no sweep, within the minimum active time of a
verified resume, finds the torrent over its limit, unless a note claims a pause of the
torrent and shows that it was acted on within that time. -/
theorem hysteresisHolds_iff (w : World) (events : List Event) : HysteresisHolds rt w events ↔
    (Walk.visits (step rt) w events).Pairwise fun v v' =>
      ∀ s s', v.2 = .sweep s → v'.2 = .sweep s' → s'.engineId = s.engineId →
        s.now ≤ s'.now → within s' s.now →
          ∀ hash, Resumed rt s v.1 hash → OverLimit rt s' v'.1 hash → HeldRecently rt s' v'.1 hash := by
  refine List.Pairwise.iff fun v v' => forall₄_congr fun s s' _ _ => ?_
  refine forall₄_congr fun _ _ _ hash => forall_congr' fun _ => ?_
  rw [pausesForLimit_iff, not_and, not_not]

/-! ### A torrent stopped right after it was started -/

def both (now : Instant) : Sweep :=
  small oneAtATime now [download "a" .downloading (1 / 10), download "b" .downloading (1 / 2)]

def alone : Sweep := small oneAtATime 60000 [download "a" .paused (1 / 10)]

/-- The scheduler makes room, starts the torrent again when a slot comes free, and stops it
a minute later when somebody starts a torrent that ranks higher. -/
theorem startedTorrent_stopped :
    ¬ HysteresisHolds .ascii quiet [.sweep (both 0), .sweep alone, .sweep (both 120000)] := by
  intro h
  have hpair := List.rel_of_pairwise_cons (List.pairwise_cons.1 h).2 List.mem_cons_self
  have hresumed : Resumed .ascii alone ((both 0).run .ascii quiet).1 "a" :=
    ⟨by decide +kernel, by decide⟩
  have hpaused : ∃ d ∈ (both 120000).decisions .ascii (alone.run .ascii ((both 0).run .ascii quiet).1).1,
      d.hash = "a" ∧ d.action = .pause ∧ d.reasonCode.isLimit = true := by decide +kernel
  refine hpair alone (both 120000) rfl rfl rfl (by decide) ?_ "a" hresumed hpaused
  norm_num [within, both, alone, small, Sweep.options, PlannerOptions.minimumActive]

end UltraTorrent.Scheduler.Hysteresis
