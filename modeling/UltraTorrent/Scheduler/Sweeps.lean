import Mathlib.Data.List.ReduceOption
import Mathlib.Logic.Function.Basic
import UltraTorrent.Scheduler.Reconciliation

/-! Runs of the scheduler over engines other people use too. A sweep previews an engine,
plans it and carries the plan out; between two sweeps anybody may pause, resume, remove or
add a torrent. What the engines truly hold is kept beside the scheduler's notes, so that
the two can be compared. -/
namespace UltraTorrent.Scheduler.Sweeps

open Library Library.EcmaScript
open Occupancy Planner WalkSteps Assignments Preview Reconciliation

inductive Pauser where
  | scheduler
  | somebodyElse
  deriving DecidableEq

/-- Whether a torrent is paused, and by whom it was last. -/
structure Hold where
  paused : Bool
  pausedBy : Pauser
  deriving DecidableEq

namespace Hold

/-- A pause by the scheduler; pausing what is already paused changes nothing. -/
def pause (h : Hold) : Hold := if h.paused then h else ⟨true, .scheduler⟩

def resume (h : Hold) : Hold := { h with paused := false }

def pauseOutside (_ : Hold) : Hold := ⟨true, .somebodyElse⟩

/-- Somebody else's pause is in force. -/
def IsForeign (h : Hold) : Prop := h.paused = true ∧ h.pausedBy = .somebodyElse

instance : DecidablePred IsForeign := fun h =>
  inferInstanceAs (Decidable (h.paused = true ∧ h.pausedBy = .somebodyElse))

end Hold

/-- Hashes are told apart without regard to case. -/
structure TorrentKey where
  engineId : String
  hash : String
  deriving DecidableEq

abbrev Engines := TorrentKey → Hold

structure World where
  states : List SchedulerState
  engines : Engines

/-- One managed sweep of one engine: what it reads, when, what the engine answers, and
which commands truly take effect there, whatever the answers say. -/
structure Sweep where
  engineId : String
  tables : Tables
  cwd : String := "/"
  now : Instant
  dateNow : String → Instant
  provider : Provider
  effective : TorrentDecision → Bool

inductive Event where
  | pausedOutside (engineId hash : String)
  | resumedOutside (engineId hash : String)
  | removedOutside (engineId hash : String)
  | addedOutside (engineId hash : String) (paused : Bool)
  | sweep (s : Sweep)

/-- A resume call, with whoever paused the torrent last before it. -/
structure ResumeCall where
  hash : String
  pausedBy : Pauser
  deriving DecidableEq

variable (rt : Runtime)

def key (engineId hash : String) : TorrentKey := ⟨engineId, rt.toLowerCase hash⟩

/-! ### One sweep -/

namespace Sweep

variable (s : Sweep) (w : World)

def torrents (caps : TorrentQueueCapabilities) : List PlannerTorrent :=
  plannerTorrents rt s.cwd s.tables w.states s.engineId s.now caps

def plan : Option EngineActivityPlan :=
  previewEngine rt s.cwd s.tables w.states s.engineId s.now s.dateNow

def decisions : List TorrentDecision := ((plan rt s w).map (·.decisions)).getD []

/-- Each torrent the sweep sees with the decision about it. -/
def assigned : List (PlannerTorrent × TorrentDecision) :=
  ((capabilitiesOf s.tables s.engineId).map fun caps =>
    assignments rt s.dateNow { now := s.now } s.engineId (torrents rt s w caps) caps).getD []

/-- The places of the planner's walk, none on an engine that cannot pause. -/
def walked : List (Slots × PlannerTorrent) :=
  ((capabilitiesOf s.tables s.engineId).map fun caps =>
    if canDo caps.pause then
      places rt s.dateNow { now := s.now } s.engineId (torrents rt s w caps) caps
    else []).getD []

def limits : Limits :=
  ((capabilitiesOf s.tables s.engineId).map fun caps =>
    limitsOf s.engineId (torrents rt s w caps)).getD ⟨s.engineId, none, none, none⟩

def options : PlannerOptions := { now := s.now }

def decided (v : Slots × PlannerTorrent) : TorrentDecision :=
  (visit rt s.dateNow s.options (limits rt s w) v.1 v.2).2

def takesEffect (d : TorrentDecision) : Bool :=
  match d.action with
  | .pause => s.effective d || pauseConfirmed (s.provider.pauseTorrent d.hash)
  | .resume => s.effective d || resumeConfirmed (s.provider.resumeTorrent d.hash)
  | .removeAndCleanup => (s.provider.cleanUp d.hash).removed
  | .none => false

def afterCommand (d : TorrentDecision) (h : Hold) : Hold :=
  if s.takesEffect d then (if d.action = .pause then h.pause else h.resume) else h

/-- What one command does to the engines, and the resume call it is, if it is one. -/
def command (engines : Engines) (d : TorrentDecision) : Engines × Option ResumeCall :=
  let k := key rt s.engineId d.hash
  (Function.update engines k (s.afterCommand d (engines k)),
    if d.action = .resume then some ⟨d.hash, (engines k).pausedBy⟩ else none)

def run : World × List ResumeCall :=
  match plan rt s w with
  | none => (w, [])
  | some plan =>
    ({ states := (apply s.provider true plan w.states).states
       engines := Walk.finish (s.command rt) w.engines (commands plan) },
      (Walk.outputs (s.command rt) w.engines (commands plan)).reduceOption)

end Sweep

/-! ### Runs -/

def World.outside (w : World) (k : TorrentKey) (change : Hold → Hold) : World :=
  { w with engines := Function.update w.engines k (change (w.engines k)) }

def step (w : World) : Event → World × List ResumeCall
  | .pausedOutside engineId hash => (w.outside (key rt engineId hash) Hold.pauseOutside, [])
  | .resumedOutside engineId hash => (w.outside (key rt engineId hash) Hold.resume, [])
  | .removedOutside engineId hash => (w.outside (key rt engineId hash) Hold.resume, [])
  | .addedOutside engineId hash paused =>
    (w.outside (key rt engineId hash) (if paused then Hold.pauseOutside else Hold.resume), [])
  | .sweep s => s.run rt w

/-! ### Decisions of a sweep -/

variable {rt} {s : Sweep} {w : World}

namespace Sweep

theorem mem_decisions {d : TorrentDecision} :
    d ∈ decisions rt s w ↔ ∃ plan, Sweep.plan rt s w = some plan ∧ d ∈ plan.decisions := by
  unfold decisions
  cases Sweep.plan rt s w with
  | none => simp
  | some plan => simp

theorem mem_assigned {a : PlannerTorrent × TorrentDecision} :
    a ∈ assigned rt s w ↔ ∃ caps, capabilitiesOf s.tables s.engineId = some caps ∧
      a ∈ assignments rt s.dateNow { now := s.now } s.engineId (torrents rt s w caps) caps := by
  unfold assigned
  cases capabilitiesOf s.tables s.engineId with
  | none => simp
  | some caps => simp

/-- The decisions of a sweep are those about the torrents it sees. -/
theorem exists_assigned {d : TorrentDecision} (h : d ∈ decisions rt s w) :
    ∃ t, (t, d) ∈ assigned rt s w := by
  obtain ⟨plan, hplan, hd⟩ := mem_decisions.1 h
  obtain ⟨caps, hcaps, rfl⟩ := Option.map_eq_some_iff.1 hplan
  rw [← assignments_map_snd] at hd
  obtain ⟨a, ha, rfl⟩ := List.mem_map.1 hd
  exact ⟨a.1, mem_assigned.2 ⟨caps, hcaps, ha⟩⟩

theorem mem_walked {v : Slots × PlannerTorrent} :
    v ∈ walked rt s w ↔ ∃ caps, capabilitiesOf s.tables s.engineId = some caps ∧
      canDo caps.pause = true ∧
      v ∈ places rt s.dateNow { now := s.now } s.engineId (torrents rt s w caps) caps := by
  unfold walked
  cases capabilitiesOf s.tables s.engineId with
  | none => simp
  | some caps => cases hpause : canDo caps.pause <;> simp [hpause]

theorem assigned_snapshot {a : PlannerTorrent × TorrentDecision} (h : a ∈ assigned rt s w) :
    ∃ caps, ∃ snap ∈ s.tables.snapshots, snap.engineId = s.engineId ∧ a.2.hash = snap.hash ∧
      a.1 = plannerTorrent rt s.cwd s.tables w.states s.engineId s.now caps snap := by
  obtain ⟨caps, -, ha⟩ := mem_assigned.1 h
  obtain ⟨snap, hsnap, htorrent⟩ := List.mem_map.1 (fst_mem_of_mem_assignments ha)
  rw [snapshotsOf, List.mem_filter, decide_eq_true_eq] at hsnap
  refine ⟨caps, snap, hsnap.1, hsnap.2, ?_, htorrent.symm⟩
  rw [assignments_hash ha, ← htorrent]
  rfl

theorem decided_eq {caps : TorrentQueueCapabilities}
    (hcaps : capabilitiesOf s.tables s.engineId = some caps) (v : Slots × PlannerTorrent) :
    decided rt s w v =
      decisionAt rt s.dateNow { now := s.now } s.engineId (torrents rt s w caps) v := by
  simp only [decided, limits, hcaps]
  rfl

theorem not_untouchable {v : Slots × PlannerTorrent} (h : v ∈ walked rt s w) :
    v.2.occupancy.isUntouchable = false := by
  obtain ⟨caps, -, -, hv⟩ := mem_walked.1 h
  exact (mem_places hv).2

theorem assigned_of_walked {v : Slots × PlannerTorrent} (h : v ∈ walked rt s w) :
    (v.2, decided rt s w v) ∈ assigned rt s w := by
  obtain ⟨caps, hcaps, hpause, hv⟩ := mem_walked.1 h
  rw [decided_eq hcaps]
  exact mem_assigned.2 ⟨caps, hcaps, (mem_assignments hpause).2 (.inr ⟨v, hv, rfl⟩)⟩

theorem decisions_of_walked {v : Slots × PlannerTorrent} (h : v ∈ walked rt s w) :
    decided rt s w v ∈ decisions rt s w := by
  obtain ⟨caps, hcaps, ha⟩ := mem_assigned.1 (assigned_of_walked h)
  have hd := List.mem_map_of_mem (f := Prod.snd) ha
  rw [assignments_map_snd] at hd
  exact mem_decisions.2 ⟨_, by simp only [Sweep.plan, previewEngine, hcaps]; rfl, hd⟩

theorem assigned_place {a : PlannerTorrent × TorrentDecision} (h : a ∈ assigned rt s w)
    (haction : a.2.action ≠ .none) : ∃ v ∈ walked rt s w, a = (v.2, decided rt s w v) := by
  obtain ⟨caps, hcaps, ha⟩ := mem_assigned.1 h
  obtain ⟨hpause, v, hv, hva⟩ := action_place ha haction
  exact ⟨v, mem_walked.2 ⟨caps, hcaps, hpause, hv⟩, by rw [decided_eq hcaps, hva]⟩

theorem paused_transfers {a : PlannerTorrent × TorrentDecision} (h : a ∈ assigned rt s w)
    (hpause : a.2.action = .pause) : ∃ snap ∈ s.tables.snapshots,
      snap.engineId = s.engineId ∧ snap.hash = a.2.hash ∧ snap.state.transfers = true := by
  obtain ⟨v, hv, rfl⟩ := assigned_place h (by rw [hpause]; nofun)
  obtain ⟨caps, snap, hsnap, hengine, hhash, ht⟩ := assigned_snapshot h
  have hc := not_untouchable hv
  have hactive := visit_pause_active hpause
  dsimp only at ht hactive hc
  rw [ht] at hactive hc
  exact ⟨snap, hsnap, hengine, hhash.symm, plannerTorrent_active hc hactive⟩

theorem resumed_source {a : PlannerTorrent × TorrentDecision} (h : a ∈ assigned rt s w)
    (hresume : a.2.action = .resume) :
    active rt s.tables.overrides s.engineId s.now (rt.toLowerCase a.2.hash) .forceStart = true ∨
    (∃ r ∈ w.states, IsMark r ∧ key rt r.engineId r.hash = key rt s.engineId a.2.hash) ∨
    ∃ snap ∈ s.tables.snapshots,
      snap.engineId = s.engineId ∧ snap.hash = a.2.hash ∧ snap.state = .queued := by
  obtain ⟨v, hv, rfl⟩ := assigned_place h (by rw [hresume]; nofun)
  obtain ⟨caps, snap, hsnap, hengine, hhash, ht⟩ := assigned_snapshot h
  have hsource := visit_resume_source (not_untouchable hv) hresume
  dsimp only at ht hsource
  rw [ht] at hsource
  rw [hhash]
  obtain hforced | hresumable := hsource
  · exact .inl hforced
  · obtain ⟨r, hr, hmark, hrengine, hrhash⟩ | hqueued := plannerTorrent_resumable hresumable
    · refine .inr (.inl ⟨r, hr, hmark, ?_⟩)
      rw [key, key, hrengine, hrhash]
    · exact .inr (.inr ⟨snap, hsnap, hengine, rfl, hqueued⟩)

theorem plan_engineId {plan : EngineActivityPlan} (h : Sweep.plan rt s w = some plan) :
    plan.engineId = s.engineId := by
  obtain ⟨caps, -, rfl⟩ := Option.map_eq_some_iff.1 h
  unfold planEngine
  split_ifs <;> rfl

theorem run_of_plan {plan : EngineActivityPlan} (h : Sweep.plan rt s w = some plan) :
    s.run rt w = ({ states := (apply s.provider true plan w.states).states
                    engines := Walk.finish (s.command rt) w.engines (commands plan) },
      (Walk.outputs (s.command rt) w.engines (commands plan)).reduceOption) := by
  simp only [run, h]

theorem run_of_no_plan (h : Sweep.plan rt s w = none) : s.run rt w = (w, []) := by
  simp only [run, h]

end Sweep

/-! ### Small sweeps -/

/-- Nothing is noted and nothing is paused. -/
def quiet : World := ⟨[], fun _ => ⟨false, .scheduler⟩⟩

/-- One download may run at a time. -/
def oneAtATime : PolicyService.PolicyRow where
  id := "p"
  name := "one at a time"
  enabled := true
  scopeType := .global
  scopeId := none
  maxConcurrentDownloads := some 1
  maxConcurrentSeeds := none
  maxTotalActive := none
  maxDownloadRateKbps := none
  maxUploadRateKbps := none
  seedPolicy := none

def download (hash : String) (state : TorrentState) (progress : ℚ) : TorrentSnapshot where
  engineId := "e"
  hash := hash
  name := hash
  state := state
  progress := progress
  ratio := 0
  size := 1000
  uploaded := 0
  downloadRate := 0
  savePath := ""

/-- A sweep under one policy, of an engine that does as it is told. -/
def small (policy : PolicyService.PolicyRow) (now : Instant) (snapshots : List TorrentSnapshot) :
    Sweep where
  engineId := "e"
  tables := { engines := [("e", .qbittorrent)], snapshots := snapshots, policies := [policy] }
  now := now
  dateNow _ := now
  provider := .obedient now
  effective _ := true

end UltraTorrent.Scheduler.Sweeps
