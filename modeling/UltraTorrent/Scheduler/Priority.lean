import Mathlib.Data.List.Sort
import UltraTorrent.Library.EcmaScript

/-! The priority score with its recorded contributions, and the ordering the planner
walks. -/
namespace UltraTorrent.Scheduler.Priority

open Library.EcmaScript

inductive PriorityBand where
  | critical
  | high
  | normal
  | low
  | fallback
  deriving DecidableEq

inductive PriorityReasonCode where
  | forceStarted
  | userPriorityHigh
  | userPriorityLow
  | wantedItem
  | qualityUpgrade
  | intakeWaiting
  | privateTracker
  | progress
  | waiting
  | noSeeders
  deriving DecidableEq

def PriorityReasonCode.text : PriorityReasonCode → String
  | .forceStarted => "force_started"
  | .userPriorityHigh => "user_priority_high"
  | .userPriorityLow => "user_priority_low"
  | .wantedItem => "wanted_item"
  | .qualityUpgrade => "quality_upgrade"
  | .intakeWaiting => "intake_waiting"
  | .privateTracker => "private_tracker"
  | .progress => "progress"
  | .waiting => "waiting"
  | .noSeeders => "no_seeders"

structure PriorityReason where
  code : PriorityReasonCode
  contribution : ℤ
  values : List (String × ℚ) := []
  deriving DecidableEq

def PriorityReason.messageKey (r : PriorityReason) : String := "scheduler.priority." ++ r.code.text

structure TorrentPriorityDecision where
  torrentHash : String
  score : ℤ
  band : PriorityBand
  reasons : List PriorityReason
  deriving DecidableEq

inductive UserPriority where
  | high
  | normal
  | low
  deriving DecidableEq

structure PriorityFacts where
  torrentHash : String
  userPriority : Option UserPriority := none
  forceStarted : Bool := false
  progress : ℚ
  waitingMinutes : Option ℚ := none
  seeders : Option ℤ := none
  isPrivate : Bool := false
  wanted : Bool := false
  upgrade : Bool := false
  intakePending : Bool := false
  deriving DecidableEq

namespace Weight

def forceStart : ℤ := 1000
def userHigh : ℤ := 400
def userLow : ℤ := -400
def wanted : ℤ := 150
def upgrade : ℤ := 60
def intakePending : ℤ := 120
def privateTracker : ℤ := 80
def progressMax : ℚ := 100
def waitingPerHourMax : ℚ := 90
def noSeeders : ℤ := -200

end Weight

def band (score : ℤ) : PriorityBand :=
  if 800 ≤ score then .critical
  else if 300 ≤ score then .high
  else if 0 ≤ score then .normal
  else if -300 ≤ score then .low
  else .fallback

/-- A contribution of zero is not recorded. -/
def add (code : PriorityReasonCode) (contribution : ℤ) (values : List (String × ℚ) := []) :
    List PriorityReason :=
  if contribution = 0 then [] else [⟨code, contribution, values⟩]

def reasonsOf (facts : PriorityFacts) : List PriorityReason :=
  let progress := max 0 (min 1 facts.progress)
  (if facts.forceStarted then add .forceStarted Weight.forceStart else [])
  ++ (match facts.userPriority with
    | some .high => add .userPriorityHigh Weight.userHigh
    | some .low => add .userPriorityLow Weight.userLow
    | _ => [])
  ++ (if facts.wanted then add .wantedItem Weight.wanted else [])
  ++ (if facts.upgrade then add .qualityUpgrade Weight.upgrade else [])
  ++ (if facts.intakePending then add .intakeWaiting Weight.intakePending else [])
  ++ (if facts.isPrivate then add .privateTracker Weight.privateTracker else [])
  ++ add .progress (round (progress * Weight.progressMax)) [("percent", round (progress * 100))]
  ++ (match facts.waitingMinutes with
    | some minutes =>
      if 0 < minutes then
        add .waiting (round (min Weight.waitingPerHourMax (minutes / 60 * 10))) [("minutes", minutes)]
      else []
    | none => [])
  ++ (match facts.seeders with
    | some seeders => if seeders ≤ 0 then add .noSeeders Weight.noSeeders else []
    | none => [])

def scoreTorrent (facts : PriorityFacts) : TorrentPriorityDecision :=
  let reasons := reasonsOf facts
  let score := (reasons.map PriorityReason.contribution).sum
  ⟨facts.torrentHash, score, band score, reasons⟩

/-! ### Ordering -/

structure OrderableTorrent where
  decision : TorrentPriorityDecision
  currentlyActive : Bool
  addedAt : Option Instant

def maxSafeInteger : ℤ := 9007199254740991

/-- The comparator handed to `sort`: negative puts `a` first. -/
def comparePriority (rt : Runtime) (a b : OrderableTorrent) : ℤ :=
  if b.decision.score ≠ a.decision.score then b.decision.score - a.decision.score
  else if a.currentlyActive ≠ b.currentlyActive then (if a.currentlyActive then -1 else 1)
  else
    let addedA := a.addedAt.getD maxSafeInteger
    let addedB := b.addedAt.getD maxSafeInteger
    if addedA ≠ addedB then addedA - addedB
    else rt.localeCompare a.decision.torrentHash b.decision.torrentHash

variable {α : Type*}

/-- Stable, highest priority first. -/
def orderByPriority (rt : Runtime) (orderable : α → OrderableTorrent) (items : List α) : List α :=
  items.insertionSort fun a b => comparePriority rt (orderable a) (orderable b) ≤ 0

theorem orderByPriority_perm (rt : Runtime) (orderable : α → OrderableTorrent) (items : List α) :
    (orderByPriority rt orderable items).Perm items :=
  List.perm_insertionSort _ _

end UltraTorrent.Scheduler.Priority
