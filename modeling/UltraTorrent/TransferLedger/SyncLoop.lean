import UltraTorrent.TransferLedger.Accrual

/-! The sync loop's part in the transfer ledger: one engine, its ledger row and its
snapshots. The engine goes on moving bytes between any two of the loop's calls, and any
call to it may fail. -/
namespace UltraTorrent.TransferLedger.SyncLoop

open Library.EcmaScript Library.Keyed Accrual

/-- An engine whose counters never exceed what it has moved in all. -/
structure Engine where
  torrents : List TransferReading
  allTime : Counters
  distinct : (torrents.map (·.hash)).Nodup
  counted : ∀ dir, (torrents.map fun t => t.of dir).sum ≤ allTime.of dir

inductive Move where
  | transfer (hash : String) (bytes : Counters)
  | add (hash : String)
  | remove (hash : String)
  deriving DecidableEq

def moveBytes (bytes : Counters) (t : TransferReading) : TransferReading :=
  { hash := t.hash, toCounters := t.toCounters + bytes }

theorem moveBytes_hash (bytes : Counters) (t : TransferReading) : (moveBytes bytes t).hash = t.hash := rfl

namespace Engine

theorem sum_transfer_le (e : Engine) (hash : String) (bytes : Counters) (dir : Direction) :
    ((modifyAt (·.hash) hash (moveBytes bytes) e.torrents).map fun t => t.of dir).sum ≤
      (e.torrents.map fun t => t.of dir).sum + bytes.of dir := by
  apply sum_modifyAt_le _ hash e.distinct
  · intro t
    exact (of_add t.toCounters bytes dir).le
  · intro t _
    exact le_rfl

/-- Bytes move through a torrent the engine holds, and its own total moves with them. -/
def transfer (e : Engine) (hash : String) (bytes : Counters) : Engine :=
  if hash ∈ e.torrents.map (·.hash) then
    { torrents := modifyAt (·.hash) hash (moveBytes bytes) e.torrents
      allTime := e.allTime + bytes
      distinct := by
        rw [map_key_modifyAt _ (moveBytes_hash bytes)]
        exact e.distinct
      counted := by
        intro dir
        rw [of_add]
        have := e.sum_transfer_le hash bytes dir
        have := e.counted dir
        omega }
  else e

/-- A torrent starts from zero, also when it was here before. -/
def add (e : Engine) (hash : String) : Engine :=
  if h : hash ∈ e.torrents.map (·.hash) then e
  else
    { torrents := { hash := hash } :: e.torrents
      allTime := e.allTime
      distinct := List.nodup_cons.2 ⟨h, e.distinct⟩
      counted := by
        intro dir
        rw [List.map_cons, List.sum_cons]
        have hzero : Counters.of {} dir = 0 := of_zero dir
        have := e.counted dir
        change Counters.of {} dir + _ ≤ _
        omega }

def remove (e : Engine) (hash : String) : Engine where
  torrents := e.torrents.filter (·.hash ≠ hash)
  allTime := e.allTime
  distinct := e.distinct.sublist (List.filter_sublist.map _)
  counted dir := (List.Sublist.sum_le_sum (List.filter_sublist.map _) (by simp)).trans (e.counted dir)

def step (e : Engine) : Move → Engine
  | .transfer hash bytes => e.transfer hash bytes
  | .add hash => e.add hash
  | .remove hash => e.remove hash

def run (e : Engine) (moves : List Move) : Engine := moves.foldl step e

end Engine

inductive BaselineSource where
  | engineAlltime
  | currentTorrents
  deriving DecidableEq

structure LedgerRow where
  baseline : Counters := {}
  baselineSource : Option BaselineSource := none
  baselineAt : Option Instant := none
  accrued : Counters := {}
  resetsObserved : ℕ := 0
  deriving DecidableEq

structure State where
  engine : Engine
  ledger : Option LedgerRow := none
  snapshots : String → Option Counters := fun _ => none
  /-- The engine is known to be settled, in this process. -/
  baselined : Bool := false

/-- `missing`: the provider has no such call, or it answers null. -/
inductive AllTimeReply where
  | failed
  | missing
  | answered
  deriving DecidableEq

/-- What a tick meets: which calls fail, and what the engine does between them. -/
structure Tick where
  now : Instant := 0
  restarted : Bool := false
  before : List Move := []
  allTimeReply : AllTimeReply
  beforeFallback : List Move := []
  fallbackFails : Bool := false
  beforeListing : List Move := []
  /-- `listTorrents` or `getGlobalStats`, which are awaited together. -/
  listingFails : Bool := false
  beforeWrite : List Move := []

/-- Baseline and accrued, zero while there is no row. -/
def totals (ledger : Option LedgerRow) : Counters :=
  match ledger with
  | none => 0
  | some row => row.baseline + row.accrued

def sumCounters (torrents : List TransferReading) : Counters where
  downloaded := (torrents.map (·.downloaded)).sum
  uploaded := (torrents.map (·.uploaded)).sum

def askedEngine (s : State) (t : Tick) : Engine := s.engine.run t.before

def fallbackEngine (s : State) (t : Tick) : Engine := (askedEngine s t).run t.beforeFallback

/-- A failed figure is not replaced by the fallback. -/
def seedValues (s : State) (t : Tick) : Option (Counters × BaselineSource) :=
  match t.allTimeReply with
  | .failed => none
  | .answered => some ((askedEngine s t).allTime, .engineAlltime)
  | .missing =>
    if t.fallbackFails then none
    else some (sumCounters (fallbackEngine s t).torrents, .currentTorrents)

/-- Has this engine's starting point been established? -/
def isSettled (s : State) (t : Tick) : Bool :=
  s.baselined && !t.restarted || (s.ledger.bind (·.baselineAt)).isSome

/-- The row may have been created by an accrual already; what it holds stays. -/
def ensureBaseline (s : State) (t : Tick) : State :=
  if isSettled s t then { s with baselined := true }
  else match seedValues s t with
    | none => { s with baselined := false }
    | some (seed, source) =>
      { s with
        ledger := some { s.ledger.getD {} with
          baseline := seed
          baselineSource := some source
          baselineAt := some t.now }
        baselined := true }

/-- The row after this sync's bytes are banked. -/
def accrualOperation (ledger : Option LedgerRow) (torrents : List TransferReading)
    (prior : String → Option Counters) : Option LedgerRow :=
  let result := accrue torrents prior
  if isEmpty result then ledger
  else
    let row := ledger.getD {}
    some { row with
      accrued := row.accrued + result.toCounters
      resetsObserved := row.resetsObserved + result.resets }

def priorSnapshots (snapshots : String → Option Counters) (torrents : List TransferReading) :
    String → Option Counters :=
  fun hash => if hash ∈ torrents.map (·.hash) then snapshots hash else none

def upsertAll (snapshots : String → Option Counters) (torrents : List TransferReading) :
    String → Option Counters :=
  torrents.foldl (fun table t => Function.update table t.hash (some t.toCounters)) snapshots

/-- The bytes are banked with the snapshots they were measured against, then the snapshots
of torrents the engine no longer lists go. -/
def persistSnapshots (s : State) (torrents : List TransferReading) : State :=
  let written := upsertAll s.snapshots torrents
  { s with
    ledger := accrualOperation s.ledger torrents (priorSnapshots s.snapshots torrents)
    snapshots := fun hash => if hash ∈ torrents.map (·.hash) then written hash else none }

def syncEngine (s : State) (t : Tick) : State :=
  let listed := (fallbackEngine s t).run t.beforeListing
  let settled := { ensureBaseline s t with engine := listed.run t.beforeWrite }
  if t.listingFails then settled else persistSnapshots settled listed.torrents

/-- A run of the loop, from an engine with no ledger row and no snapshots. -/
def runLoop (engine : Engine) (ticks : List Tick) : State := ticks.foldl syncEngine { engine := engine }

end UltraTorrent.TransferLedger.SyncLoop
