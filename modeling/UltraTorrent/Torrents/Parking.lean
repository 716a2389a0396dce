import Mathlib.Data.List.Sort
import UltraTorrent.Library.EcmaScript
import UltraTorrent.Library.Interleaving
import UltraTorrent.Library.Table
import UltraTorrent.Scheduler.Occupancy

/-! The parking of dead torrents, one action for each engine or database call. The audit writes
and the broadcast change nothing that is read here. Times are milliseconds. -/
namespace UltraTorrent.Torrents.Parking

open Library Library.EcmaScript
open Scheduler.Occupancy (TorrentState)

/-- A torrent, as a listing shows it. Both providers list hashes in lower case. -/
structure NormalizedTorrent where
  hash : String
  name : String
  state : TorrentState
  progress : ℚ
  downloadRate : ℤ
  seedsConnected : ℤ
  seedsTotal : ℤ
  peersConnected : ℤ
  /-- None when it is missing, or is no date. -/
  addedAt : Option ℤ

structure ParkingRules where
  enabled : Bool
  minSeeders : ℕ
  deadAfterMinutes : ℕ
  stalledAfterMinutes : ℕ
  probeBatchSize : ℕ
  probeIntervalMinutes : ℕ
  maxProbeIntervalMinutes : ℕ

def defaultParkingRules : ParkingRules where
  enabled := false
  minSeeders := 1
  deadAfterMinutes := 30
  stalledAfterMinutes := 180
  probeBatchSize := 20
  probeIntervalMinutes := 60
  maxProbeIntervalMinutes := 1440

inductive Reason where
  | noSeeders
  | stalled
  deriving DecidableEq

/-- An engine, and the hash of a torrent in lower case. -/
abbrev Key := String × String

structure ParkedTorrent where
  engineId : String
  hash : String
  name : String
  reason : Reason
  lastSeeders : ℤ
  probingSince : Option ℤ := none
  lastProbedAt : Option ℤ := none
  probeCount : ℕ := 0
  deriving DecidableEq

def ParkedTorrent.key (row : ParkedTorrent) : Key := (row.engineId, row.hash)

/-- The probe that has just been judged has found nothing. -/
def ParkedTorrent.judgedAt (row : ParkedTorrent) (now lastSeeders : ℤ) : ParkedTorrent :=
  { row with
    probingSince := none
    lastProbedAt := some now
    probeCount := row.probeCount + 1
    lastSeeders := lastSeeders }

def ParkedTorrent.probedAt (row : ParkedTorrent) (now : ℤ) : ParkedTorrent :=
  { row with probingSince := some now }

/-! ### Rules -/

def minutes (n : ℕ) : ℤ := n * 60000

/-- Why a torrent should leave the active queue; none to leave it there. -/
def deadReason (t : NormalizedTorrent) (rules : ParkingRules) (now : ℤ) : Option Reason :=
  if t.state ≠ .downloading then none
  else if 1 ≤ t.progress then none
  else if 0 < t.downloadRate then none
  else if 0 < t.seedsConnected then none
  else match t.addedAt with
    | none => none
    | some addedAt =>
      let ageMs := now - addedAt
      if t.peersConnected = 0 ∧ t.seedsTotal < rules.minSeeders ∧
          minutes rules.deadAfterMinutes ≤ ageMs then some .noSeeders
      else if 0 < rules.stalledAfterMinutes ∧ minutes rules.stalledAfterMinutes ≤ ageMs then
        some .stalled
      else none

def nextProbeAt (row : ParkedTorrent) (rules : ParkingRules) : ℤ :=
  match row.lastProbedAt with
  | none => 0
  | some lastProbedAt =>
    let backoff := min (rules.probeIntervalMinutes * 2 ^ (row.probeCount - 1))
      rules.maxProbeIntervalMinutes
    lastProbedAt + minutes backoff

def isProbeDue (row : ParkedTorrent) (rules : ParkingRules) (now : ℤ) : Bool :=
  nextProbeAt row rules ≤ now

/-! ### The engines and the table -/

structure Store where
  parkedTorrents : Table ParkedTorrent ParkedTorrent.key
  running : Bool
  /-- What the engines hold. -/
  torrents : List Key
  /-- The most recent pause was made by parking, and there was no resume since. A forced start
  does not count as one. -/
  parked : Key → Bool
  /-- How often `unpark` has released a torrent. -/
  releases : Key → ℕ
  /-- Released by `unpark`, and no listing read since has shown it dead. -/
  released : Key → Bool
  /-- Parking has paused a torrent that was still released. -/
  again : Bool

/-- What people do to torrents. -/
inductive UserAction where
  | add (key : Key)
  | remove (key : Key)
  | pause (key : Key)
  | resume (key : Key)

def Store.user (s : Store) : UserAction → Store
  | .add key => { s with torrents := key :: s.torrents }
  | .remove key => { s with
      torrents := s.torrents.filter (· ≠ key)
      parked := Function.update s.parked key false }
  | .pause key | .resume key => { s with parked := Function.update s.parked key false }

/-- A call to an engine or to the table about one torrent. -/
inductive Op where
  | forceStart (value : Bool)
  | pause
  | resume
  | create (row : ParkedTorrent)
  /-- The probe has found nothing. -/
  | judged (lastSeeders : ℤ)
  | probing
  | forget
  deriving DecidableEq

/-- A call that is `lost` has taken effect and throws all the same. -/
inductive Outcome where
  | done
  | failed
  | lost
  deriving DecidableEq

def Store.perform (s : Store) (key : Key) (now : ℤ) : Op → Store
  | .forceStart _ => s
  | .pause =>
    if key ∈ s.torrents then
      { s with
        parked := Function.update s.parked key true
        again := s.again || s.released key }
    else s
  | .resume => { s with parked := Function.update s.parked key false }
  | .create row => { s with parkedTorrents := s.parkedTorrents.addMissing row }
  | .judged lastSeeders => { s with
      parkedTorrents := s.parkedTorrents.updateAt key (·.judgedAt now lastSeeders) }
  | .probing => { s with parkedTorrents := s.parkedTorrents.updateAt key (·.probedAt now) }
  | .forget => { s with parkedTorrents := s.parkedTorrents.erase key }

def Store.apply (s : Store) (key : Key) (op : Op) (outcome : Outcome) (now : ℤ) : Store :=
  if outcome = .failed then s else s.perform key now op

/-- What is left to do in a block when an operation comes back. Only `forget` swallows what it
throws. -/
def after (op : Op) (outcome : Outcome) (rest : List Op) : List Op :=
  if outcome = .done ∨ op = .forget then rest else []

/-! ### Calls -/

structure Pass where
  /-- Called by `tick`. -/
  scheduled : Bool
  rules : ParkingRules
  /-- Still to visit. -/
  engines : List String

inductive Stage where
  | judgeProbes
  | judging (todo : List ParkedTorrent)
  | parkDead
  | parking (todo : List NormalizedTorrent) (alreadyParked : List String)
  | startProbes
  | probing (todo : List ParkedTorrent)

/-- The part of `run` about one engine. -/
structure Visit where
  engineId : String
  torrents : List NormalizedTorrent
  /-- The releases there had been when the listing was read. -/
  seen : Key → ℕ
  stage : Stage
  /-- The torrent in hand, and what is left to do about it. -/
  hash : String
  ops : List Op

/-- A hash in a request. -/
structure Spelled where
  hash : String
  /-- It is written as the table has it. -/
  lowerCase : Bool

inductive Call where
  | idle
  | getRules (scheduled : Bool)
  | run (pass : Pass)
  | visit (pass : Pass) (v : Visit)
  | unpark (engineId : String) (hash : Spelled)
  | unparking (engineId : String) (hash : Spelled) (ops : List Op)

inductive Answer where
  | user (action : UserAction)
  | tick
  | runNow
  | unpark (engineId : String) (hash : Spelled)
  /-- The rules, unless they cannot be read, and the engines of the registry. -/
  | rules (rules : Option ParkingRules) (engines : List String)
  | listed (torrents : Option (List NormalizedTorrent)) (now : ℤ)
  | found (fails : Bool) (now : ℤ)
  | next (now : ℤ)
  | op (outcome : Outcome) (now : ℤ)
  | resolved (available : Bool)

def Visit.byHash (v : Visit) (hash : String) : Option NormalizedTorrent :=
  mapGet (v.torrents.map fun t => (t.hash, t)) hash

/-- What `judgeProbes` does about a row. -/
def Visit.judgeProbe (v : Visit) (row : ParkedTorrent) : List Op :=
  match v.byHash row.hash with
  | none => [.forget]
  | some t =>
    let completed : Bool := 1 ≤ t.progress
    let alive : Bool := completed || 0 < t.seedsConnected || 0 < t.downloadRate
    if alive then [.forceStart false, .resume, .forget]
    else [.forceStart false, .pause, .judged t.seedsTotal]

/-- What `startProbes` does about a row. -/
def Visit.startProbe (v : Visit) (row : ParkedTorrent) : List Op :=
  match v.byHash row.hash with
  | none => [.forget]
  | some _ => [.forceStart true, .probing]

def Visit.record (v : Visit) (t : NormalizedTorrent) (reason : Reason) : ParkedTorrent where
  engineId := v.engineId
  hash := t.hash
  name := t.name
  reason := reason
  lastSeeders := t.seedsTotal

/-- The rows whose probe is due, those overdue longest first. -/
def due (candidates : List ParkedTorrent) (rules : ParkingRules) (now : ℤ) : List ParkedTorrent :=
  ((candidates.filter fun row => isProbeDue row rules now).insertionSort
    fun a b => nextProbeAt a rules ≤ nextProbeAt b rules).take rules.probeBatchSize

def Store.rowsOf (s : Store) (engineId : String) : List ParkedTorrent :=
  s.parkedTorrents.rows.filter fun row => row.engineId = engineId

/-- The end of a pass, `finally` included. -/
def finish (s : Store) (scheduled : Bool) : Store × Call :=
  ({ s with running := s.running && !scheduled }, .idle)

def Visit.at (v : Visit) (stage : Stage) : Visit := { v with stage := stage }

def Visit.take (v : Visit) (stage : Stage) (hash : String) (ops : List Op) : Visit :=
  { v with stage := stage, hash := hash, ops := ops }

def query (s : Store) (pass : Pass) (v : Visit) (now : ℤ) : Option Visit :=
  let rows := s.rowsOf v.engineId
  match v.stage with
  | .judgeProbes => some (v.at (.judging (rows.filter (·.probingSince.isSome))))
  | .parkDead => some (v.at (.parking v.torrents (rows.map (·.hash))))
  | .startProbes =>
    some (v.at (.probing (due (rows.filter (·.probingSince.isNone)) pass.rules now)))
  | _ => none

def Store.shownDead (s : Store) (v : Visit) (rules : ParkingRules) (now : ℤ) (hash : String) :
    Bool :=
  v.seen (v.engineId, hash) = s.releases (v.engineId, hash) &&
    v.torrents.any fun t => t.hash = hash && (deadReason t rules now).isSome

def Store.shown (s : Store) (v : Visit) (rules : ParkingRules) (now : ℤ) : Store :=
  { s with released := fun key =>
      s.released key && !(decide (key.1 = v.engineId) && s.shownDead v rules now key.2) }

/-- The loops of a visit going on to their next torrent. -/
def proceed (s : Store) (pass : Pass) (v : Visit) (now : ℤ) : Option (Store × Call) :=
  match v.stage with
  | .judging [] => some (s, .visit pass (v.at .parkDead))
  | .judging (row :: todo) =>
    some (s, .visit pass (v.take (.judging todo) row.hash (v.judgeProbe row)))
  | .parking [] _ => some (s, .visit pass (v.at .startProbes))
  | .parking (t :: todo) alreadyParked =>
    let stage : Stage := .parking todo alreadyParked
    if t.hash ∈ alreadyParked then some (s, .visit pass (v.at stage))
    else match deadReason t pass.rules now with
      | none => some (s, .visit pass (v.at stage))
      | some reason =>
        some (s.shown v pass.rules now,
          .visit pass (v.take stage t.hash [.pause, .create (v.record t reason)]))
  | .probing [] => some (s, .run pass)
  | .probing (row :: todo) =>
    some (s, .visit pass (v.take (.probing todo) row.hash (v.startProbe row)))
  | _ => none

def Store.lists (s : Store) (engineId : String) (torrents : List NormalizedTorrent) : Bool :=
  s.torrents.all fun key => key.1 ≠ engineId || torrents.any (·.hash = key.2)

def visitOf (s : Store) (engineId : String) (torrents : List NormalizedTorrent) : Visit :=
  ⟨engineId, torrents, s.releases, .judgeProbes, "", []⟩

/-- `unpark` has released a torrent. -/
def Store.release (s : Store) (key : Key) : Store :=
  { s with
    releases := Function.update s.releases key (s.releases key + 1)
    released := Function.update s.released key true }

/-- A call of `unpark`: the engine knows a hash in either case, the table in one. -/
def unparkStep (s : Store) (engineId : String) (hash : Spelled) (op : Op) (rest : List Op)
    (outcome : Outcome) (now : ℤ) : Store × Call :=
  let key := (engineId, hash.hash)
  if op = .forget then
    ((if hash.lowerCase then s.apply key op outcome now else s).release key, .idle)
  else
    let rest := after op outcome rest
    (s.apply key op outcome now,
      if rest = [] then .idle else .unparking engineId hash rest)

def act (s : Store) (k : Call) (answer : Answer) : Option (Store × Call) :=
  match k, answer with
  | .idle, .user action => some (s.user action, .idle)
  | .idle, .tick =>
    some (if s.running then (s, .idle) else ({ s with running := true }, .getRules true))
  | .idle, .runNow => some (s, .getRules false)
  | .idle, .unpark engineId hash => some (s, .unpark engineId hash)
  | .getRules scheduled, .rules rules engines =>
    match rules with
    | none => some (finish s scheduled)
    | some rules =>
      some (if rules.enabled then (s, .run ⟨scheduled, rules, engines⟩) else finish s scheduled)
  | .run pass, .listed listing now =>
    match pass.engines, listing with
    | [], _ => some (finish s pass.scheduled)
    -- One unreachable engine must not stop the others.
    | _ :: engines, none => some (s, .run { pass with engines := engines })
    | engineId :: engines, some torrents =>
      let v := visitOf s engineId torrents
      if s.lists engineId torrents then
        some (s.shown v pass.rules now, .visit { pass with engines := engines } v)
      else none
  | .visit pass v, answer =>
    match v.ops, answer with
    | op :: rest, .op outcome now =>
      some (s.apply (v.engineId, v.hash) op outcome now,
        .visit pass { v with ops := after op outcome rest })
    | [], .found fails now =>
      (query s pass v now).map fun v => if fails then finish s pass.scheduled else (s, .visit pass v)
    | [], .next now => proceed s pass v now
    | _, _ => none
  | .unpark engineId hash, .resolved available =>
    some (s, if available then .unparking engineId hash [.forceStart false, .resume, .forget]
      else .idle)
  | .unparking engineId hash (op :: rest), .op outcome now =>
    some (unparkStep s engineId hash op rest outcome now)
  | _, _ => none

end UltraTorrent.Torrents.Parking
