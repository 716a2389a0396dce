import UltraTorrent.Library.EcmaScript
import UltraTorrent.Library.Table

/-! The session poll of a media server: what its provider lists as playing is reconciled with the
rows of its connection, and what has ended is written to the watch history. -/
namespace UltraTorrent.MediaServerAnalytics.SessionPoll

open Library Library.EcmaScript

/-- How many polls a session may be missing for; it ends at this one. -/
def gracePolls : ℕ := 4

/-- What is being played, and how. A property the provider leaves out is stored as null. -/
structure Playback where
  providerUserId : Option String := none
  userName : Option String := none
  title : String
  mediaType : Option String := none
  libraryName : Option String := none
  device : Option String := none
  client : Option String := none
  ipAddress : Option String := none
  playbackState : Option String := none
  progressPercent : Option ℤ := none
  playbackMethod : Option String := none
  videoCodec : Option String := none
  audioCodec : Option String := none
  resolution : Option String := none
  container : Option String := none
  bitrateKbps : Option ℤ := none
  artPath : Option String := none
  showTitle : Option String := none
  episodeTitle : Option String := none
  seasonNumber : Option ℤ := none
  episodeNumber : Option ℤ := none
  year : Option ℤ := none
  externalIds : List (String × String) := []
  deriving DecidableEq

structure ProviderSession where
  sessionId : String
  playing : Playback
  deriving DecidableEq

/-- A stored session. -/
structure Row where
  id : String
  providerSessionId : String
  playing : Playback
  missedPolls : ℕ := 0
  startedAt : ℤ
  deriving DecidableEq

/-- Of what was being played, everything but the artwork and the identity of the item is kept. -/
structure WatchHistory where
  watched : Playback
  startedAt : ℤ
  stoppedAt : ℤ
  watchedSeconds : ℤ
  deriving DecidableEq

/-! ### Viewings -/

section Viewings

variable (rt : Runtime)

def normalize (title : String) : String := rt.toLowerCase (rt.trim title)

/-- A stable key for the thing being played. -/
def viewingKey (v : Playback) : String :=
  let other := "t:" ++ normalize rt v.title ++ ":" ++ (v.year.map toString).getD ""
  match v.showTitle, v.seasonNumber, v.episodeNumber with
  | some showTitle, some season, some episode =>
    if showTitle = "" then other
    else "ep:" ++ normalize rt showTitle ++ ":s" ++ toString season ++ ":e" ++ toString episode
  | _, _, _ => other

/-- The session has moved on to a different item. -/
def isNewViewing (prev next : Playback) : Bool :=
  viewingKey rt prev ≠ viewingKey rt next ∧ prev.title ≠ next.title

end Viewings

/-- The same person watching the same thing on the same device. -/
def sameViewing (r : Row) (s : ProviderSession) : Bool :=
  r.playing.title = s.playing.title ∧ r.playing.userName = s.playing.userName ∧
    r.playing.device = s.playing.device

/-! ### The poll -/

/-- A row that goes on with what the provider lists, from now on if it is a new item. -/
def Row.continued (row : Row) (s : ProviderSession) (startedAt : Option ℤ) : Row :=
  { row with
    providerSessionId := s.sessionId
    missedPolls := 0
    startedAt := startedAt.getD row.startedAt
    playing := { s.playing with
      externalIds :=
        if s.playing.externalIds = [] then row.playing.externalIds else s.playing.externalIds } }

def Row.missed (row : Row) (missedPolls : ℕ) : Row := { row with missedPolls := missedPolls }

def recordStop (now : ℤ) (row : Row) : WatchHistory where
  watched := row.playing
  startedAt := row.startedAt
  stoppedAt := now
  watchedSeconds := max 0 (round ((now - row.startedAt : ℚ) / 1000))

def byProviderId (rows : List Row) (sessionId : String) : Option Row :=
  mapGet (rows.map fun r => (r.providerSessionId, r)) sessionId

/-- The row a session is taken to belong to. `rows` is what the table held before the poll. -/
def existing (rows : List Row) (seen claimed : List String) (s : ProviderSession) : Option Row :=
  (byProviderId rows s.sessionId).or
    (rows.find? fun r => r.id ∉ claimed ∧ r.providerSessionId ∉ seen ∧ sameViewing r s)

structure Poll where
  seen : List String
  claimed : List String
  sessions : Table Row Row.id
  /-- The stops recorded by this poll. -/
  history : List WatchHistory

variable (rt : Runtime) (uuid : String → String) (now : ℤ) (rows : List Row)

/-- The row created for a session; the table makes up its id. -/
def createdRow (s : ProviderSession) : Row where
  id := uuid s.sessionId
  providerSessionId := s.sessionId
  playing := s.playing
  startedAt := now

/-- One round of the loop over the listed sessions. -/
def visit (st : Poll) (s : ProviderSession) : Poll :=
  let seen := s.sessionId :: st.seen
  match existing rows seen st.claimed s with
  | some r =>
    let newItem := isNewViewing rt r.playing s.playing
    { seen := seen
      claimed := r.id :: st.claimed
      history := if newItem then recordStop now r :: st.history else st.history
      sessions := st.sessions.updateAt r.id (·.continued s (if newItem then some now else none)) }
  | none => { st with
      seen := seen
      sessions := st.sessions.addMissing (createdRow uuid now s) }

/-- One round of the loop over the rows: what is still missing after the grace period has ended. -/
def settle (st : Poll) (c : Row) : Poll :=
  if c.id ∈ st.claimed ∨ c.providerSessionId ∈ st.seen then st
  else if c.missedPolls + 1 < gracePolls then
    { st with sessions := st.sessions.updateAt c.id (·.missed (c.missedPolls + 1)) }
  else
    { st with
      history := recordStop now c :: st.history
      sessions := st.sessions.erase c.id }

/-- The poll of one connection, in which no call fails. -/
def poll (table : Table Row Row.id) (sessions : List ProviderSession) : Poll :=
  table.rows.foldl (settle now)
    (sessions.foldl (visit rt uuid now table.rows) ⟨[], [], table, []⟩)

end UltraTorrent.MediaServerAnalytics.SessionPoll
