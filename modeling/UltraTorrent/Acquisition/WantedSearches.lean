import UltraTorrent.Library.EcmaScript
import UltraTorrent.Acquisition.MissingEpisodes
import UltraTorrent.Library.Interleaving

/-! Which release is grabbed for a wanted episode, or for the episodes a pack covers. -/
namespace UltraTorrent.Acquisition.ReleaseSelection

open Library.EcmaScript

structure Candidate where
  title : String
  downloadUrl : Option String
  sizeBytes : Option ℤ
  seeders : Option ℤ
  deriving DecidableEq

/-- What a pack classification says; `none` where there is no season to tell. -/
inductive PackClassification where
  | none
  | season (season : ℤ)
  | series (range : Option (ℤ × ℤ))
  deriving DecidableEq

inductive PackTarget where
  | season (season : ℤ)
  | series (seasons : List ℤ)
  deriving DecidableEq

/-- The parsers of release names, the title comparison and the preference rules, over preferences
of type `P`. -/
structure Rules (P : Type) where
  rt : Runtime
  /-- Season and episode of `parseTorrentName`. -/
  parse : String → Option ℤ × Option ℤ
  showPattern : String → String
  showTitleMatch : String → String → Bool
  /-- `evaluatePreferenceList`: the priority of what matched. -/
  evaluate : List P → String → Option ℤ → Option ℤ
  classifyPack : String → PackClassification
  packTitleRegion : String → String
  /-- A preference without its size rules and its pattern. -/
  neutral : P → P

/-! ### Normal forms -/

/-- Apostrophes are left out, they do not separate. -/
def apostrophes : List Char := [Char.ofNat 39, Char.ofNat 8217, Char.ofNat 96]

def isWordChar (c : Char) : Bool := c.isDigit || ('a' ≤ c && c ≤ 'z')

/-- The words of a title, with one blank between two of them. -/
def normalize (rt : Runtime) (input : String) : String :=
  let chars := (rt.toLowerCase input).toList.filter fun c => !apostrophes.contains c
  let words := (chars.splitOnP fun c => !isWordChar c).filter (· ≠ [])
  " ".intercalate (words.map String.ofList)

/-! ### Ranking -/

structure Scored where
  candidate : Candidate
  matchedPriority : ℤ
  deriving DecidableEq

def magnetRank (c : Candidate) : ℤ :=
  if "magnet:".toList.isPrefixOf (c.downloadUrl.getD "").toList then 0 else 1

def noLater (a b : Scored) : Bool :=
  let rank (s : Scored) := magnetRank s.candidate
  let seeders (s : Scored) := s.candidate.seeders.getD (-1)
  a.matchedPriority < b.matchedPriority ∨ a.matchedPriority = b.matchedPriority ∧
    (rank a < rank b ∨ rank a = rank b ∧ seeders b ≤ seeders a)

def best (scored : List Scored) : Option Scored := (scored.mergeSort noLater).head?

theorem mem_of_best {scored : List Scored} {s : Scored} (h : best scored = some s) : s ∈ scored :=
  List.mem_mergeSort.1 (List.mem_of_mem_head? h)

/-! ### Selecting -/

variable {P : Type} (rules : Rules P)

def patterns (showTitle : String) (titleAliases : List String) : List String :=
  ((showTitle :: titleAliases).map rules.showPattern).filter (· ≠ "")

def hasUrl (c : Candidate) : Bool := c.downloadUrl.getD "" ≠ ""

def deadSet (deadReleases : List String) : List String :=
  (deadReleases.map (normalize rules.rt)).filter (· ≠ "")

def select (candidates : List Candidate) (prefs : List P) (showTitle : String) (season episode : ℤ)
    (titleAliases deadReleases : List String) : Option Scored :=
  let patterns := patterns rules showTitle titleAliases
  let dead := deadSet rules deadReleases
  if prefs.isEmpty ∨ patterns = [] then none
  else best <| candidates.filterMap fun c =>
    if ¬ hasUrl c then none
    else if dead.contains (normalize rules.rt c.title) then none
    else if rules.parse c.title ≠ (some season, some episode) then none
    else if ¬ patterns.any (rules.showTitleMatch · c.title) then none
    else (rules.evaluate prefs c.title c.sizeBytes).map fun matchedPriority =>
      { candidate := c, matchedPriority }

def seriesPackCovers (pack : PackClassification) (neededSeasons : List ℤ) : Bool :=
  match pack with
  | .series none => true
  | .series (some (first, last)) => neededSeasons.all fun s => first ≤ s && s ≤ last
  | _ => false

def isTarget (pack : PackClassification) : PackTarget → Bool
  | .season season => pack = .season season
  | .series seasons => seriesPackCovers pack seasons

/-- A release that qualifies as the pack, with the priority of what it matched. -/
def qualify (prefs : List P) (showTitle : String) (target : PackTarget) (maxBytes : ℤ)
    (titleAliases : List String) (c : Candidate) : Option Scored :=
  if ¬ hasUrl c then none
  else if maxBytes > 0 ∧ c.sizeBytes.any (maxBytes < ·) then none
  else if ¬ isTarget (rules.classifyPack c.title) target then none
  else if ¬ (patterns rules showTitle titleAliases).any
      (rules.showTitleMatch · (rules.packTitleRegion c.title)) then none
  else (rules.evaluate (prefs.map rules.neutral) c.title c.sizeBytes).map fun matchedPriority =>
    { candidate := c, matchedPriority }

def selectPack (candidates : List Candidate) (prefs : List P) (showTitle : String) (target : PackTarget)
    (maxBytes : ℤ) (titleAliases : List String) : Option Scored :=
  if prefs.isEmpty ∨ patterns rules showTitle titleAliases = [] then none
  else best (candidates.filterMap (qualify rules prefs showTitle target maxBytes titleAliases))

variable {rules} {candidates : List Candidate} {prefs : List P} {showTitle : String}
  {titleAliases : List String} {s : Scored}

/-- No release is selected whose normal form is that of a dead one. -/
theorem select_not_dead {season episode : ℤ} {deadReleases : List String}
    (h : select rules candidates prefs showTitle season episode titleAliases deadReleases = some s) :
    normalize rules.rt s.candidate.title ∉ deadSet rules deadReleases := by
  unfold select at h
  dsimp only at h
  split_ifs at h
  obtain ⟨c, -, hc⟩ := List.mem_filterMap.1 (mem_of_best h)
  split_ifs at hc with _ hdead
  obtain ⟨_, -, rfl⟩ := Option.map_eq_some_iff.1 hc
  exact fun hmem => hdead (List.contains_iff_mem.2 hmem)

theorem selectPack_qualifies {target : PackTarget} {maxBytes : ℤ}
    (h : selectPack rules candidates prefs showTitle target maxBytes titleAliases = some s) :
    s.candidate ∈ candidates ∧
      (qualify rules prefs showTitle target maxBytes titleAliases s.candidate).isSome := by
  unfold selectPack at h
  split_ifs at h
  obtain ⟨c, hmem, hc⟩ := List.mem_filterMap.1 (mem_of_best h)
  have hs : s.candidate = c := by
    have hcopy := hc
    unfold qualify at hcopy
    split_ifs at hcopy
    obtain ⟨_, -, rfl⟩ := Option.map_eq_some_iff.1 hcopy
    rfl
  rw [hs, hc]
  exact ⟨hmem, rfl⟩

/-! ### A show and its releases -/

def episodeRelease : Candidate where
  title := "The.Wire.S01E01.720p.HDTV"
  downloadUrl := some "magnet:?xt=urn:btih:c0ffee"
  sizeBytes := some 700
  seeders := some 3

def seasonRelease : Candidate where
  title := "The.Wire.S01.720p.HDTV"
  downloadUrl := some "magnet:?xt=urn:btih:facade"
  sizeBytes := some 9000
  seeders := some 3

/-- The rules as they take these two releases, with a preference that everything meets. -/
def theWire : Rules Unit where
  rt := .ascii
  parse title := if title = episodeRelease.title then (some 1, some 1) else (none, none)
  showPattern title := title
  showTitleMatch pattern title :=
    pattern = "The Wire" && (title = episodeRelease.title || title = "The Wire")
  evaluate _ _ _ := some 0
  classifyPack title := if title = seasonRelease.title then .season 1 else .none
  packTitleRegion title := if title = seasonRelease.title then "The Wire" else title
  neutral pref := pref

end UltraTorrent.Acquisition.ReleaseSelection

/-! The calls that work on the wanted episodes: the sweep and the manual searches, the grabs of
packs, the reconciler that gives grabs back, and the scan. Every call of the database, of the
engine or of an indexer is an action of its own, and any of them may throw. -/
namespace UltraTorrent.Acquisition.WantedSearches

open Library Library.EcmaScript MissingEpisodes ReleaseSelection

/-- A torrent the engine has been given for an episode. -/
structure Added where
  episodeId : String
  title : String
  torrentHash : String
  deriving DecidableEq

structure Store where
  rows : WantedEpisodes
  /-- What the engine has been given, the last one first. -/
  added : List Added

/-! ### Writes -/

/-- What is written of a search. -/
inductive Patch where
  | searching
  | owned
  | failed (now : Instant)
  | noResults (now : Instant)
  | grabFailed (now : Instant) (evaluationId : String) (deadReleases : List String)
  | grabbed (now : Instant) (evaluationId : String) (downloadUrl : Option String) (releaseTitle : String)
    (torrentHash : String) (intakeRuleId : Option String)
  | released (deadReleases : List String)
  deriving DecidableEq

def Patch.apply (w : WantedEpisode) : Patch → WantedEpisode
  | .searching => { w with searchStatus := .searching }
  | .owned => { w with status := .owned, searchStatus := .idle }
  | .failed now => { w with searchStatus := .failed, lastSearchedAt := some now }
  | .noResults now => { w with searchStatus := .noResults, lastSearchedAt := some now }
  | .grabFailed now evaluationId deadReleases =>
    { w with
      searchStatus := .failed
      lastSearchedAt := some now
      grabbedEvaluationId := some evaluationId
      deadReleases }
  | .grabbed now evaluationId downloadUrl releaseTitle torrentHash intakeRuleId =>
    { w with
      searchStatus := .grabbed
      lastSearchedAt := some now
      grabbedAt := some now
      grabbedEvaluationId := some evaluationId
      downloadUrl
      releaseTitle := some releaseTitle
      torrentHash := some torrentHash
      intakeRuleId }
  | .released deadReleases =>
    { w with searchStatus := .failed, deadReleases, torrentHash := none, intakeRuleId := none }

theorem Patch.slot_apply (w : WantedEpisode) (patch : Patch) : (patch.apply w).slot = w.slot := by
  cases patch <;> rfl

inductive Write where
  | nothing
  /-- `updateMany` on the id. -/
  | update (ids : List String) (patch : Patch)
  /-- `updateMany` on the rows that are searching. -/
  | resetSearching
  | deleteRows (watchlistItemId : String)
  | createRows (new : List WantedEpisode)
  /-- The engine accepts a torrent. -/
  | add (episodeIds : List String) (title torrentHash : String)

def updated (ids : List String) (patch : Patch) (w : WantedEpisode) : WantedEpisode :=
  if ids.contains w.id then patch.apply w else w

def reset (w : WantedEpisode) : WantedEpisode :=
  if w.searchStatus = .searching then { w with searchStatus := .idle } else w

theorem slot_updated (ids : List String) (patch : Patch) (w : WantedEpisode) :
    (updated ids patch w).slot = w.slot := by
  unfold updated
  split_ifs
  · exact patch.slot_apply w
  · rfl

theorem slot_reset (w : WantedEpisode) : (reset w).slot = w.slot := by
  unfold reset
  split_ifs <;> rfl

def Store.apply (store : Store) : Write → Store
  | .nothing => store
  | .update ids patch =>
    { store with rows := store.rows.update (updated ids patch) (slot_updated ids patch) }
  | .resetSearching => { store with rows := store.rows.update reset slot_reset }
  | .deleteRows watchlistItemId => { store with rows := deleteRows watchlistItemId store.rows }
  | .createRows new => { store with rows := store.rows.addMissings new }
  | .add episodeIds title torrentHash =>
    { store with
      added := episodeIds.map (fun episodeId => { episodeId, title, torrentHash }) ++ store.added }

/-! ### What the calls are told -/

structure Settings where
  enabled : Bool
  autoSearchMissing : Bool
  downloadSpecials : Bool
  /-- The present, less the search interval. -/
  cutoff : Instant
  maxSearchesPerSweep : ℕ

structure Item where
  id : String
  title : String
  titleAliases : List String
  deriving DecidableEq

structure SavePath where
  path : Option String
  intakeRuleId : Option String
  deriving DecidableEq

structure IndexerRun where
  candidates : List Candidate
  queried : ℕ
  failed : ℕ

def IndexerRun.isOutage (run : IndexerRun) : Bool := run.queried > 0 ∧ run.failed = run.queried

inductive EngineAnswer where
  /-- The torrent is added; `lost` if what comes after it throws. -/
  | added (torrentHash : String) (lost : Bool)
  | refused
  | unreachable
  deriving DecidableEq

/-- What an action is told from outside. -/
structure Answer (P : Type) where
  /-- The call that is waited for throws. -/
  fails : Bool := false
  now : Instant := 0
  settings : Settings := { enabled := true, autoSearchMissing := true, downloadSpecials := true,
                           cutoff := 0, maxSearchesPerSweep := 50 }
  item : Option Item := none
  ownedEpisodeKeys : List String := []
  savePath : SavePath := { path := none, intakeRuleId := none }
  /-- What each of the queries finds, the first one first. -/
  runs : List IndexerRun := []
  prefs : List P := []
  evaluationId : String := ""
  engine : EngineAnswer := .unreachable
  packsEnabled : Bool := true
  maxBytes : ℤ := 0
  /-- The hashes of the torrents that were probed three times without a seeder. -/
  parked : List String := []
  /-- The hashes each engine lists; `none` when it cannot be listed. -/
  listings : List (Option (List String)) := []
  parkedSample : List String := []

/-- Where the search of an episode stands. -/
inductive Stage (P : Type) where
  | starting
  | findingItem
  | checkingOwned (item : Item)
  | owning
  | resolvingPath (item : Item)
  | asking (item : Item) (savePath : SavePath)
  | preferring (item : Item) (savePath : SavePath) (candidates : List Candidate)
  | grabbing (savePath : SavePath) (release : Candidate)
  | recording (savePath : SavePath) (release : Candidate) (torrentHash : Option String) (refused : Bool)
  | writing (patch : Patch) (audited : Bool)
  | auditing

structure PackRequest where
  item : Item
  target : PackTarget
  coveredEpisodeIds : List String
  maxBytes : ℤ

inductive PackStage (P : Type) where
  | resolvingPath
  | asking (savePath : SavePath)
  | preferring (savePath : SavePath) (candidates : List Candidate)
  | grabbing (savePath : SavePath) (candidates : List Candidate) (prefs : List P) (release : Candidate)
  | recording (savePath : SavePath) (release : Candidate) (torrentHash : Option String)
  | covering (patch : Patch)
  | auditing

/-- A search that was asked for, or one of a sweep or a series, where the next one follows an
error. -/
inductive Origin where
  | manual
  | bulk
  deriving DecidableEq

inductive Call (P : Type) where
  | done
  | sweep
  | searchSeries (watchlistItemId : String)
  | searchEpisode (wantedEpisodeId : String)
  | processing (origin : Origin) (wanted : WantedEpisode) (stage : Stage P) (rest : List WantedEpisode)
  | handling (wanted : WantedEpisode) (rest : List WantedEpisode)
  | tryPack (item : Item) (target : PackTarget) (coveredEpisodeIds : List String)
  | packing (request : PackRequest) (stage : PackStage P)
  | boot
  | releaseStuckGrabs
  | probing (stuck : List WantedEpisode)
  | releaseAbsent
  | listing (stuck : List WantedEpisode)
  | releasing (dead : List WantedEpisode) (absentNext : Bool)
  | scanSeries (sources : Sources) (fails : Await → Bool) (watchlistItemId : String)
  | reading (sources : Sources) (fails : Await → Bool) (watchlistItemId : String) (survey : Survey)
  | deleting (sources : Sources) (fails : Await → Bool) (watchlistItemId : String) (survey : Survey)
    (existing : List WantedEpisode)
  | creating (fails : Await → Bool) (new : List WantedEpisode)

variable {P : Type}

/-! ### Searching an episode -/

/-- Whether a sweep selects a row. -/
def isDue (settings : Settings) (w : WantedEpisode) : Bool :=
  w.status = .missing && !w.excludedFromScope &&
    (settings.downloadSpecials || (w.seasonNumber ≠ 0 && w.episodeNumber ≠ 0)) &&
    (w.searchStatus = .idle || ((w.searchStatus = .noResults || w.searchStatus = .failed) &&
      w.lastSearchedAt.all (· < settings.cutoff)))

/-- Never searched first, then the longest ago. -/
def searchedNoLater (v w : WantedEpisode) : Bool :=
  match v.lastSearchedAt, w.lastSearchedAt with
  | none, _ => true
  | some _, none => false
  | some s, some t => s ≤ t

def dueRows (settings : Settings) (rows : WantedEpisodes) : List WantedEpisode :=
  ((rows.rows.filter (isDue settings)).mergeSort searchedNoLater).take settings.maxSearchesPerSweep

def seriesRows (settings : Settings) (watchlistItemId : String) (rows : WantedEpisodes) :
    List WantedEpisode :=
  (rows.rows.filter fun w => w.watchlistItemId = watchlistItemId ∧ w.status = .missing ∧
    !w.excludedFromScope ∧
    (settings.downloadSpecials ∨ w.seasonNumber ≠ 0 ∧ w.episodeNumber ≠ 0)).mergeSort fun v w =>
      v.seasonNumber < w.seasonNumber ∨ v.seasonNumber = w.seasonNumber ∧ v.episodeNumber ≤ w.episodeNumber

/-- Asks in widening forms until something answers: the last run, and whether it was an outage. -/
def widen : List IndexerRun → Option IndexerRun × Bool
  | [] => (none, false)
  | run :: rest =>
    if run.isOutage then (some run, true)
    else if run.candidates ≠ [] ∨ run.failed > 0 ∨ rest = [] then (some run, false)
    else widen rest

/-- The next episode of a run. -/
def proceed (origin : Origin) : List WantedEpisode → Call P
  | [] => .done
  | w :: rest => .processing origin w .starting rest

/-- Where an error of `processEpisode` leads. -/
def thrown (origin : Origin) (w : WantedEpisode) (rest : List WantedEpisode) : Call P :=
  match origin with
  | .manual => .done
  | .bulk => .handling w rest

/-- What becomes of a grab: without a hash nothing was added. -/
def outcome (w : WantedEpisode) (answer : Answer P) (savePath : SavePath) (release : Candidate)
    (torrentHash : Option String) (refused : Bool) : Patch :=
  match torrentHash.filter (· ≠ "") with
  | none => .grabFailed answer.now answer.evaluationId
      (if refused ∧ ¬ w.deadReleases.contains release.title then w.deadReleases ++ [release.title]
        else w.deadReleases)
  | some hash => .grabbed answer.now answer.evaluationId release.downloadUrl release.title hash
      savePath.intakeRuleId

def isGrabbed : Patch → Bool
  | .grabbed .. => true
  | _ => false

/-- The next action of `processEpisode`. -/
def nextEpisode (rules : Rules P) (store : Store) (answer : Answer P) (origin : Origin)
    (w : WantedEpisode) (rest : List WantedEpisode) (stage : Stage P) : Write × Call P :=
  let go (stage : Stage P) : Write × Call P := (.nothing, .processing origin w stage rest)
  if answer.fails then (.nothing, thrown origin w rest)
  else match stage with
  | .starting => (.update [w.id] .searching, .processing origin w .findingItem rest)
  | .findingItem =>
    match answer.item with
    | none => (.nothing, thrown origin w rest)
    | some item => go (.checkingOwned item)
  | .checkingOwned item =>
    go (if answer.ownedEpisodeKeys.contains w.key then .owning else .resolvingPath item)
  | .owning =>
    -- `update` throws when there is no such row.
    if store.rows.rows.any (·.id = w.id) then (.update [w.id] .owned, proceed origin rest)
    else (.nothing, thrown origin w rest)
  | .resolvingPath item =>
    go (if answer.savePath.path.getD "" = "" then .writing (.failed answer.now) true
      else .asking item answer.savePath)
  | .asking item savePath =>
    go (match widen answer.runs with
      | (none, _) => .writing (.noResults answer.now) false
      | (some _, true) => .writing (.failed answer.now) true
      | (some run, false) => .preferring item savePath run.candidates)
  | .preferring item savePath candidates =>
    go (match select rules candidates answer.prefs item.title w.seasonNumber w.episodeNumber
        item.titleAliases w.deadReleases with
      | none => .writing (.noResults answer.now) false
      | some best => .grabbing savePath best.candidate)
  | .grabbing savePath release =>
    match answer.engine with
    | .added torrentHash lost => (.add [w.id] release.title torrentHash,
        .processing origin w
          (.recording savePath release (if lost then none else some torrentHash) false) rest)
    | .refused => go (.recording savePath release none true)
    | .unreachable => go (.recording savePath release none false)
  | .recording savePath release torrentHash refused =>
    let patch := outcome w answer savePath release torrentHash refused
    go (.writing patch (isGrabbed patch))
  | .writing patch audited => (.update [w.id] patch,
      if audited then .processing origin w .auditing rest else proceed origin rest)
  | .auditing => (.nothing, proceed origin rest)

/-! ### Packs -/

/-- The candidates of the first query that has any. -/
def searchPacks : List IndexerRun → List Candidate
  | [] => []
  | run :: rest =>
    if run.isOutage then []
    else if run.candidates ≠ [] then run.candidates
    else if run.failed > 0 then []
    else searchPacks rest

def nextPack (rules : Rules P) (answer : Answer P) (request : PackRequest) (stage : PackStage P) :
    Write × Call P :=
  let go (stage : PackStage P) : Write × Call P := (.nothing, .packing request stage)
  if answer.fails then (.nothing, .done)
  else match stage with
  | .resolvingPath =>
    if answer.savePath.path.getD "" = "" then (.nothing, .done) else go (.asking answer.savePath)
  | .asking savePath =>
    if searchPacks answer.runs = [] then (.nothing, .done)
    else go (.preferring savePath (searchPacks answer.runs))
  | .preferring savePath candidates =>
    match selectPack rules candidates answer.prefs request.item.title request.target request.maxBytes
        request.item.titleAliases with
    | none => (.nothing, .done)
    | some best => go (.grabbing savePath candidates answer.prefs best.candidate)
  | .grabbing savePath _ _ release =>
    match answer.engine with
    | .added torrentHash lost => (.add request.coveredEpisodeIds release.title torrentHash,
        .packing request (.recording savePath release (if lost then none else some torrentHash)))
    | .refused | .unreachable => go (.recording savePath release none)
  | .recording savePath release torrentHash =>
    match torrentHash.filter (· ≠ "") with
    | none => (.nothing, .done)
    | some hash => go (.covering (.grabbed answer.now answer.evaluationId release.downloadUrl release.title
        hash savePath.intakeRuleId))
  | .covering patch => (.update request.coveredEpisodeIds patch, .packing request .auditing)
  | .auditing => (.nothing, .done)

/-! ### Giving grabs back -/

def stuckGrabs (rows : WantedEpisodes) : List WantedEpisode :=
  rows.rows.filter fun w => w.searchStatus = .grabbed ∧ w.status = .missing ∧ w.torrentHash.isSome

def withReleased (w : WantedEpisode) : List String :=
  match w.releaseTitle.filter (· ≠ "") with
  | some title => if w.deadReleases.contains title then w.deadReleases else w.deadReleases ++ [title]
  | none => w.deadReleases

/-- The grabs that are in no engine, if the listings can be trusted. -/
def absentGrabs (rt : Runtime) (answer : Answer P) (stuck : List WantedEpisode) : List WantedEpisode :=
  let present := (answer.listings.flatMap (·.getD [])).map rt.toLowerCase
  if answer.listings.any (·.isNone) ∨ present = [] then []
  else if answer.parkedSample ≠ [] ∧
      ¬ answer.parkedSample.any (fun hash => present.contains (rt.toLowerCase hash)) then []
  else stuck.filter fun w => !present.contains (rt.toLowerCase (w.torrentHash.getD ""))

/-! ### Actions -/

/-- The next action of a call: what it writes, and where the call is then. -/
def next (rules : Rules P) (store : Store) (answer : Answer P) : Call P → Option (Write × Call P)
  | .done => none
  | .sweep =>
    if answer.fails ∨ ¬ answer.settings.enabled ∨ ¬ answer.settings.autoSearchMissing then
      some (.nothing, .done)
    else some (.nothing, proceed .bulk (dueRows answer.settings store.rows))
  | .searchSeries watchlistItemId =>
    if answer.fails ∨ ¬ answer.settings.enabled then some (.nothing, .done)
    else some (.nothing, proceed .bulk (seriesRows answer.settings watchlistItemId store.rows))
  | .searchEpisode wantedEpisodeId =>
    if answer.fails ∨ ¬ answer.settings.enabled then some (.nothing, .done)
    else match store.rows.rows.find? (·.id = wantedEpisodeId) with
      | none => some (.nothing, .done)
      | some w =>
        if w.status ≠ .missing then some (.nothing, .done)
        else some (.nothing, .processing .manual w .starting [])
  | .processing origin w stage rest => some (nextEpisode rules store answer origin w rest stage)
  | .handling w rest =>
    if answer.fails then some (.nothing, .done)
    else some (.update [w.id] (.failed answer.now), proceed .bulk rest)
  | .tryPack item target coveredEpisodeIds =>
    if answer.fails ∨ ¬ answer.packsEnabled ∨ coveredEpisodeIds = [] then some (.nothing, .done)
    else some (.nothing,
      .packing { item, target, coveredEpisodeIds, maxBytes := answer.maxBytes } .resolvingPath)
  | .packing request stage => some (nextPack rules answer request stage)
  | .boot =>
    if answer.fails then some (.nothing, .done) else some (.resetSearching, .releaseStuckGrabs)
  | .releaseStuckGrabs =>
    if answer.fails then some (.nothing, .done)
    else some (.nothing,
      if stuckGrabs store.rows = [] then .releaseAbsent else .probing (stuckGrabs store.rows))
  | .probing stuck =>
    if answer.fails then some (.nothing, .done)
    else some (.nothing,
      .releasing (stuck.filter fun w => answer.parked.contains (w.torrentHash.getD "")) true)
  | .releaseAbsent =>
    if answer.fails then some (.nothing, .done)
    else some (.nothing, if stuckGrabs store.rows = [] then .done else .listing (stuckGrabs store.rows))
  | .listing stuck =>
    if answer.fails then some (.nothing, .done)
    else some (.nothing, .releasing (absentGrabs rules.rt answer stuck) false)
  | .releasing [] absentNext => some (.nothing, if absentNext then .releaseAbsent else .done)
  | .releasing (w :: rest) absentNext =>
    if answer.fails then some (.nothing, .done)
    else some (.update [w.id] (.released (withReleased w)), .releasing rest absentNext)
  | .scanSeries sources fails watchlistItemId =>
    match survey sources fails watchlistItemId with
    | .error _ => some (.nothing, .done)
    | .ok survey => some (.nothing, .reading sources fails watchlistItemId survey)
  | .reading sources fails watchlistItemId survey =>
    if fails .findExisting then some (.nothing, .done)
    else some (.nothing,
      .deleting sources fails watchlistItemId survey (ofItem watchlistItemId store.rows))
  | .deleting sources fails watchlistItemId survey existing =>
    if fails .deleteRows then some (.nothing, .done)
    else some (.deleteRows watchlistItemId,
      .creating fails (rebuiltRows sources watchlistItemId survey existing))
  | .creating fails new =>
    if new = [] ∨ fails .createRows then some (.nothing, .done)
    else some (.createRows new, .done)

def act (rules : Rules P) (store : Store) (call : Call P) (answer : Answer P) :
    Option (Store × Call P) :=
  (next rules store answer call).map fun (write, call') => (store.apply write, call')

/-! ### What an action writes -/

/-- Which patch a call may write, and to which episodes. -/
inductive Patches : Call P → List String → Patch → Prop
  | start (origin : Origin) (w : WantedEpisode) (rest : List WantedEpisode) :
      Patches (.processing origin w .starting rest) [w.id] .searching
  | own (origin : Origin) (w : WantedEpisode) (rest : List WantedEpisode) :
      Patches (.processing origin w .owning rest) [w.id] .owned
  | write (origin : Origin) (w : WantedEpisode) (rest : List WantedEpisode) (patch : Patch) (audited : Bool) :
      Patches (.processing origin w (.writing patch audited) rest) [w.id] patch
  | handle (w : WantedEpisode) (rest : List WantedEpisode) (now : Instant) :
      Patches (.handling w rest) [w.id] (.failed now)
  | cover (request : PackRequest) (patch : Patch) :
      Patches (.packing request (.covering patch)) request.coveredEpisodeIds patch
  | release (w : WantedEpisode) (rest : List WantedEpisode) (absentNext : Bool) :
      Patches (.releasing (w :: rest) absentNext) [w.id] (.released (withReleased w))

inductive Writes : Call P → Write → Prop
  | nothing (call : Call P) : Writes call .nothing
  | update {call : Call P} {ids : List String} {patch : Patch} (h : Patches call ids patch) :
      Writes call (.update ids patch)
  | reset : Writes .boot .resetSearching
  | delete (sources : Sources) (fails : Await → Bool) (watchlistItemId : String) (survey : Survey)
      (existing : List WantedEpisode) :
      Writes (.deleting sources fails watchlistItemId survey existing) (.deleteRows watchlistItemId)
  | create (fails : Await → Bool) (new : List WantedEpisode) : Writes (.creating fails new) (.createRows new)
  | addEpisode (origin : Origin) (w : WantedEpisode) (rest : List WantedEpisode) (savePath : SavePath)
      (release : Candidate) (torrentHash : String) :
      Writes (.processing origin w (.grabbing savePath release) rest) (.add [w.id] release.title torrentHash)
  | addPack (request : PackRequest) (savePath : SavePath) (candidates : List Candidate) (prefs : List P)
      (release : Candidate) (torrentHash : String) :
      Writes (.packing request (.grabbing savePath candidates prefs release))
        (.add request.coveredEpisodeIds release.title torrentHash)

variable {rules : Rules P} {store store' : Store} {call call' : Call P} {answer : Answer P} {write : Write}

theorem nextEpisode_writes (rules : Rules P) (store : Store) (answer : Answer P) (origin : Origin)
    (w : WantedEpisode) (rest : List WantedEpisode) (stage : Stage P) :
    Writes (.processing origin w stage rest) (nextEpisode rules store answer origin w rest stage).1 := by
  cases hfails : answer.fails with
  | true =>
    simp only [nextEpisode, hfails, if_true]
    exact .nothing _
  | false =>
    cases stage <;> simp only [nextEpisode, hfails, Bool.false_eq_true, if_false]
    case starting => exact .update (.start origin w rest)
    case findingItem => cases answer.item <;> exact .nothing _
    case owning =>
      split_ifs
      · exact .update (.own origin w rest)
      · exact .nothing _
    case grabbing savePath release =>
      cases answer.engine with
      | added torrentHash lost => exact .addEpisode origin w rest savePath release torrentHash
      | refused | unreachable => exact .nothing _
    case writing patch audited => exact .update (.write origin w rest patch audited)
    all_goals exact .nothing _

theorem nextPack_writes (rules : Rules P) (answer : Answer P) (request : PackRequest)
    (stage : PackStage P) : Writes (.packing request stage) (nextPack rules answer request stage).1 := by
  cases hfails : answer.fails with
  | true =>
    simp only [nextPack, hfails, if_true]
    exact .nothing _
  | false =>
    cases stage <;> simp only [nextPack, hfails, Bool.false_eq_true, if_false]
    case grabbing savePath candidates prefs release =>
      cases answer.engine with
      | added torrentHash lost => exact .addPack request savePath candidates prefs release torrentHash
      | refused | unreachable => exact .nothing _
    case covering patch => exact .update (.cover request patch)
    all_goals
      repeat' split
      all_goals exact .nothing _

theorem next_writes (h : next rules store answer call = some (write, call')) : Writes call write := by
  cases call with
  | done => cases h
  | processing origin w stage rest =>
    rw [next, Option.some.injEq] at h
    have hwrites := nextEpisode_writes rules store answer origin w rest stage
    rwa [h] at hwrites
  | packing request stage =>
    rw [next, Option.some.injEq] at h
    have hwrites := nextPack_writes rules answer request stage
    rwa [h] at hwrites
  | releasing dead absentNext =>
    cases dead with
    | nil =>
      cases h
      exact .nothing _
    | cons w rest =>
      simp only [next] at h
      split_ifs at h <;> cases h
      · exact .nothing _
      · exact .update (.release w rest absentNext)
  | _ =>
    simp only [next] at h
    repeat' split at h
    all_goals
      cases h
      first
        | exact .nothing _
        | exact .update (.handle _ _ _)
        | exact .reset
        | exact .delete _ _ _ _ _
        | exact .create _ _

/-! ### Where an action leads -/

/-- Nothing has been looked for yet, or nothing is any more. -/
def isFresh : Call P → Bool
  | .processing _ _ .starting _ | .packing _ .resolvingPath => true
  | .processing _ _ _ _ | .packing _ _ => false
  | _ => true

def isScan : Call P → Bool
  | .scanSeries _ _ _ | .reading _ _ _ _ | .deleting _ _ _ _ _ | .creating _ _ => true
  | _ => false

/-- The calls as they begin. -/
def isEntry : Call P → Bool
  | .sweep | .searchSeries _ | .searchEpisode _ | .tryPack _ _ _ | .boot | .releaseStuckGrabs
  | .scanSeries _ _ _ => true
  | _ => false

theorem isFresh_of_isEntry (h : isEntry call) : isFresh call := by
  cases call <;> first | rfl | cases h

theorem isFresh_proceed (origin : Origin) (rest : List WantedEpisode) :
    isFresh (proceed origin rest : Call P) := by
  cases rest <;> rfl

theorem isScan_proceed (origin : Origin) (rest : List WantedEpisode) :
    isScan (proceed origin rest : Call P) = false := by
  cases rest <;> rfl

theorem isFresh_thrown (origin : Origin) (w : WantedEpisode) (rest : List WantedEpisode) :
    isFresh (thrown origin w rest : Call P) := by
  cases origin <;> rfl

theorem isScan_thrown (origin : Origin) (w : WantedEpisode) (rest : List WantedEpisode) :
    isScan (thrown origin w rest : Call P) = false := by
  cases origin <;> rfl

/-- Only the search of an episode or of a pack leads to where something has been found. -/
theorem next_cases (h : next rules store answer call = some (write, call')) :
    (∃ origin w rest stage, call = .processing origin w stage rest ∧
      nextEpisode rules store answer origin w rest stage = (write, call')) ∨
    (∃ request stage, call = .packing request stage ∧ nextPack rules answer request stage = (write, call')) ∨
    isFresh call' ∧ (isScan call' → isScan call) := by
  cases call with
  | done => cases h
  | processing origin w stage rest => exact .inl ⟨origin, w, rest, stage, rfl, Option.some.inj h⟩
  | packing request stage => exact .inr (.inl ⟨request, stage, rfl, Option.some.inj h⟩)
  | sweep | searchSeries | handling =>
    simp only [next] at h
    split_ifs at h <;> cases h
    · exact .inr (.inr ⟨rfl, id⟩)
    · exact .inr (.inr ⟨isFresh_proceed _ _, fun hscan => by rwa [isScan_proceed] at hscan⟩)
  | releasing dead absentNext =>
    cases dead <;> simp only [next] at h <;> repeat' split at h
    all_goals
      cases h
      exact .inr (.inr ⟨rfl, fun hscan => by cases hscan⟩)
  | _ =>
    simp only [next] at h
    repeat' split at h
    all_goals
      cases h
      exact .inr (.inr ⟨rfl, fun hscan => by first | rfl | cases hscan⟩)

theorem act_eq_some : act rules store call answer = some (store', call') ↔
    ∃ write, next rules store answer call = some (write, call') ∧ store.apply write = store' := by
  simp only [act, Option.map_eq_some_iff, Prod.exists, Prod.mk.injEq]
  constructor
  · rintro ⟨write, _, hnext, happly, rfl⟩
    exact ⟨write, hnext, happly⟩
  · rintro ⟨write, hnext, happly⟩
    exact ⟨write, call', hnext, happly, rfl⟩

/-- Where a row comes from. -/
inductive RowStep (store : Store) : Write → WantedEpisode → Prop
  | kept (write : Write) {w : WantedEpisode} (hw : w ∈ store.rows.rows) : RowStep store write w
  | patched (ids : List String) (patch : Patch) {w : WantedEpisode} (hw : w ∈ store.rows.rows)
      (hid : w.id ∈ ids) : RowStep store (.update ids patch) (patch.apply w)
  | reset {w : WantedEpisode} (hw : w ∈ store.rows.rows) (hsearching : w.searchStatus = .searching) :
      RowStep store .resetSearching { w with searchStatus := .idle }
  | created (new : List WantedEpisode) {w : WantedEpisode} (hw : w ∈ (store.rows.addMissings new).rows) :
      RowStep store (.createRows new) w

theorem rowStep {w : WantedEpisode} (h : w ∈ (store.apply write).rows.rows) : RowStep store write w := by
  cases write with
  | nothing | add => exact .kept _ h
  | deleteRows => exact .kept _ (Table.mem_filter.1 h).1
  | createRows new => exact .created new h
  | update ids patch =>
    obtain ⟨v, hv, rfl⟩ := (Table.mem_update (slot_updated ids patch)).1 h
    unfold updated
    split_ifs with hid
    · exact .patched ids patch hv (List.contains_iff_mem.1 hid)
    · exact .kept _ hv
  | resetSearching =>
    obtain ⟨v, hv, rfl⟩ := (Table.mem_update slot_reset).1 h
    unfold WantedSearches.reset
    split_ifs with hsearching
    · exact .reset hv hsearching
    · exact .kept _ hv

@[simp] theorem Patch.id_apply (w : WantedEpisode) (patch : Patch) : (patch.apply w).id = w.id := by
  cases patch <;> rfl

/-- The engine forgets no torrent. -/
theorem added_subset_apply (store : Store) (write : Write) : store.added ⊆ (store.apply write).added := by
  cases write with
  | add => exact List.subset_append_right _ _
  | _ => exact List.Subset.refl _

end UltraTorrent.Acquisition.WantedSearches
