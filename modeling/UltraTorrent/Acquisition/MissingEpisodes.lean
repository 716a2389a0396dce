import UltraTorrent.Library.EcmaScript
import UltraTorrent.Library.Table
import UltraTorrent.Library.Text

/-! The missing-episode scan of a monitored series. It compares the catalogue of the series with
what the library owns, deletes the rows of the previous scan and writes new ones. -/
namespace UltraTorrent.Acquisition.MissingEpisodes

open Library Library.EcmaScript

structure CatalogEpisode where
  episodeTconst : String
  seasonNumber : ℤ
  episodeNumber : ℤ
  episodeTitle : Option String
  airYear : Option ℤ
  deriving DecidableEq

inductive EpisodeStatus where
  | missing
  | unaired
  | owned
  | ignored
  deriving DecidableEq

inductive SearchStatus where
  | idle
  | searching
  | grabbed
  | pendingApproval
  | noResults
  | failed
  deriving DecidableEq

/-- What a row knows of the search for its episode. The defaults are those of the schema. -/
structure AcquisitionState where
  searchStatus : SearchStatus := .idle
  lastSearchedAt : Option Instant := none
  grabbedAt : Option Instant := none
  grabbedEvaluationId : Option String := none
  downloadUrl : Option String := none
  releaseTitle : Option String := none
  torrentHash : Option String := none
  deadReleases : List String := []
  intakeRuleId : Option String := none
  deriving DecidableEq

structure WantedEpisode extends AcquisitionState where
  id : String
  watchlistItemId : String
  seriesTconst : String
  episodeTconst : Option String
  seasonNumber : ℤ
  episodeNumber : ℤ
  episodeTitle : Option String
  airYear : Option ℤ
  status : EpisodeStatus
  excludedFromScope : Bool := false
  deriving DecidableEq

/-- The columns of the unique index. -/
def WantedEpisode.slot (w : WantedEpisode) : String × ℤ × ℤ :=
  (w.watchlistItemId, w.seasonNumber, w.episodeNumber)

abbrev WantedEpisodes := Table WantedEpisode WantedEpisode.slot

/-! ### Keys -/

def episodeKey (season episode : ℤ) : String := season.repr ++ "-" ++ episode.repr

theorem episodeKey_injective {s e s' e' : ℤ} (h : episodeKey s e = episodeKey s' e') :
    s = s' ∧ e = e' := Text.dashed_injective h

def CatalogEpisode.key (ep : CatalogEpisode) : String := episodeKey ep.seasonNumber ep.episodeNumber

def WantedEpisode.key (w : WantedEpisode) : String := episodeKey w.seasonNumber w.episodeNumber

theorem slot_eq {v w : WantedEpisode} (hitem : v.watchlistItemId = w.watchlistItemId)
    (hkey : v.key = w.key) : v.slot = w.slot := by
  obtain ⟨hseason, hepisode⟩ := episodeKey_injective hkey
  simp only [WantedEpisode.slot, hitem, hseason, hepisode]

theorem key_eq {v w : WantedEpisode} (h : v.slot = w.slot) : v.key = w.key := by
  simp only [WantedEpisode.slot, Prod.mk.injEq] at h
  rw [WantedEpisode.key, WantedEpisode.key, h.2.1, h.2.2]

/-! ### Classification -/

def specialSeason : ℤ := 0

def specialEpisode : ℤ := 0

def isSpecial (ep : CatalogEpisode) : Bool :=
  ep.seasonNumber = specialSeason ∨ ep.episodeNumber = specialEpisode

structure AiredBoundary where
  seasonNumber : ℤ
  episodeNumber : ℤ
  deriving DecidableEq

def classifyEpisode (owned : Bool) (ep : CatalogEpisode) (boundary : Option AiredBoundary)
    (currentYear : ℤ) : EpisodeStatus :=
  if owned then .owned
  else match boundary with
    | some boundary =>
      if ep.seasonNumber < boundary.seasonNumber ∨
          ep.seasonNumber = boundary.seasonNumber ∧ ep.episodeNumber ≤ boundary.episodeNumber then
        .missing
      else .unaired
    | none =>
      match ep.airYear with
      | none => .unaired
      | some year => if year > currentYear then .unaired else .missing

/-! ### What is read before the rows -/

inductive ItemType where
  | series
  | season
  | other
  deriving DecidableEq

structure WatchlistItem where
  id : String
  type : ItemType
  title : String
  year : Option ℤ
  /-- `externalIds.imdb`, when that is a string. -/
  imdb : Option String
  seasonNumber : Option ℤ
  deriving DecidableEq

def imdbId (item : WatchlistItem) : Option String :=
  item.imdb.filter fun value => "tt".toList.isPrefixOf value.toList

inductive ScanError where
  | notFound
  | badRequest (message : String)
  | thrown
  deriving DecidableEq

/-- The calls a scan waits for. -/
inductive Await where
  | findItem
  | resolveImdbId
  | listEpisodes
  | correctImdbId
  | listCorrected
  | findTitle
  | ownedEpisodes
  | getSettings
  | findExisting
  | deleteRows
  | createRows
  | countByStatus
  | audit
  deriving DecidableEq

/-- What the other tables and services answer. -/
structure Sources where
  item : String → Option WatchlistItem
  /-- `resolveAndPersistImdbId`: the series found for a title and year. -/
  resolved : String → Option ℤ → Option String
  listSeriesEpisodes : String → List CatalogEpisode
  startYear : String → Option ℤ
  ownedEpisodeSet : String → String → Option ℤ → List String
  /-- `null` also when the call fails. -/
  airedBoundary : String → Option AiredBoundary
  includeSpecials : Bool
  currentYear : ℤ
  now : Instant
  newId : CatalogEpisode → String

/-- What a scan knows of a series when it turns to the rows. -/
structure Survey where
  item : WatchlistItem
  seriesTconst : String
  scopedCatalog : List CatalogEpisode
  owned : List String
  includeSpecials : Bool
  boundary : Option AiredBoundary
  currentYear : ℤ
  deriving DecidableEq

def await {α : Type} (fails : Await → Bool) (call : Await) (value : α) : Except ScanError α :=
  if fails call then .error .thrown else .ok value

def survey (sources : Sources) (fails : Await → Bool) (watchlistItemId : String) :
    Except ScanError Survey := do
  let some item ← await fails .findItem (sources.item watchlistItemId)
    | throw .notFound
  if item.type = .other then
    throw (.badRequest "Watchlist item is not a monitorable series")
  let stored := imdbId item
  let some seriesTconst ← match stored with
      | some tconst => pure (some tconst)
      | none => await fails .resolveImdbId (sources.resolved item.title item.year)
    | throw (.badRequest "Watchlist item has no IMDb id to scan")
  let catalog ← await fails .listEpisodes (sources.listSeriesEpisodes seriesTconst)
  let (seriesTconst, catalog) ←
    -- A stored id without episodes is resolved again, once.
    if catalog = [] ∧ stored.isSome then do
      match ← await fails .correctImdbId (sources.resolved item.title item.year) with
      | some corrected =>
        if corrected ≠ seriesTconst then do
          let catalog ← await fails .listCorrected (sources.listSeriesEpisodes corrected)
          pure (corrected, catalog)
        else pure (seriesTconst, catalog)
      | none => pure (seriesTconst, catalog)
    else pure (seriesTconst, catalog)
  let scopedCatalog := match item.type, item.seasonNumber with
    | .season, some season => catalog.filter fun e => e.seasonNumber = season
    | _, _ => catalog
  let startYear ← await fails .findTitle (sources.startYear seriesTconst)
  let owned ← await fails .ownedEpisodes (sources.ownedEpisodeSet seriesTconst item.title startYear)
  let includeSpecials ← await fails .getSettings sources.includeSpecials
  let ambiguous := scopedCatalog.any fun e => (includeSpecials || !isSpecial e) && !owned.contains e.key &&
    e.airYear.all fun year => year ≥ sources.currentYear
  pure { item, seriesTconst, scopedCatalog, owned, includeSpecials,
         boundary := if ambiguous then sources.airedBoundary seriesTconst else none,
         currentYear := sources.currentYear }

/-- The episodes of the catalogue that are tracked at all. -/
def Survey.tracked (s : Survey) : List CatalogEpisode :=
  s.scopedCatalog.filter fun ep => s.includeSpecials || !isSpecial ep

def Survey.classify (s : Survey) (ep : CatalogEpisode) : EpisodeStatus :=
  classifyEpisode (s.owned.contains ep.key) ep s.boundary s.currentYear

/-! ### The rows -/

def ignoredKeys (existing : List WantedEpisode) : List String :=
  (existing.filter fun w => w.status = .ignored).map (·.key)

def excludedKeys (existing : List WantedEpisode) : List String :=
  (existing.filter fun w => w.status ≠ .ignored ∧ w.excludedFromScope).map (·.key)

/-- What is remembered of a search. -/
def grabState (w : WantedEpisode) : AcquisitionState :=
  { searchStatus := w.searchStatus
    lastSearchedAt := w.lastSearchedAt
    grabbedAt := w.grabbedAt
    grabbedEvaluationId := w.grabbedEvaluationId
    downloadUrl := w.downloadUrl
    releaseTitle := w.releaseTitle }

def grabStateByKey (existing : List WantedEpisode) : List (String × AcquisitionState) :=
  (existing.filter fun w => w.status ≠ .ignored ∧ w.searchStatus ≠ .idle).map fun w =>
    (w.key, grabState w)

def rebuiltRow (sources : Sources) (watchlistItemId : String) (s : Survey)
    (existing : List WantedEpisode) (ep : CatalogEpisode) : WantedEpisode :=
  let status := s.classify ep
  let preserved := if status = .missing then mapGet (grabStateByKey existing) ep.key else none
  { id := sources.newId ep
    watchlistItemId
    seriesTconst := s.seriesTconst
    episodeTconst := some ep.episodeTconst
    seasonNumber := ep.seasonNumber
    episodeNumber := ep.episodeNumber
    episodeTitle := ep.episodeTitle
    airYear := ep.airYear
    status
    excludedFromScope := (excludedKeys existing).contains ep.key
    toAcquisitionState := preserved.getD {} }

def rebuiltRows (sources : Sources) (watchlistItemId : String) (s : Survey)
    (existing : List WantedEpisode) : List WantedEpisode :=
  (s.tracked.filter fun ep => !(ignoredKeys existing).contains ep.key).map
    (rebuiltRow sources watchlistItemId s existing)

def ofItem (watchlistItemId : String) (rows : WantedEpisodes) : List WantedEpisode :=
  rows.rows.filter fun w => w.watchlistItemId = watchlistItemId

/-- `deleteMany` of the rows of an item that are not ignored. -/
def deleteRows (watchlistItemId : String) (rows : WantedEpisodes) : WantedEpisodes :=
  rows.filter fun w => ¬ (w.watchlistItemId = watchlistItemId ∧ w.status ≠ .ignored)

structure SeriesGap where
  watchlistItemId : String
  title : String
  seriesTconst : String
  total : ℕ
  owned : ℕ
  missing : ℕ
  unaired : ℕ
  ignored : ℕ
  lastCheckedAt : Instant
  deriving DecidableEq

def seriesGap (sources : Sources) (watchlistItemId : String) (s : Survey) (rows : WantedEpisodes) :
    SeriesGap :=
  let count (status : EpisodeStatus) :=
    ((ofItem watchlistItemId rows).filter fun w => w.status = status).length
  { watchlistItemId
    title := s.item.title
    seriesTconst := s.seriesTconst
    total := (ofItem watchlistItemId rows).length
    owned := count .owned
    missing := count .missing
    unaired := count .unaired
    ignored := count .ignored
    lastCheckedAt := sources.now }

/-- The rows are deleted and written again in two statements; a scan that throws leaves them as
they are by then. -/
def scanSeries (sources : Sources) (fails : Await → Bool) (watchlistItemId : String)
    (rows : WantedEpisodes) : WantedEpisodes × Except ScanError SeriesGap :=
  match survey sources fails watchlistItemId with
  | .error e => (rows, .error e)
  | .ok s =>
    if fails .findExisting then (rows, .error .thrown)
    else
      let existing := ofItem watchlistItemId rows
      if fails .deleteRows then (rows, .error .thrown)
      else
        let kept := deleteRows watchlistItemId rows
        let new := rebuiltRows sources watchlistItemId s existing
        if new ≠ [] ∧ fails .createRows then (kept, .error .thrown)
        else
          let rows := kept.addMissings new
          if fails .countByStatus then (rows, .error .thrown)
          else if fails .audit then (rows, .error .thrown)
          else (rows, .ok (seriesGap sources watchlistItemId s rows))

end UltraTorrent.Acquisition.MissingEpisodes
