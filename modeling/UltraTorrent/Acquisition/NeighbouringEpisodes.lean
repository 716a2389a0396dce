import UltraTorrent.Acquisition.Rescan
import UltraTorrent.Library.Fallible

/-! Whether the status of an episode depends on the other episodes of its series. The boundary of
what has aired is asked for only when some episode is dated to this year or not at all, so an episode
of an earlier year that comes after the boundary has one status or the other with its neighbours. -/
namespace UltraTorrent.Acquisition.NeighbouringEpisodes

open Library Library.EcmaScript MissingEpisodes Rescan
open Library.Fallible (Returns)

/-- A scan, with the rows it starts from and the calls that fail in it. -/
structure Scan where
  sources : Sources
  fails : Await → Bool
  watchlistItemId : String
  rows : WantedEpisodes

namespace Scan

def after (scan : Scan) : WantedEpisodes × Except ScanError SeriesGap :=
  scanSeries scan.sources scan.fails scan.watchlistItemId scan.rows

/-- A row of the series that nobody has set to ignored. -/
def Keeps (scan : Scan) (row : WantedEpisode) : Prop :=
  row ∈ scan.after.1.rows ∧ row.watchlistItemId = scan.watchlistItemId ∧ row.status ≠ .ignored

end Scan

/-- What a status may depend on. -/
structure Circumstances where
  owned : Bool
  seasonNumber : ℤ
  episodeNumber : ℤ
  airYear : Option ℤ
  currentYear : ℤ
  /-- The boundary that the status service holds for the series. -/
  boundary : Option AiredBoundary
  deriving DecidableEq

namespace Circumstances

/-- An episode in the circumstances. -/
def episode (c : Circumstances) : CatalogEpisode where
  episodeTconst := "tt0749451"
  seasonNumber := c.seasonNumber
  episodeNumber := c.episodeNumber
  episodeTitle := none
  airYear := c.airYear

/-- The status, when the boundary has been asked for and when it has not. -/
def status (c : Circumstances) (asked : Bool) : EpisodeStatus :=
  classifyEpisode c.owned c.episode (if asked then c.boundary else none) c.currentYear

/-- The episode comes after the boundary. -/
def BeyondBoundary (c : Circumstances) : Prop :=
  ∃ boundary, c.boundary = some boundary ∧ ¬ (c.seasonNumber < boundary.seasonNumber ∨
    c.seasonNumber = boundary.seasonNumber ∧ c.episodeNumber ≤ boundary.episodeNumber)

/-- The episode is dated to an earlier year. -/
def Past (c : Circumstances) : Prop := ∃ year, c.airYear = some year ∧ year < c.currentYear

variable {c : Circumstances}

theorem status_owned (h : c.owned = true) (asked : Bool) : c.status asked = .owned := by
  simp [status, classifyEpisode, h]

theorem status_past (howned : c.owned = false) (hpast : c.Past) : c.status false = .missing := by
  obtain ⟨year, hyear, hlt⟩ := hpast
  simp [status, classifyEpisode, episode, howned, hyear, hlt.le]

theorem status_aired (howned : c.owned = false) (hpast : c.Past) (hbeyond : ¬ c.BeyondBoundary) :
    c.status true = .missing := by
  cases hboundary : c.boundary with
  | none =>
    rw [← status_past howned hpast, status, status, hboundary]
    rfl
  | some boundary =>
    have haired : c.seasonNumber < boundary.seasonNumber ∨
        c.seasonNumber = boundary.seasonNumber ∧ c.episodeNumber ≤ boundary.episodeNumber :=
      not_not.1 fun h => hbeyond ⟨boundary, hboundary, h⟩
    simp [status, classifyEpisode, episode, howned, hboundary, haired]

theorem status_beyond (howned : c.owned = false) (hbeyond : c.BeyondBoundary) :
    c.status true = .unaired := by
  obtain ⟨boundary, hboundary, hlater⟩ := hbeyond
  simp [status, classifyEpisode, episode, howned, hboundary, hlater]

end Circumstances

/-- The scan comes to write its rows, and one of them has a status for an episode in these
circumstances. -/
structure Stores (scan : Scan) (c : Circumstances) (status : EpisodeStatus) : Prop where
  writes : scan.fails .findExisting = false ∧ scan.fails .deleteRows = false
  series : ∃ s, survey scan.sources scan.fails scan.watchlistItemId = .ok s ∧
    s.owned.contains c.episode.key = c.owned ∧ scan.sources.airedBoundary s.seriesTconst = c.boundary ∧
    scan.sources.currentYear = c.currentYear
  row : ∃ row, scan.Keeps row ∧ row.seasonNumber = c.seasonNumber ∧
    row.episodeNumber = c.episodeNumber ∧ row.airYear = c.airYear ∧ row.status = status

/-- Whatever else the catalogue lists and the library owns, the status is the same. -/
def OwnAffair (c : Circumstances) : Prop :=
  ∀ scan scan' status status', Stores scan c status → Stores scan' c status' → status = status'

theorem classifyEpisode_congr {ep ep' : CatalogEpisode} {owned : Bool} {boundary : Option AiredBoundary}
    {currentYear : ℤ} (hseason : ep.seasonNumber = ep'.seasonNumber)
    (hepisode : ep.episodeNumber = ep'.episodeNumber) (hair : ep.airYear = ep'.airYear) :
    classifyEpisode owned ep boundary currentYear = classifyEpisode owned ep' boundary currentYear := by
  simp only [classifyEpisode, hseason, hepisode, hair]

theorem classifyEpisode_ne_ignored {ep : CatalogEpisode} {owned : Bool} {boundary : Option AiredBoundary}
    {currentYear : ℤ} : classifyEpisode owned ep boundary currentYear ≠ .ignored := by
  unfold classifyEpisode
  split_ifs
  · exact nofun
  · cases boundary with
    | some boundary =>
      dsimp only
      split_ifs <;> exact nofun
    | none =>
      cases ep.airYear with
      | none => exact nofun
      | some year =>
        dsimp only
        split_ifs <;> exact nofun

/-! ### The boundary of a scan -/

/-- Some episode that is not owned is dated to this year or later, or not at all. -/
def ambiguous (s : Survey) : Bool :=
  s.scopedCatalog.any fun e => (s.includeSpecials || !isSpecial e) && !s.owned.contains e.key &&
    e.airYear.all fun year => year ≥ s.currentYear

theorem ambiguous_iff {s : Survey} : ambiguous s ↔ ∃ ep ∈ s.tracked, ep.key ∉ s.owned ∧
    ∀ year, ep.airYear = some year → s.currentYear ≤ year := by
  simp [ambiguous, Survey.tracked, and_assoc, Option.all_eq_true]

variable {sources : Sources} {fails : Await → Bool} {watchlistItemId : String} {s : Survey}

/-- The boundary is asked for only when the years leave a doubt. -/
theorem survey_boundary : Returns (fun s => s.currentYear = sources.currentYear ∧
      s.boundary = if ambiguous s then sources.airedBoundary s.seriesTconst else none)
      (survey sources fails watchlistItemId) := by
  unfold survey
  repeat' first
    | exact .ok ⟨rfl, rfl⟩
    | exact .error _
    | refine .bind fun _ => ?_
    | dsimp only
    | split

/-! ### The rows of a scan -/

theorem Scan.Keeps.rebuilt {scan : Scan} {row : WantedEpisode} (hrow : scan.Keeps row)
    (hs : survey scan.sources scan.fails scan.watchlistItemId = .ok s)
    (hfind : scan.fails .findExisting = false) (hdelete : scan.fails .deleteRows = false) :
    ∃ ep ∈ s.tracked, rebuiltRow scan.sources scan.watchlistItemId s
      (ofItem scan.watchlistItemId scan.rows) ep = row := by
  obtain ⟨hmem, hitem, hstatus⟩ := hrow
  rw [Scan.after, scanSeries_rows hs hfind hdelete] at hmem
  have hdeleted : row ∉ (deleteRows scan.watchlistItemId scan.rows).rows := fun h =>
    of_decide_eq_true (Table.mem_filter.1 h).2 ⟨hitem, hstatus⟩
  unfold rowsAfter at hmem
  dsimp only at hmem
  split_ifs at hmem
  · exact absurd hmem hdeleted
  · have hrow := Table.find_key hmem
    rw [Table.find_addMissings] at hrow
    obtain hkept | ⟨-, hnew⟩ := Option.or_eq_some_iff.1 hrow
    · exact absurd (Table.find_eq_some.1 hkept).1 hdeleted
    · obtain ⟨ep, hep, heq⟩ := List.mem_map.1 (List.mem_of_find?_eq_some hnew)
      exact ⟨ep, (List.mem_filter.1 hep).1, heq⟩

theorem Stores.status_eq {scan : Scan} {c : Circumstances} {status : EpisodeStatus}
    (h : Stores scan c status) :
    ∃ asked, status = c.status asked ∧ (c.owned = false → ¬ c.Past → asked = true) := by
  obtain ⟨⟨hfind, hdelete⟩, ⟨s, hs, howned, hboundary, hyear⟩, row, hrow, hseason, hepisode, hair, rfl⟩ := h
  obtain ⟨hcurrent, hasked⟩ := survey_boundary s hs
  obtain ⟨ep, hep, rfl⟩ := hrow.rebuilt hs hfind hdelete
  have hseason : ep.seasonNumber = c.seasonNumber := hseason
  have hepisode : ep.episodeNumber = c.episodeNumber := hepisode
  have hair : ep.airYear = c.airYear := hair
  have hkey : ep.key = c.episode.key := by
    rw [CatalogEpisode.key, hseason, hepisode]
    rfl
  refine ⟨ambiguous s, ?_, fun hmissing hpast => ambiguous_iff.2 ⟨ep, hep, ?_, fun year hdated => ?_⟩⟩
  · change s.classify ep = _
    rw [Survey.classify, hkey, howned, hasked, hcurrent, hyear, hboundary]
    exact classifyEpisode_congr hseason hepisode hair
  · rw [hkey, ← List.contains_iff_mem, howned, hmissing]
    exact Bool.false_ne_true
  · rw [hcurrent, hyear]
    exact not_lt.1 fun hlt => hpast ⟨year, hair.symm.trans hdated, hlt⟩

/-! ### Two catalogues -/

theorem nodup_noRows : (([] : List WantedEpisode).map WantedEpisode.slot).Nodup := List.nodup_nil

/-- A scan of a series with an episode in these circumstances and the neighbours given. -/
def scanOf (c : Circumstances) (neighbours : List CatalogEpisode) : Scan where
  sources :=
    { item := fun id => some { id, type := .series, title := "The Wire", year := none,
                               imdb := some "tt0306414", seasonNumber := none }
      resolved := fun _ _ => none
      listSeriesEpisodes := fun _ => c.episode :: neighbours
      startYear := fun _ => some 2002
      ownedEpisodeSet := fun _ _ _ => []
      airedBoundary := fun _ => c.boundary
      includeSpecials := true
      currentYear := c.currentYear
      now := 1000
      newId := CatalogEpisode.episodeTconst }
  fails _ := false
  watchlistItemId := "wl1"
  rows := ⟨[], nodup_noRows⟩

/-- What the scan finds out about the series. -/
def surveyOf (c : Circumstances) (neighbours : List CatalogEpisode) (asked : Bool) : Survey where
  item := { id := "wl1", type := .series, title := "The Wire", year := none, imdb := some "tt0306414",
            seasonNumber := none }
  seriesTconst := "tt0306414"
  scopedCatalog := c.episode :: neighbours
  owned := []
  includeSpecials := true
  boundary := if asked then c.boundary else none
  currentYear := c.currentYear

theorem survey_scanOf (c : Circumstances) (neighbours : List CatalogEpisode) :
    survey (scanOf c neighbours).sources (scanOf c neighbours).fails "wl1" =
      .ok (surveyOf c neighbours (ambiguous (surveyOf c neighbours false))) := rfl

theorem stores_scanOf {c : Circumstances} (howned : c.owned = false) (neighbours : List CatalogEpisode) :
    Stores (scanOf c neighbours) c (c.status (ambiguous (surveyOf c neighbours false))) := by
  set s := surveyOf c neighbours (ambiguous (surveyOf c neighbours false)) with hs
  set row := rebuiltRow (scanOf c neighbours).sources "wl1" s [] c.episode with hrow
  have hsurvey : survey (scanOf c neighbours).sources (scanOf c neighbours).fails "wl1" = .ok s :=
    survey_scanOf c neighbours
  have hstatus : row.status = c.status (ambiguous (surveyOf c neighbours false)) := by
    rw [Circumstances.status, howned]
    rfl
  refine ⟨⟨rfl, rfl⟩, ⟨s, hsurvey, howned.symm, rfl, rfl⟩, row, ⟨?_, rfl, ?_⟩, rfl, rfl, rfl, hstatus⟩
  · have hafter : (scanOf c neighbours).after.1 = rowsAfter (scanOf c neighbours).sources
        (scanOf c neighbours).fails "wl1" s (scanOf c neighbours).rows := scanSeries_rows hsurvey rfl rfl
    obtain ⟨rest, hnew⟩ : ∃ rest, rebuiltRows (scanOf c neighbours).sources "wl1" s [] = row :: rest :=
      ⟨_, rfl⟩
    have hfound : (scanOf c neighbours).after.1.find row.slot = some row := by
      rw [hafter]
      change (Table.addMissings _ (rebuiltRows (scanOf c neighbours).sources "wl1" s [])).find row.slot = _
      rw [Table.find_addMissings, hnew, List.find?_cons_of_pos (by simp)]
      rfl
    exact (Table.find_eq_some.1 hfound).1
  · rw [hstatus]
    exact classifyEpisode_ne_ignored

def announced (c : Circumstances) : CatalogEpisode :=
  { c.episode with seasonNumber := c.seasonNumber + 1, airYear := none }

theorem ambiguous_alone {c : Circumstances} (hpast : c.Past) : ambiguous (surveyOf c [] false) = false := by
  obtain ⟨year, hyear, hlt⟩ := hpast
  simp [ambiguous, surveyOf, Circumstances.episode, hyear, hlt]

theorem ambiguous_announced (c : Circumstances) : ambiguous (surveyOf c [announced c] false) = true := by
  simp [ambiguous, surveyOf, announced]

/-- With an announced season in the catalogue the episode is not aired yet, and without one it is
missing. -/
theorem not_ownAffair {c : Circumstances} (howned : c.owned = false) (hpast : c.Past)
    (hbeyond : c.BeyondBoundary) : ¬ OwnAffair c := by
  intro h
  have halone := stores_scanOf howned []
  have hannounced := stores_scanOf howned [announced c]
  rw [ambiguous_alone hpast, Circumstances.status_past howned hpast] at halone
  rw [ambiguous_announced, Circumstances.status_beyond howned hbeyond] at hannounced
  cases h _ _ _ _ halone hannounced

/-- Only an episode of an earlier year that comes after the boundary has a status that its neighbours
decide. -/
theorem ownAffair_iff (c : Circumstances) :
    OwnAffair c ↔ c.owned = true ∨ ¬ c.Past ∨ ¬ c.BeyondBoundary := by
  refine ⟨fun h => ?_, fun h scan scan' status status' hstores hstores' => ?_⟩
  · by_contra hnot
    simp only [not_or, not_not, Bool.not_eq_true] at hnot
    exact not_ownAffair hnot.1 hnot.2.1 hnot.2.2 h
  · obtain ⟨asked, rfl, hasked⟩ := hstores.status_eq
    obtain ⟨asked', rfl, hasked'⟩ := hstores'.status_eq
    by_cases howned : c.owned = true
    · rw [Circumstances.status_owned howned, Circumstances.status_owned howned]
    · have howned := eq_false_of_ne_true howned
      by_cases hpast : c.Past
      · have hbeyond : ¬ c.BeyondBoundary := by
          simpa [howned, hpast] using h
        have hmissing : ∀ asked, c.status asked = .missing := fun asked => by
          cases asked with
          | false => exact Circumstances.status_past howned hpast
          | true => exact Circumstances.status_aired howned hpast hbeyond
        rw [hmissing, hmissing]
      · rw [hasked howned hpast, hasked' howned hpast]

/-- The first episode of a season that was announced for last year and has not aired. -/
def lateEpisode : Circumstances where
  owned := false
  seasonNumber := 2
  episodeNumber := 1
  airYear := some 2025
  currentYear := 2026
  boundary := some ⟨1, 10⟩

/-- Its status is decided by whether a season after it is announced. -/
theorem lateEpisode_not_ownAffair : ¬ OwnAffair lateEpisode :=
  not_ownAffair rfl ⟨2025, rfl, by decide⟩ ⟨⟨1, 10⟩, rfl, by decide⟩

end UltraTorrent.Acquisition.NeighbouringEpisodes
