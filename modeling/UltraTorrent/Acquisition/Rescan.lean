import UltraTorrent.Acquisition.MissingEpisodes

/-! What a rescan keeps of the rows it deletes: the decisions of the operator, and the state of
the searches that are under way. -/
namespace UltraTorrent.Acquisition.Rescan

open Library Library.EcmaScript MissingEpisodes

/-- The status a scan gives the episode of a key. -/
def statusOf (s : Survey) (key : String) : Option EpisodeStatus :=
  (s.tracked.find? fun ep => ep.key = key).map s.classify

/-- The scan finds the episode of a row missing. -/
def StillMissing (sources : Sources) (fails : Await → Bool) (watchlistItemId : String)
    (w : WantedEpisode) : Prop :=
  w.watchlistItemId = watchlistItemId ∧
    ∃ s, survey sources fails watchlistItemId = .ok s ∧ statusOf s w.key = some .missing

/-- A row is remembered in the rows after the scan. -/
structure Remembered (still : Prop) (after : WantedEpisodes) (w : WantedEpisode) : Prop where
  ignored : w.status = .ignored → ∃ w', after.find w.slot = some w' ∧ w'.status = .ignored
  excluded : w.excludedFromScope → ∃ w', after.find w.slot = some w' ∧ w'.excludedFromScope
  missing : w.status = .missing →
    (still ∨ ∃ w', after.find w.slot = some w' ∧ w'.status = .missing) →
    ∃ w', after.find w.slot = some w' ∧ w'.status = .missing ∧
      w'.toAcquisitionState = w.toAcquisitionState

theorem Remembered.of_find {still : Prop} {after : WantedEpisodes} {w : WantedEpisode}
    (h : after.find w.slot = some w) : Remembered still after w where
  ignored hstatus := ⟨w, h, hstatus⟩
  excluded hexcluded := ⟨w, h, hexcluded⟩
  missing hstatus _ := ⟨w, h, hstatus, rfl⟩

/-- A row of which nothing is found has to be one that nobody asks for. -/
theorem remembered_iff_of_none {still : Prop} {after : WantedEpisodes} {w : WantedEpisode}
    (hstatus : w.status ≠ .ignored) (hnone : after.find w.slot = none) :
    Remembered still after w ↔ ¬ w.excludedFromScope ∧ (w.status = .missing → ¬ still) := by
  refine ⟨fun h => ⟨fun hexcluded => ?_, fun hmissing hstill => ?_⟩, fun h => ⟨?_, ?_, ?_⟩⟩
  · obtain ⟨w', hw', -⟩ := h.excluded hexcluded
    cases hnone.symm.trans hw'
  · obtain ⟨w', hw', -⟩ := h.missing hmissing (.inl hstill)
    cases hnone.symm.trans hw'
  · exact fun hignored => absurd hignored hstatus
  · exact fun hexcluded => absurd hexcluded h.1
  · rintro hmissing (hstill | ⟨w', hw', -⟩)
    · exact absurd hstill (h.2 hmissing)
    · cases hnone.symm.trans hw'

theorem remembered_iff_of_some {still : Prop} {after : WantedEpisodes} {v w : WantedEpisode}
    (hstatus : w.status ≠ .ignored) (hsome : after.find w.slot = some v) :
    Remembered still after w ↔ (w.excludedFromScope → v.excludedFromScope) ∧
      (w.status = .missing → still ∨ v.status = .missing →
        v.status = .missing ∧ v.toAcquisitionState = w.toAcquisitionState) := by
  refine ⟨fun h => ⟨fun hexcluded => ?_, fun hmissing hnow => ?_⟩, fun h => ⟨?_, ?_, ?_⟩⟩
  · obtain ⟨w', hw', hexcluded'⟩ := h.excluded hexcluded
    rwa [Option.some.inj (hsome.symm.trans hw')]
  · obtain ⟨w', hw', hkept⟩ := h.missing hmissing (hnow.imp_right fun hv => ⟨v, hsome, hv⟩)
    rwa [Option.some.inj (hsome.symm.trans hw')]
  · exact fun hignored => absurd hignored hstatus
  · exact fun hexcluded => ⟨v, hsome, h.1 hexcluded⟩
  · intro hmissing hnow
    refine ⟨v, hsome, h.2 hmissing (hnow.imp_right ?_)⟩
    rintro ⟨w', hw', hstatus'⟩
    rwa [Option.some.inj (hsome.symm.trans hw')]

/-! ### Rebuilding a row -/

variable {sources : Sources} {fails : Await → Bool} {watchlistItemId : String} {s : Survey}
  {rows : WantedEpisodes} {w : WantedEpisode} {ep : CatalogEpisode}

theorem mem_ofItem {v : WantedEpisode} :
    v ∈ ofItem watchlistItemId rows ↔ v ∈ rows.rows ∧ v.watchlistItemId = watchlistItemId := by
  simp [ofItem]

theorem eq_of_mem_ofItem {v : WantedEpisode} (hv : v ∈ ofItem watchlistItemId rows)
    (hw : w ∈ ofItem watchlistItemId rows) (hkey : v.key = w.key) : v = w := by
  rw [mem_ofItem] at hv hw
  exact Table.eq_of_key hv.1 hw.1 (slot_eq (hv.2.trans hw.2.symm) hkey)

theorem key_notMem_ignored (hw : w ∈ ofItem watchlistItemId rows) (hstatus : w.status ≠ .ignored) :
    w.key ∉ ignoredKeys (ofItem watchlistItemId rows) := by
  intro hmem
  obtain ⟨v, hv, hkey⟩ := List.mem_map.1 hmem
  obtain ⟨hv, hignored⟩ := List.mem_filter.1 hv
  rw [eq_of_mem_ofItem hv hw hkey] at hignored
  exact hstatus (of_decide_eq_true hignored)

theorem key_mem_excluded (hw : w ∈ ofItem watchlistItemId rows) (hstatus : w.status ≠ .ignored) :
    w.key ∈ excludedKeys (ofItem watchlistItemId rows) ↔ w.excludedFromScope := by
  refine ⟨fun hmem => ?_, fun hexcluded => ?_⟩
  · obtain ⟨v, hv, hkey⟩ := List.mem_map.1 hmem
    obtain ⟨hv, hexcluded⟩ := List.mem_filter.1 hv
    rw [eq_of_mem_ofItem hv hw hkey] at hexcluded
    exact (of_decide_eq_true hexcluded).2
  · exact List.mem_map_of_mem (List.mem_filter.2 ⟨hw, decide_eq_true ⟨hstatus, hexcluded⟩⟩)

theorem mapGet_grabStateByKey (hw : w ∈ ofItem watchlistItemId rows)
    (hstatus : w.status ≠ .ignored) :
    mapGet (grabStateByKey (ofItem watchlistItemId rows)) w.key =
      if w.searchStatus = .idle then none else some (grabState w) := by
  have hpairs : ∀ state, (w.key, state) ∈ grabStateByKey (ofItem watchlistItemId rows) →
      w.searchStatus ≠ .idle ∧ state = grabState w := by
    intro state hmem
    obtain ⟨v, hv, hpair⟩ := List.mem_map.1 hmem
    obtain ⟨hv, hsearched⟩ := List.mem_filter.1 hv
    obtain ⟨hkey, rfl⟩ := Prod.mk.inj hpair
    rw [eq_of_mem_ofItem hv hw hkey] at hsearched ⊢
    exact ⟨(of_decide_eq_true hsearched).2, rfl⟩
  cases hget : mapGet (grabStateByKey (ofItem watchlistItemId rows)) w.key with
  | some state =>
    obtain ⟨hsearched, rfl⟩ := hpairs state (mem_of_mapGet hget)
    rw [if_neg hsearched]
  | none =>
    split_ifs with hidle
    · rfl
    · have hpair : (w.key, grabState w) ∈ grabStateByKey (ofItem watchlistItemId rows) :=
        List.mem_map_of_mem (List.mem_filter.2 ⟨hw, decide_eq_true ⟨hstatus, hidle⟩⟩)
      have hsome := isSome_mapGet hpair
      rw [hget] at hsome
      cases hsome

/-- The columns the scan remembers are all there is to remember of the row. -/
structure Carried (w : WantedEpisode) : Prop where
  torrentHash : w.torrentHash = none
  intakeRuleId : w.intakeRuleId = none
  deadReleases : w.deadReleases = []
  idle : w.searchStatus = .idle → w.lastSearchedAt = none ∧ w.grabbedAt = none ∧
    w.grabbedEvaluationId = none ∧ w.downloadUrl = none ∧ w.releaseTitle = none

theorem carried_iff :
    (if w.searchStatus = .idle then ({} : AcquisitionState) else grabState w) =
      w.toAcquisitionState ↔ Carried w := by
  obtain ⟨⟨searchStatus, lastSearchedAt, grabbedAt, grabbedEvaluationId, downloadUrl, releaseTitle,
    torrentHash, deadReleases, intakeRuleId⟩, _⟩ := w
  refine ⟨fun h => ?_, fun h => ?_⟩
  · dsimp only at h
    split_ifs at h with hidle
    · simp only [AcquisitionState.mk.injEq] at h
      obtain ⟨rfl, rfl, rfl, rfl, rfl, rfl, rfl, rfl, rfl⟩ := h
      exact ⟨rfl, rfl, rfl, fun _ => ⟨rfl, rfl, rfl, rfl, rfl⟩⟩
    · simp only [grabState, AcquisitionState.mk.injEq] at h
      obtain ⟨-, -, -, -, -, -, rfl, rfl, rfl⟩ := h
      exact ⟨rfl, rfl, rfl, fun hsearch => absurd hsearch hidle⟩
  · obtain ⟨hhash, hrule, hdead, hidle⟩ := h
    dsimp only at hhash hrule hdead hidle ⊢
    subst hhash hrule hdead
    split_ifs with hsearch
    · obtain ⟨rfl, rfl, rfl, rfl, rfl⟩ := hidle hsearch
      rw [hsearch]
    · rfl

/-- A row written again for an episode that is still missing. -/
theorem rebuiltRow_state (hw : w ∈ ofItem watchlistItemId rows) (hstatus : w.status ≠ .ignored)
    (hkey : ep.key = w.key) (hmissing : s.classify ep = .missing) :
    (rebuiltRow sources watchlistItemId s (ofItem watchlistItemId rows) ep).toAcquisitionState =
      if w.searchStatus = .idle then {} else grabState w := by
  simp only [rebuiltRow, if_pos hmissing, hkey, mapGet_grabStateByKey hw hstatus]
  split_ifs <;> rfl

theorem rebuiltRow_excluded (sources : Sources) (s : Survey) (hw : w ∈ ofItem watchlistItemId rows)
    (hstatus : w.status ≠ .ignored) (hkey : ep.key = w.key) :
    (rebuiltRow sources watchlistItemId s (ofItem watchlistItemId rows) ep).excludedFromScope =
      w.excludedFromScope := by
  rw [Bool.eq_iff_iff, ← key_mem_excluded hw hstatus, ← hkey]
  exact List.contains_iff_mem

/-! ### Deleting and writing -/

theorem find_deleteRows_of_kept (hw : w ∈ rows.rows)
    (hkept : ¬ (w.watchlistItemId = watchlistItemId ∧ w.status ≠ .ignored)) :
    (deleteRows watchlistItemId rows).find w.slot = some w :=
  Table.find_key (Table.mem_filter.2 ⟨hw, decide_eq_true hkept⟩)

theorem find_deleteRows_of_deleted (hw : w ∈ rows.rows) (hitem : w.watchlistItemId = watchlistItemId)
    (hstatus : w.status ≠ .ignored) : (deleteRows watchlistItemId rows).find w.slot = none := by
  rw [Option.eq_none_iff_forall_ne_some]
  intro v hv
  obtain ⟨hmem, hslot⟩ := Table.find_eq_some.1 hv
  obtain ⟨hmem, hkept⟩ := Table.mem_filter.1 hmem
  rw [Table.eq_of_key hmem hw hslot] at hkept
  exact of_decide_eq_true hkept ⟨hitem, hstatus⟩

theorem rebuiltRow_slot (hitem : w.watchlistItemId = watchlistItemId) (existing : List WantedEpisode) :
    (rebuiltRow sources watchlistItemId s existing ep).slot = w.slot ↔ ep.key = w.key := by
  refine ⟨fun h => key_eq h, fun h => slot_eq hitem.symm h⟩

theorem find_rebuiltRows (hw : w ∈ rows.rows) (hitem : w.watchlistItemId = watchlistItemId)
    (hstatus : w.status ≠ .ignored) :
    ((rebuiltRows sources watchlistItemId s (ofItem watchlistItemId rows)).find? fun v =>
        v.slot = w.slot) =
      (s.tracked.find? fun ep => ep.key = w.key).map
        (rebuiltRow sources watchlistItemId s (ofItem watchlistItemId rows)) := by
  have hmem := mem_ofItem.2 ⟨hw, hitem⟩
  rw [rebuiltRows, List.find?_map, List.find?_filter]
  congr 2
  funext ep
  simp only [Function.comp_apply, rebuiltRow_slot hitem]
  by_cases hkey : ep.key = w.key
  · simp [hkey, key_notMem_ignored hmem hstatus]
  · simp [hkey]

/-! ### What a scan keeps -/

/-- A scan forgets nothing of a row it deletes: an excluded episode is written again, and so is a
missing one, with nothing to remember but the columns that are carried over. -/
structure Survives (fails : Await → Bool) (s : Survey) (w : WantedEpisode) : Prop where
  excluded : w.excludedFromScope → fails .createRows = false ∧ (statusOf s w.key).isSome
  missing : w.status = .missing → statusOf s w.key = some .missing →
    fails .createRows = false ∧ Carried w

/-- Whenever a scan comes to delete the rows, each one it deletes survives. -/
def SafeRescan (sources : Sources) (fails : Await → Bool) (watchlistItemId : String)
    (rows : WantedEpisodes) : Prop :=
  ∀ s, survey sources fails watchlistItemId = .ok s → fails .findExisting = false →
    fails .deleteRows = false → ∀ w ∈ rows.rows, w.watchlistItemId = watchlistItemId →
    w.status ≠ .ignored → Survives fails s w

def rowsAfter (sources : Sources) (fails : Await → Bool) (watchlistItemId : String) (s : Survey)
    (rows : WantedEpisodes) : WantedEpisodes :=
  let new := rebuiltRows sources watchlistItemId s (ofItem watchlistItemId rows)
  if fails .createRows then deleteRows watchlistItemId rows
  else (deleteRows watchlistItemId rows).addMissings new

theorem scanSeries_rows (hs : survey sources fails watchlistItemId = .ok s)
    (hfind : fails .findExisting = false) (hdelete : fails .deleteRows = false) :
    (scanSeries sources fails watchlistItemId rows).1 =
      rowsAfter sources fails watchlistItemId s rows := by
  unfold scanSeries rowsAfter
  simp only [hs, hfind, hdelete, Bool.false_eq_true, if_false]
  by_cases hnew : rebuiltRows sources watchlistItemId s (ofItem watchlistItemId rows) = []
  · cases fails .createRows <;> cases fails .countByStatus <;> cases fails .audit <;>
      simp [hnew, Table.addMissings]
  · cases fails .createRows <;> cases fails .countByStatus <;> cases fails .audit <;> simp [hnew]

theorem scanSeries_rows_eq (h : ∀ s, survey sources fails watchlistItemId = .ok s →
    fails .findExisting = false → fails .deleteRows = true) :
    (scanSeries sources fails watchlistItemId rows).1 = rows := by
  unfold scanSeries
  cases hs : survey sources fails watchlistItemId with
  | error e => rfl
  | ok s =>
    cases hfind : fails .findExisting with
    | true => rfl
    | false => simp [h s hs hfind]

/-- A row that is not deleted is still found. -/
theorem find_rowsAfter_of_kept (hw : w ∈ rows.rows)
    (hkept : ¬ (w.watchlistItemId = watchlistItemId ∧ w.status ≠ .ignored)) :
    (rowsAfter sources fails watchlistItemId s rows).find w.slot = some w := by
  have hfind := find_deleteRows_of_kept hw hkept
  unfold rowsAfter
  split_ifs
  · exact hfind
  · rw [Table.find_addMissings, hfind, Option.some_or]

theorem find_rowsAfter_of_deleted (hw : w ∈ rows.rows) (hitem : w.watchlistItemId = watchlistItemId)
    (hstatus : w.status ≠ .ignored) :
    (rowsAfter sources fails watchlistItemId s rows).find w.slot =
      if fails .createRows then none
      else (s.tracked.find? fun ep => ep.key = w.key).map
        (rebuiltRow sources watchlistItemId s (ofItem watchlistItemId rows)) := by
  have hfind := find_deleteRows_of_deleted hw hitem hstatus
  unfold rowsAfter
  split_ifs
  · exact hfind
  · rw [Table.find_addMissings, hfind, Option.none_or, find_rebuiltRows hw hitem hstatus]

theorem remembered_iff (hw : w ∈ rows.rows) (hitem : w.watchlistItemId = watchlistItemId)
    (hstatus : w.status ≠ .ignored) {still : Prop}
    (hstill : still ↔ statusOf s w.key = some .missing) :
    Remembered still (rowsAfter sources fails watchlistItemId s rows) w ↔ Survives fails s w := by
  have hmem := mem_ofItem.2 ⟨hw, hitem⟩
  have hfind : (rowsAfter sources fails watchlistItemId s rows).find w.slot = _ :=
    find_rowsAfter_of_deleted hw hitem hstatus
  cases hcreate : fails .createRows with
  | true =>
    rw [hcreate, if_pos rfl] at hfind
    rw [remembered_iff_of_none hstatus hfind, hstill]
    refine ⟨fun h => ⟨fun hexcluded => ?_, fun hmissing hnow => absurd hnow (h.2 hmissing)⟩,
      fun h => ⟨fun hexcluded => ?_, fun hmissing hnow => ?_⟩⟩
    · exact absurd hexcluded h.1
    · cases hcreate.symm.trans (h.excluded hexcluded).1
    · cases hcreate.symm.trans (h.missing hmissing hnow).1
  | false =>
    rw [hcreate, if_neg Bool.false_ne_true] at hfind
    cases hep : s.tracked.find? (fun ep => ep.key = w.key) with
    | none =>
      have hnone : statusOf s w.key = none := by rw [statusOf, hep, Option.map_none]
      rw [hep, Option.map_none] at hfind
      rw [remembered_iff_of_none hstatus hfind, hstill, hnone]
      refine ⟨fun h => ⟨fun hexcluded => absurd hexcluded h.1, fun _ hnow => ?_⟩,
        fun h => ⟨fun hexcluded => ?_, by simp⟩⟩
      · cases hnone.symm.trans hnow
      · have hsome := (h.excluded hexcluded).2
        rw [hnone] at hsome
        cases hsome
    | some ep =>
      have hkey : ep.key = w.key := by simpa using List.find?_some hep
      have hsome : statusOf s w.key = some (s.classify ep) := by rw [statusOf, hep, Option.map_some]
      rw [hep, Option.map_some] at hfind
      rw [remembered_iff_of_some hstatus hfind, hstill, hsome, Option.some.injEq]
      have hexcluded := rebuiltRow_excluded sources s hmem hstatus hkey
      refine ⟨fun h => ⟨fun _ => ⟨hcreate, ?_⟩, fun hmissing hnow => ⟨hcreate, ?_⟩⟩,
        fun h => ⟨fun h => hexcluded.trans h, fun hmissing hnow => ?_⟩⟩
      · rw [hsome, Option.isSome_some]
      · rw [hsome, Option.some.injEq] at hnow
        have hstate := (h.2 hmissing (.inl hnow)).2
        rw [rebuiltRow_state hmem hstatus hkey hnow] at hstate
        exact carried_iff.1 hstate
      · have hclass : s.classify ep = .missing := hnow.elim id id
        refine ⟨hclass, ?_⟩
        rw [rebuiltRow_state hmem hstatus hkey hclass]
        exact carried_iff.2 (h.missing hmissing (hsome.trans (congrArg some hclass))).2

/-- A scan forgets nothing exactly when it is safe. -/
theorem rescan_remembers_iff (sources : Sources) (fails : Await → Bool) (watchlistItemId : String)
    (rows : WantedEpisodes) :
    (∀ w ∈ rows.rows, Remembered (StillMissing sources fails watchlistItemId w)
      (scanSeries sources fails watchlistItemId rows).1 w) ↔
      SafeRescan sources fails watchlistItemId rows := by
  refine ⟨fun h s hs hfind hdelete w hw hitem hstatus => ?_, fun h w hw => ?_⟩
  · have hstill : StillMissing sources fails watchlistItemId w ↔ statusOf s w.key = some .missing := by
      simp [StillMissing, hitem, hs]
    rw [← remembered_iff hw hitem hstatus hstill, ← scanSeries_rows hs hfind hdelete]
    exact h w hw
  · by_cases hends : ∀ s, survey sources fails watchlistItemId = .ok s →
        fails .findExisting = false → fails .deleteRows = true
    · rw [scanSeries_rows_eq hends]
      exact .of_find (Table.find_key hw)
    · push Not at hends
      obtain ⟨s, hs, hfind, hdelete⟩ := hends
      rw [scanSeries_rows hs hfind (eq_false_of_ne_true hdelete)]
      by_cases hkept : w.watchlistItemId = watchlistItemId ∧ w.status ≠ .ignored
      · have hstill : StillMissing sources fails watchlistItemId w ↔
            statusOf s w.key = some .missing := by
          simp [StillMissing, hkept.1, hs]
        exact (remembered_iff hw hkept.1 hkept.2 hstill).2 
          (h s hs hfind (eq_false_of_ne_true hdelete) w hw hkept.1 hkept.2)
      · exact .of_find (find_rowsAfter_of_kept hw hkept)

/-- A series of one episode, long aired. -/
def oneEpisode : Sources where
  item id := some { id, type := .series, title := "The Wire", year := none, imdb := some "tt0306414",
                    seasonNumber := none }
  resolved _ _ := none
  listSeriesEpisodes _ := [{ episodeTconst := "tt0749451", seasonNumber := 1, episodeNumber := 1,
                             episodeTitle := some "The Target", airYear := some 2002 }]
  startYear _ := some 2002
  ownedEpisodeSet _ _ _ := []
  airedBoundary _ := none
  includeSpecials := false
  currentYear := 2026
  now := 1000
  newId ep := ep.episodeTconst

/-- The episode while its download is under way. -/
def grabbed : WantedEpisode :=
  { id := "w1", watchlistItemId := "wl1", seriesTconst := "tt0306414",
    episodeTconst := some "tt0749451", seasonNumber := 1, episodeNumber := 1,
    episodeTitle := some "The Target", airYear := some 2002, status := .missing,
    searchStatus := .grabbed, torrentHash := some "c0ffee" }

/-- A scan without any failure forgets the torrent of a running download. -/
theorem rescan_forgets_torrent : ¬ ∀ w ∈ [grabbed],
    Remembered (StillMissing oneEpisode (fun _ => false) "wl1" w)
      (scanSeries oneEpisode (fun _ => false) "wl1" ⟨[grabbed], List.nodup_singleton _⟩).1 w := by
  intro h
  have hfound : (scanSeries oneEpisode (fun _ => false) "wl1" ⟨[grabbed], List.nodup_singleton _⟩).1.find
      grabbed.slot = some { grabbed with id := "tt0749451", torrentHash := none } := by
    decide +kernel
  obtain ⟨w', hw', -, hstate⟩ := (h grabbed List.mem_cons_self).missing rfl (.inr ⟨_, hfound, rfl⟩)
  rw [hfound] at hw'
  cases hw'
  cases congrArg AcquisitionState.torrentHash hstate

end UltraTorrent.Acquisition.Rescan
