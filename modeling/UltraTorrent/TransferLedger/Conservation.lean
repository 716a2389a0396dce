import UltraTorrent.TransferLedger.SyncLoop

/-! The ledger against what the engine has really moved. A snapshot leaves the bytes moved
since it still to be banked, so the account that has to stay covered is the total and what
is owed on top of it. -/
namespace UltraTorrent.TransferLedger.Conservation

open Library.Keyed Accrual SyncLoop

/-- What the next pass over this engine would bank. -/
def owed (snapshots : String → Option Counters) (e : Engine) (dir : Direction) : ℕ :=
  (e.torrents.map (delta snapshots dir)).sum

def accrued (ledger : Option LedgerRow) : Counters := (ledger.map (·.accrued)).getD 0

def seedEngine (s : State) (t : Tick) : Engine :=
  match t.allTimeReply with
  | .missing => fallbackEngine s t
  | .failed | .answered => askedEngine s t

/-- A tick that settles the baseline finds nothing accrued, and no torrent with a snapshot
has moved since it was taken. -/
def SeedsBeforeCounting (s : State) (t : Tick) : Prop :=
  isSettled s t = false → seedValues s t ≠ none →
    ∀ dir, (accrued s.ledger).of dir = 0 ∧ owed s.snapshots (seedEngine s t) dir = 0

/-- Every tick of a run from `s` does. -/
def SeedsFirst : State → List Tick → Prop
  | _, [] => True
  | s, t :: ts => SeedsBeforeCounting s t ∧ SeedsFirst (syncEngine s t) ts

/-- Everything counted, and everything about to be, has really been moved. -/
def Covered (ledger : Option LedgerRow) (snapshots : String → Option Counters) (e : Engine) : Prop :=
  ∀ dir, (totals ledger).of dir + owed snapshots e dir ≤ e.allTime.of dir

/-! ### The engine moves on -/

theorem delta_moveBytes_le (snapshots : String → Option Counters) (dir : Direction) (bytes : Counters)
    (t : TransferReading) :
    delta snapshots dir (moveBytes bytes t) ≤ delta snapshots dir t + bytes.of dir := by
  unfold delta
  rw [moveBytes_hash]
  cases snapshots t.hash with
  | none => exact Nat.zero_le _
  | some prior =>
    have hmoved : (moveBytes bytes t).of dir = t.of dir + bytes.of dir := of_add t.toCounters bytes dir
    dsimp only
    rw [hmoved]
    exact contribution_add_le _ _ _

/-- A torrent that starts from zero owes nothing. -/
theorem delta_fresh (snapshots : String → Option Counters) (dir : Direction) (hash : String) :
    delta snapshots dir { hash := hash } = 0 := by
  unfold delta
  cases snapshots hash with
  | none => rfl
  | some prior =>
    have hzero : Counters.of {} dir = 0 := of_zero dir
    dsimp only
    rw [hzero]
    exact contribution_zero _

theorem owed_step (snapshots : String → Option Counters) (e : Engine) (move : Move) (dir : Direction) :
    owed snapshots (e.step move) dir + e.allTime.of dir ≤
      owed snapshots e dir + (e.step move).allTime.of dir := by
  cases move with
  | transfer hash bytes =>
    change owed snapshots (e.transfer hash bytes) dir + _ ≤ _ + (e.transfer hash bytes).allTime.of dir
    unfold Engine.transfer
    split_ifs with h
    · have := sum_modifyAt_le (·.hash) hash e.distinct (delta_moveBytes_le snapshots dir bytes)
        (fun t _ => le_refl (delta snapshots dir t))
      simp only [owed, of_add]
      omega
    · exact le_rfl
  | add hash =>
    change owed snapshots (e.add hash) dir + _ ≤ _ + (e.add hash).allTime.of dir
    unfold Engine.add
    split_ifs with h
    · exact le_rfl
    · simp only [owed, List.map_cons, List.sum_cons, delta_fresh]
      omega
  | remove hash =>
    have hle : owed snapshots (e.remove hash) dir ≤ owed snapshots e dir :=
      List.Sublist.sum_le_sum (List.filter_sublist.map _) (by simp)
    exact Nat.add_le_add_right hle _

theorem covered_run {ledger : Option LedgerRow} {snapshots : String → Option Counters} {e : Engine}
    (h : Covered ledger snapshots e) (moves : List Move) : Covered ledger snapshots (e.run moves) := by
  induction moves generalizing e with
  | nil => exact h
  | cons move moves ih =>
    apply ih
    intro dir
    have := owed_step snapshots e move dir
    have := h dir
    omega

/-! ### The ledger is written -/

theorem totals_of (ledger : Option LedgerRow) (dir : Direction) :
    (totals ledger).of dir = (ledger.getD {}).baseline.of dir + (ledger.getD {}).accrued.of dir := by
  cases ledger with
  | none => cases dir <;> rfl
  | some row => exact of_add _ _ _

theorem accrued_of (ledger : Option LedgerRow) : accrued ledger = (ledger.getD {}).accrued := by
  cases ledger with
  | none => rfl
  | some row => rfl

theorem totals_accrualOperation (ledger : Option LedgerRow) (torrents : List TransferReading)
    (prior : String → Option Counters) (dir : Direction) :
    (totals (accrualOperation ledger torrents prior)).of dir =
      (totals ledger).of dir + (torrents.map (delta prior dir)).sum := by
  rw [← accrue_of]
  unfold accrualOperation
  dsimp only
  split_ifs with hempty
  · rw [of_eq_zero_of_isEmpty hempty]
    rfl
  · rw [totals_of, totals_of, Option.getD_some]
    dsimp only
    rw [of_add]
    omega

theorem sumCounters_of (torrents : List TransferReading) (dir : Direction) :
    (sumCounters torrents).of dir = (torrents.map fun t => t.of dir).sum := by
  cases dir <;> rfl

theorem seedValues_le {s : State} {t : Tick} {seed : Counters} {source : BaselineSource}
    (h : seedValues s t = some (seed, source)) (dir : Direction) :
    seed.of dir ≤ (seedEngine s t).allTime.of dir := by
  unfold seedValues at h
  unfold seedEngine
  split at h
  · cases h
  · rename_i hreply
    injection h with h
    injection h with hseed
    simp only [hreply, ← hseed]
    exact le_rfl
  · rename_i hreply
    split_ifs at h
    injection h with h
    injection h with hseed
    simp only [hreply, ← hseed, sumCounters_of]
    exact (fallbackEngine s t).counted dir

theorem covered_seedEngine {ledger : Option LedgerRow} {s : State} (t : Tick)
    (h : Covered ledger s.snapshots s.engine) : Covered ledger s.snapshots (seedEngine s t) := by
  unfold seedEngine
  split
  · exact covered_run (covered_run h _) _
  · exact covered_run h _
  · exact covered_run h _

theorem covered_fallback_of_seed {ledger : Option LedgerRow} {s : State} (t : Tick)
    (h : Covered ledger s.snapshots (seedEngine s t)) : Covered ledger s.snapshots (fallbackEngine s t) := by
  unfold seedEngine at h
  split at h
  · exact h
  · exact covered_run h _
  · exact covered_run h _

theorem covered_ensureBaseline {s : State} {t : Tick} (hseeds : SeedsBeforeCounting s t)
    (h : Covered s.ledger s.snapshots s.engine) :
    Covered (ensureBaseline s t).ledger s.snapshots (fallbackEngine s t) := by
  apply covered_fallback_of_seed
  unfold ensureBaseline
  split_ifs with hsettled
  · exact covered_seedEngine t h
  · split
    · exact covered_seedEngine t h
    · rename_i seed source hvalues
      intro dir
      obtain ⟨haccrued, howed⟩ := hseeds (by simpa using hsettled) (by simp [hvalues]) dir
      rw [accrued_of] at haccrued
      rw [howed, totals_of]
      dsimp only [Option.getD_some]
      rw [haccrued]
      have := seedValues_le hvalues dir
      omega

theorem upsertAll_of_notMem {snapshots : String → Option Counters} {torrents : List TransferReading}
    {hash : String} (h : hash ∉ torrents.map (·.hash)) : upsertAll snapshots torrents hash = snapshots hash := by
  induction torrents generalizing snapshots with
  | nil => rfl
  | cons t torrents ih =>
    rw [List.map_cons, List.mem_cons, not_or] at h
    rw [upsertAll, List.foldl_cons]
    exact (ih h.2).trans (Function.update_of_ne h.1 _ _)

theorem upsertAll_of_mem {snapshots : String → Option Counters} {torrents : List TransferReading}
    (hnodup : (torrents.map (·.hash)).Nodup) {t : TransferReading} (ht : t ∈ torrents) :
    upsertAll snapshots torrents t.hash = some t.toCounters := by
  induction torrents generalizing snapshots with
  | nil => cases ht
  | cons a torrents ih =>
    rw [List.map_cons, List.nodup_cons] at hnodup
    rw [upsertAll, List.foldl_cons]
    rcases List.mem_cons.1 ht with rfl | ht
    · exact (upsertAll_of_notMem hnodup.1).trans (Function.update_self _ _ _)
    · exact ih hnodup.2 ht

theorem ensureBaseline_snapshots (s : State) (t : Tick) : (ensureBaseline s t).snapshots = s.snapshots := by
  unfold ensureBaseline
  split_ifs
  · rfl
  · split <;> rfl

theorem owed_persistSnapshots (s : State) (e : Engine) (dir : Direction) :
    owed (persistSnapshots s e.torrents).snapshots e dir = 0 := by
  unfold owed
  apply List.sum_eq_zero
  intro n hn
  obtain ⟨t, ht, rfl⟩ := List.mem_map.1 hn
  have hmem : t.hash ∈ e.torrents.map (·.hash) := List.mem_map_of_mem ht
  have hsnapshot : (persistSnapshots s e.torrents).snapshots t.hash = some t.toCounters := by
    simp only [persistSnapshots]
    rw [if_pos hmem, upsertAll_of_mem e.distinct ht]
  rw [delta, hsnapshot]
  exact contribution_self _

theorem covered_persistSnapshots {s : State} {e : Engine} (h : Covered s.ledger s.snapshots e) :
    Covered (persistSnapshots s e.torrents).ledger (persistSnapshots s e.torrents).snapshots e := by
  intro dir
  rw [owed_persistSnapshots]
  have hbanked : (totals (persistSnapshots s e.torrents).ledger).of dir =
      (totals s.ledger).of dir + owed s.snapshots e dir := by
    change (totals (accrualOperation _ _ _)).of dir = _
    rw [totals_accrualOperation, owed]
    congr 2
    apply List.map_congr_left
    intro t ht
    rw [delta, delta, priorSnapshots, if_pos (List.mem_map_of_mem ht)]
  have := h dir
  omega

/-! ### Whole runs -/

theorem covered_syncEngine {s : State} {t : Tick} (hseeds : SeedsBeforeCounting s t)
    (h : Covered s.ledger s.snapshots s.engine) :
    Covered (syncEngine s t).ledger (syncEngine s t).snapshots (syncEngine s t).engine := by
  have hlisted := covered_run (covered_ensureBaseline hseeds h) t.beforeListing
  unfold syncEngine
  dsimp only
  split_ifs with hfails
  · dsimp only
    rw [ensureBaseline_snapshots]
    exact covered_run hlisted t.beforeWrite
  · refine covered_run (covered_persistSnapshots ?_) t.beforeWrite
    dsimp only
    rw [ensureBaseline_snapshots]
    exact hlisted

theorem covered_ticks {s : State} (ticks : List Tick) (hseeds : SeedsFirst s ticks)
    (h : Covered s.ledger s.snapshots s.engine) :
    Covered (ticks.foldl syncEngine s).ledger (ticks.foldl syncEngine s).snapshots
      (ticks.foldl syncEngine s).engine := by
  induction ticks generalizing s with
  | nil => exact h
  | cons t ticks ih => exact ih hseeds.2 (covered_syncEngine hseeds.1 h)

theorem seedsFirst_initial {s : State} {done ticks : List Tick} (hdone : done <+: ticks)
    (h : SeedsFirst s ticks) : SeedsFirst s done := by
  induction done generalizing s ticks with
  | nil => trivial
  | cons t done ih =>
    obtain ⟨rest, rfl⟩ := hdone
    exact ⟨h.1, ih ⟨rest, rfl⟩ h.2⟩

/-- In a run whose baseline is settled before anything is counted, the ledger never holds
more than the engine has moved, whichever calls fail. -/
theorem ledger_le_allTime (engine : Engine) (ticks : List Tick)
    (hseeds : SeedsFirst { engine := engine } ticks) (done : List Tick) (hdone : done <+: ticks)
    (dir : Direction) :
    (totals (runLoop engine done).ledger).of dir ≤ (runLoop engine done).engine.allTime.of dir := by
  have hstart : Covered none (fun _ => none) engine := by
    intro dir
    have howed : owed (fun _ => none) engine dir = 0 := by
      apply List.sum_eq_zero
      intro n hn
      obtain ⟨t, -, rfl⟩ := List.mem_map.1 hn
      rfl
    rw [howed]
    exact (of_zero dir).le.trans (Nat.zero_le _)
  have := covered_ticks done (seedsFirst_initial hdone hseeds) hstart dir
  exact (Nat.le_add_right _ _).trans this

/-! ### A late baseline -/

/-- One torrent that has downloaded a hundred bytes. -/
def adopted : Engine where
  torrents := [{ hash := "h", downloaded := 100 }]
  allTime := { downloaded := 100 }
  distinct := by decide
  counted := by
    intro dir
    cases dir <;> decide

/-- An outage over both calls, then the baseline, then fifty bytes. -/
def outageFirst : List Tick :=
  [{ allTimeReply := .failed, listingFails := true }, { allTimeReply := .answered },
    { allTimeReply := .answered, before := [.transfer "h" { downloaded := 50 }] }]

theorem ledger_le_allTime_outageFirst :
    (totals (runLoop adopted outageFirst).ledger).of .down ≤
      (runLoop adopted outageFirst).engine.allTime.of .down := by
  have hseeds : SeedsFirst { engine := adopted } outageFirst := by
    refine ⟨?_, ?_, ?_, trivial⟩
    · intro _ hvalues
      exact absurd rfl hvalues
    · intro _ _ dir
      cases dir <;> decide +kernel
    · intro hsettled
      exact absurd hsettled (by decide +kernel)
  exact ledger_le_allTime adopted outageFirst hseeds outageFirst (List.prefix_refl _) .down

/-- The statistics call fails while the listing works, fifty bytes later it answers: they
are in the baseline and are banked again. -/
theorem lateBaseline_countsTwice :
    let ticks : List Tick := [{ allTimeReply := .failed },
      { allTimeReply := .answered, before := [.transfer "h" { downloaded := 50 }] }]
    (totals (runLoop adopted ticks).ledger).downloaded = 200 ∧
      (runLoop adopted ticks).engine.allTime.downloaded = 150 := by
  decide +kernel

end UltraTorrent.TransferLedger.Conservation
