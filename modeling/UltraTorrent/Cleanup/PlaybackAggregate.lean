import Mathlib.Data.Finset.Card
import UltraTorrent.Library.BestOf
import UltraTorrent.Library.EcmaScript
import UltraTorrent.Library.Text

/-! Playback aggregation: the history rows of an item, one for each session a media server saw
end, are collapsed by session and counted. -/
namespace UltraTorrent.Cleanup.PlaybackAggregate

open Library Library.EcmaScript BestOf

/-- One completed-playback row. Fields the source did not report are `none`. -/
structure PlaybackHistoryRow where
  userName : Option String
  startedAt : Instant
  stoppedAt : Option Instant := none
  watchedSeconds : Option ℚ := none
  percentComplete : Option ℚ := none
  deriving DecidableEq

structure PlaybackAggregateFacts where
  startedPlayCount : ℕ
  completedPlayCount : ℕ
  uniqueViewerCount : ℕ
  lastPlayedAt : Option Instant
  maximumProgressPercent : ℤ
  averageProgressPercent : ℚ
  totalPlaybackSeconds : ℚ
  sourceRowCount : ℕ
  measuredProgressRowCount : ℕ
  completionThresholdPercent : ℚ
  deriving DecidableEq

def defaultCompletionThresholdPercent : ℚ := 90

def sessionKey (r : PlaybackHistoryRow) : String :=
  r.userName.getD "∅" ++ "|" ++ r.startedAt.repr

/-- What observations of one session are compared by. -/
def observed (r : PlaybackHistoryRow) : ℚ := r.percentComplete.getD (-1)

def dedupe (rows : List PlaybackHistoryRow) : List PlaybackHistoryRow := best sessionKey observed rows

structure Tally where
  completed : ℕ := 0
  maxProgress : ℚ := 0
  totalSeconds : ℚ := 0
  progressSum : ℚ := 0
  measuredProgressRows : ℕ := 0
  lastPlayedAt : Option Instant := none
  viewers : Finset String := ∅

variable (rt : Runtime)

/-- The viewer as counted: in lower case, and nobody for an empty name. -/
def viewer (r : PlaybackHistoryRow) : Option String :=
  r.userName.bind fun name => if name = "" then none else some (rt.toLowerCase name)

def seconds (r : PlaybackHistoryRow) : ℚ :=
  match r.watchedSeconds with
  | some s => if 0 < s then s else 0
  | none => 0

def endedAt (r : PlaybackHistoryRow) : Instant := r.stoppedAt.getD r.startedAt

def later (last : Option Instant) (played : Instant) : Option Instant :=
  match last with
  | none => some played
  | some last => if last < played then some played else some last

/-- A play with no progress reading is never counted as completed. -/
def tally (threshold : ℚ) (t : Tally) (r : PlaybackHistoryRow) : Tally :=
  let t := match viewer rt r with
    | none => t
    | some name => { t with viewers := insert name t.viewers }
  let t := match r.percentComplete with
    | none => t
    | some pct =>
      { t with
        measuredProgressRows := t.measuredProgressRows + 1
        progressSum := t.progressSum + pct
        maxProgress := if t.maxProgress < pct then pct else t.maxProgress
        completed := if threshold ≤ pct then t.completed + 1 else t.completed }
  { t with
    totalSeconds := t.totalSeconds + seconds r
    lastPlayedAt := later t.lastPlayedAt (endedAt r) }

def aggregatePlays (rows : List PlaybackHistoryRow) (threshold : ℚ) : PlaybackAggregateFacts :=
  let deduped := dedupe rows
  let t := deduped.foldl (tally rt threshold) {}
  { startedPlayCount := deduped.length
    completedPlayCount := t.completed
    uniqueViewerCount := t.viewers.card
    lastPlayedAt := t.lastPlayedAt
    maximumProgressPercent := round t.maxProgress
    averageProgressPercent :=
      if t.measuredProgressRows = 0 then 0
      else (round (t.progressSum / t.measuredProgressRows * 100) : ℤ) / 100
    totalPlaybackSeconds := t.totalSeconds
    sourceRowCount := deduped.length
    measuredProgressRowCount := t.measuredProgressRows
    completionThresholdPercent := threshold }

def isNeverWatched (facts : PlaybackAggregateFacts) : Bool :=
  facts.completedPlayCount = 0 && facts.maximumProgressPercent < facts.completionThresholdPercent

theorem sessionKey_inj {r s : PlaybackHistoryRow} : sessionKey r = sessionKey s ↔
    r.userName.getD "∅" = s.userName.getD "∅" ∧ r.startedAt = s.startedAt := by
  have hbar : ∀ ms : Instant, '|' ∉ ms.repr.toList := Text.notMem_repr (by decide) (by decide)
  rw [sessionKey, sessionKey, Text.marked_inj_last (by rfl) (hbar _) (hbar _)]
  exact and_congr_right fun _ => ⟨fun h => Text.toList_repr_injective (congrArg String.toList h),
    fun h => by rw [h]⟩

/-! ### What the loop computes -/

/-- The progress readings of the rows that carry one. -/
def readings (rows : List PlaybackHistoryRow) : List ℚ := rows.filterMap (·.percentComplete)

def viewersOf (rows : List PlaybackHistoryRow) : Finset String := (rows.filterMap (viewer rt)).toFinset

def lastEnd (rows : List PlaybackHistoryRow) : Option Instant := (rows.map endedAt).foldl later none

/-- A tally after more rows, all of them at once. -/
def Tally.after (threshold : ℚ) (t : Tally) (rows : List PlaybackHistoryRow) : Tally where
  completed := t.completed + (readings rows).countP (threshold ≤ ·)
  maxProgress := (readings rows).foldl max t.maxProgress
  totalSeconds := t.totalSeconds + (rows.map seconds).sum
  progressSum := t.progressSum + (readings rows).sum
  measuredProgressRows := t.measuredProgressRows + (readings rows).length
  lastPlayedAt := (rows.map endedAt).foldl later t.lastPlayedAt
  viewers := t.viewers ∪ viewersOf rt rows

variable {rt} {threshold : ℚ} {rows : List PlaybackHistoryRow} {r s : PlaybackHistoryRow}

theorem readings_append (front rest : List PlaybackHistoryRow) :
    readings (front ++ rest) = readings front ++ readings rest := List.filterMap_append

theorem viewersOf_append (front rest : List PlaybackHistoryRow) :
    viewersOf rt (front ++ rest) = viewersOf rt front ∪ viewersOf rt rest := by
  rw [viewersOf, List.filterMap_append, List.toFinset_append, ← viewersOf, ← viewersOf]

theorem tally_eq (t : Tally) (r : PlaybackHistoryRow) :
    tally rt threshold t r = t.after rt threshold [r] := by
  have hmax : ∀ m pct : ℚ, (if m < pct then pct else m) = max m pct := by
    intro m pct
    rw [max_def_lt]
  cases hviewer : viewer rt r <;> cases hpct : r.percentComplete <;>
    simp [tally, Tally.after, readings, viewersOf, hviewer, hpct, hmax, List.countP_cons, apply_ite]

theorem after_append (t : Tally) (front rest : List PlaybackHistoryRow) :
    (t.after rt threshold front).after rt threshold rest = t.after rt threshold (front ++ rest) := by
  simp only [Tally.after, readings_append, viewersOf_append, List.countP_append, List.foldl_append,
    List.map_append, List.sum_append, List.length_append, add_assoc, Finset.union_assoc]

theorem foldl_tally (rows : List PlaybackHistoryRow) (t : Tally) :
    rows.foldl (tally rt threshold) t = t.after rt threshold rows := by
  induction rows generalizing t with
  | nil => simp [Tally.after, readings, viewersOf]
  | cons r rows ih => rw [List.foldl_cons, tally_eq, ih, after_append, List.singleton_append]

theorem mem_readings {q : ℚ} : q ∈ readings rows ↔ ∃ r ∈ rows, r.percentComplete = some q :=
  List.mem_filterMap

/-! ### Never watched -/

/-- A play that counts as completed. -/
def Reaches (threshold : ℚ) (r : PlaybackHistoryRow) : Prop :=
  ∃ pct, r.percentComplete = some pct ∧ threshold ≤ pct

theorem round_foldl_max_lt (readings : List ℚ) (m : ℚ) :
    (round (readings.foldl max m) : ℚ) < threshold ↔
      (round m : ℚ) < threshold ∧ ∀ q ∈ readings, (round q : ℚ) < threshold := by
  induction readings generalizing m with
  | nil => simp
  | cons q readings ih =>
    have hmax : round (max m q) = max (round m) (round q) := round_mono.map_max
    rw [List.foldl_cons, ih, hmax, Int.cast_max, max_lt_iff, List.forall_mem_cons, and_assoc]

/-- Of a session that was measured above nothing, a reading at least as high is kept. -/
theorem exists_kept {q : ℚ} (hr : r ∈ rows) (hq : r.percentComplete = some q) :
    (∃ p ∈ readings (dedupe rows), q ≤ p) ∨ q ≤ -1 := by
  obtain ⟨s, hs, hkey⟩ : ∃ s ∈ dedupe rows, sessionKey s = sessionKey r := exists_best hr
  have hle : q ≤ observed s := by
    have hle := (isBest_of_mem hs).2 r hr hkey.symm
    rwa [observed, hq, Option.getD_some] at hle
  cases hpct : s.percentComplete with
  | none =>
    rw [observed, hpct, Option.getD_none] at hle
    exact .inr hle
  | some p =>
    rw [observed, hpct, Option.getD_some] at hle
    exact .inl ⟨p, mem_readings.2 ⟨s, hs, hpct⟩, hle⟩

theorem isNeverWatched_iff : isNeverWatched (aggregatePlays rt rows threshold) = true ↔
    0 < threshold ∧ ∀ r ∈ rows, ∀ q, r.percentComplete = some q →
      q < threshold ∧ (round q : ℚ) < threshold := by
  have hkept : ∀ {q}, q ∈ readings (dedupe rows) → ∃ r ∈ rows, r.percentComplete = some q := by
    intro q hq
    obtain ⟨r, hr, hpct⟩ := mem_readings.1 hq
    exact ⟨r, (isBest_of_mem hr).1, hpct⟩
  simp only [isNeverWatched, aggregatePlays, foldl_tally, Tally.after, Bool.and_eq_true,
    decide_eq_true_eq, zero_add, List.countP_eq_zero, round_foldl_max_lt, round_zero, Int.cast_zero,
    not_le]
  constructor
  · rintro ⟨hcompleted, hpos, hrounded⟩
    refine ⟨hpos, fun r hr q hq => ?_⟩
    rcases exists_kept hr hq with ⟨p, hp, hqp⟩ | hq
    · have hround : (round q : ℚ) ≤ round p := Int.cast_le.2 (round_mono hqp)
      exact ⟨hqp.trans_lt (hcompleted p hp), hround.trans_lt (hrounded p hp)⟩
    · have hround : (round q : ℚ) ≤ 0 := by
        have hle : round q ≤ round (0 : ℚ) := round_mono (by linarith)
        rw [round_zero] at hle
        exact_mod_cast hle
      exact ⟨by linarith, hround.trans_lt hpos⟩
  · rintro ⟨hpos, hall⟩
    refine ⟨fun q hq => ?_, hpos, fun q hq => ?_⟩
    · obtain ⟨r, hr, hpct⟩ := hkept hq
      exact (hall r hr q hpct).1
    · obtain ⟨r, hr, hpct⟩ := hkept hq
      exact (hall r hr q hpct).2

/-- Never watched means that no play reached the threshold, unless one comes up to it only by
rounding, or the threshold is one that no play at all reaches. -/
theorem neverWatched_exact (rt : Runtime) (rows : List PlaybackHistoryRow) (threshold : ℚ) :
    (isNeverWatched (aggregatePlays rt rows threshold) = true ↔ ¬ ∃ r ∈ rows, Reaches threshold r) ↔
      (∃ r ∈ rows, Reaches threshold r) ∨
        0 < threshold ∧ ∀ r ∈ rows, ∀ q, r.percentComplete = some q → (round q : ℚ) < threshold := by
  rw [isNeverWatched_iff]
  by_cases hreached : ∃ r ∈ rows, Reaches threshold r
  · obtain ⟨r, hr, q, hq, hle⟩ := hreached
    have hnot : ¬ (0 < threshold ∧ ∀ r ∈ rows, ∀ q, r.percentComplete = some q →
        q < threshold ∧ (round q : ℚ) < threshold) :=
      fun h => not_lt.2 hle (h.2 r hr q hq).1
    exact ⟨fun _ => .inl ⟨r, hr, q, hq, hle⟩,
      fun _ => ⟨fun h => absurd h hnot, fun h => absurd ⟨r, hr, q, hq, hle⟩ h⟩⟩
  · have hbelow : ∀ r ∈ rows, ∀ q, r.percentComplete = some q → q < threshold := by
      intro r hr q hq
      by_contra hle
      exact hreached ⟨r, hr, q, hq, not_lt.1 hle⟩
    constructor
    · intro h
      obtain ⟨hpos, hall⟩ := h.2 hreached
      exact .inr ⟨hpos, fun r hr q hq => (hall r hr q hq).2⟩
    · rintro (h | ⟨hpos, hround⟩)
      · exact absurd h hreached
      · exact ⟨fun _ => hreached,
          fun _ => ⟨hpos, fun r hr q hq => ⟨hbelow r hr q hq, hround r hr q hq⟩⟩⟩

/-- One play of 89.6 percent. -/
def nearFinish : List PlaybackHistoryRow :=
  [{ userName := some "alice", startedAt := 0, percentComplete := some (896 / 10) }]

/-- It rounds up to the default threshold, and the item counts as watched though no play reached it. -/
theorem nearFinish_watched :
    ¬ (isNeverWatched (aggregatePlays .ascii nearFinish defaultCompletionThresholdPercent) = true ↔
      ¬ ∃ r ∈ nearFinish, Reaches defaultCompletionThresholdPercent r) := by
  have hround : round (896 / 10 : ℚ) = 90 := by
    rw [round_eq, Int.floor_eq_iff]
    norm_num
  rw [isNeverWatched_iff]
  simp [nearFinish, Reaches, defaultCompletionThresholdPercent, hround]
  norm_num

end UltraTorrent.Cleanup.PlaybackAggregate
