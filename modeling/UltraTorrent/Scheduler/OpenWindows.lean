import Mathlib.Tactic.Linarith
import Mathlib.Tactic.Ring
import UltraTorrent.Scheduler.Schedule

/-! The windows of a schedule on the weekly cycle, and the limits a schedule leaves in force. A
window opens on each of its start days and stays open for its length, past midnight and past the
end of the week. -/
namespace UltraTorrent.Scheduler.Policy.LimitField

open Library.EcmaScript Schedule

def setting : LimitField → ScheduleWindow → Setting ℤ
  | maxConcurrentDownloads => (·.maxConcurrentDownloads)
  | maxConcurrentSeeds => (·.maxConcurrentSeeds)
  | maxTotalActive => (·.maxTotalActive)
  | maxDownloadRateKbps => (·.maxDownloadRateKbps)
  | maxUploadRateKbps => (·.maxUploadRateKbps)

end UltraTorrent.Scheduler.Policy.LimitField

namespace UltraTorrent.Scheduler.OpenWindows

open Library.EcmaScript
open Policy Schedule

/-! ### The weekly cycle -/

def minuteOfWeek (day : ℤ) (minutes : ℚ) : ℚ := 1440 * day + minutes

def length (w : ScheduleWindow) : ℤ := (w.endMinute - w.startMinute) % 1440

/-- The position lies in the half-open interval that begins at the start minute of one of the
selected days, on a cycle of 10080 minutes. -/
def OpenAt (w : ScheduleWindow) (pos : LocalPosition) : Prop :=
  ∃ day ∈ w.daysOfWeek, ∃ weeks : ℤ,
    let since := minuteOfWeek pos.weekday pos.minutes - minuteOfWeek day w.startMinute + 10080 * weeks
    0 ≤ since ∧ since < length w

/-- What a clock on the wall shows is a minute of the day. -/
def WallClock (rt : Runtime) (now : Instant) : Prop :=
  ∀ timeZone pos, localPosition rt now timeZone = some pos → 0 ≤ pos.minutes ∧ pos.minutes < 1440

variable {rt : Runtime} {now : Instant} {w : ScheduleWindow} {pos : LocalPosition}

theorem weekday_bounds {timeZone : String} (h : localPosition rt now timeZone = some pos) :
    0 ≤ pos.weekday ∧ pos.weekday ≤ 6 := by
  have hdays : ∀ day ∈ weekdays, 0 ≤ day.2 ∧ day.2 ≤ 6 := by decide
  unfold localPosition at h
  obtain ⟨parts, -, h⟩ := Option.bind_eq_some_iff.1 h
  obtain ⟨weekday, hweekday, h⟩ := Option.bind_eq_some_iff.1 h
  obtain ⟨before, after, hsplit, -⟩ := List.lookup_eq_some_iff.1 hweekday
  have hbounds := hdays (_, weekday) (hsplit ▸ List.mem_append_right _ List.mem_cons_self)
  split at h
  · cases h
    exact hbounds
  · cases h

/-- What a valid window is made of. -/
structure Valid (w : ScheduleWindow) : Prop where
  days : ∀ day ∈ w.daysOfWeek, 0 ≤ day ∧ day ≤ 6
  start : 0 ≤ w.startMinute ∧ w.startMinute ≤ 1439
  stop : 0 ≤ w.endMinute ∧ w.endMinute ≤ 1439
  ne : w.startMinute ≠ w.endMinute

theorem valid_of_windowIsValid (h : windowIsValid w = true) : Valid w := by
  simp only [windowIsValid, Bool.and_eq_true, List.all_eq_true, decide_eq_true_eq] at h
  obtain ⟨⟨⟨-, hdays⟩, hminutes⟩, hne⟩ := h
  exact ⟨hdays, hminutes _ (by simp), hminutes _ (by simp), hne⟩

theorem length_of_lt (h : Valid w) (hlt : w.startMinute < w.endMinute) :
    length w = w.endMinute - w.startMinute := by
  obtain ⟨-, hend⟩ := h.stop
  obtain ⟨hstart, -⟩ := h.start
  exact Int.emod_eq_of_lt (by omega) (by omega)

/-- Past midnight a day is added. -/
theorem length_of_not_lt (h : Valid w) (hlt : ¬ w.startMinute < w.endMinute) :
    length w = w.endMinute - w.startMinute + 1440 := by
  have hne := h.ne
  obtain ⟨hend, -⟩ := h.stop
  obtain ⟨-, hstart⟩ := h.start
  rw [length, ← Int.add_emod_right]
  exact Int.emod_eq_of_lt (by omega) (by omega)

theorem since_eq (day weeks : ℤ) :
    minuteOfWeek pos.weekday pos.minutes - minuteOfWeek day w.startMinute + 10080 * weeks =
      1440 * ((pos.weekday - day + 7 * weeks : ℤ) : ℚ) + (pos.minutes - w.startMinute) := by
  unfold minuteOfWeek
  push_cast
  ring

theorem openAt_iff (h : Valid w) (hpos : 0 ≤ pos.minutes ∧ pos.minutes < 1440)
    (hday : 0 ≤ pos.weekday ∧ pos.weekday ≤ 6) : OpenAt w pos ↔
      (pos.weekday ∈ w.daysOfWeek ∧ (w.startMinute : ℚ) ≤ pos.minutes ∧
        pos.minutes - w.startMinute < length w) ∨
      ((pos.weekday + 6) % 7 ∈ w.daysOfWeek ∧ pos.minutes - w.startMinute + 1440 < length w) := by
  have hstart : (0 : ℚ) ≤ w.startMinute ∧ (w.startMinute : ℚ) ≤ 1439 :=
    ⟨by exact_mod_cast h.start.1, by exact_mod_cast h.start.2⟩
  constructor
  · rintro ⟨day, hmem, weeks, hsince, hlt⟩
    rw [since_eq] at hsince hlt
    have hbounds := h.days day hmem
    have hlength : (length w : ℚ) < 1440 := by
      exact_mod_cast Int.emod_lt_of_pos (w.endMinute - w.startMinute) (by decide : (0 : ℤ) < 1440)
    have hlow : -1 < pos.weekday - day + 7 * weeks := by
      have : (-1 : ℚ) < ((pos.weekday - day + 7 * weeks : ℤ) : ℚ) := by linarith
      exact_mod_cast this
    have hhigh : pos.weekday - day + 7 * weeks < 2 := by
      have : ((pos.weekday - day + 7 * weeks : ℤ) : ℚ) < 2 := by linarith
      exact_mod_cast this
    obtain hsame | hnext : pos.weekday - day + 7 * weeks = 0 ∨ pos.weekday - day + 7 * weeks = 1 := by
      omega
    · rw [hsame] at hsince hlt
      have heq : pos.weekday = day := by omega
      rw [heq]
      push_cast at hsince hlt
      exact .inl ⟨hmem, by linarith, by linarith⟩
    · rw [hnext] at hlt
      have heq : (pos.weekday + 6) % 7 = day := by omega
      rw [heq]
      push_cast at hlt
      exact .inr ⟨hmem, by linarith⟩
  · rintro (⟨hmem, hle, hlt⟩ | ⟨hmem, hlt⟩)
    · refine ⟨pos.weekday, hmem, 0, ?_, ?_⟩ <;> rw [since_eq] <;> push_cast <;> linarith
    · have hdays : pos.weekday - (pos.weekday + 6) % 7 + 7 * (if pos.weekday = 0 then 1 else 0) = 1 := by
        split_ifs <;> omega
      refine ⟨(pos.weekday + 6) % 7, hmem, if pos.weekday = 0 then 1 else 0, ?_, ?_⟩ <;>
        rw [since_eq, hdays] <;> push_cast <;> linarith

theorem windowCovers_iff (henabled : w.enabled = true) (hvalid : windowIsValid w = true)
    (hpos : localPosition rt now w.timeZone = some pos)
    (hclock : 0 ≤ pos.minutes ∧ pos.minutes < 1440) : windowCovers rt w now = true ↔ OpenAt w pos := by
  have hv := valid_of_windowIsValid hvalid
  rw [openAt_iff hv hclock (weekday_bounds hpos)]
  unfold windowCovers
  simp only [henabled, hvalid, hpos, Bool.not_true, Bool.or_self, Bool.false_eq_true, if_false]
  have hend : (0 : ℚ) ≤ w.endMinute ∧ (w.endMinute : ℚ) ≤ 1439 :=
    ⟨by exact_mod_cast hv.stop.1, by exact_mod_cast hv.stop.2⟩
  by_cases hlt : w.startMinute < w.endMinute
  · rw [if_pos hlt, length_of_lt hv hlt]
    simp only [Bool.and_eq_true, List.contains_iff_mem, decide_eq_true_eq]
    push_cast
    constructor
    · rintro ⟨⟨hmem, hle⟩, hbefore⟩
      exact .inl ⟨hmem, hle, by linarith⟩
    · rintro (⟨hmem, hle, hbefore⟩ | ⟨-, hbefore⟩)
      · exact ⟨⟨hmem, hle⟩, by linarith⟩
      · linarith
  · rw [if_neg hlt, length_of_not_lt hv hlt]
    simp only [Bool.or_eq_true, Bool.and_eq_true, List.contains_iff_mem, decide_eq_true_eq]
    push_cast
    constructor
    · rintro (⟨hmem, hle⟩ | ⟨hmem, hbefore⟩)
      · exact .inl ⟨hmem, hle, by linarith⟩
      · exact .inr ⟨hmem, by linarith⟩
    · rintro (⟨hmem, hle, -⟩ | ⟨hmem, hbefore⟩)
      · exact .inl ⟨hmem, hle⟩
      · exact .inr ⟨hmem, by linarith⟩

/-! ### Limits -/

/-- The window is enabled, valid and open, and says what the limit is. -/
structure Sets (rt : Runtime) (now : Instant) (field : LimitField) (w : ScheduleWindow) : Prop where
  enabled : w.enabled = true
  valid : windowIsValid w = true
  open_ : ∃ pos, localPosition rt now w.timeZone = some pos ∧ OpenAt w pos
  supplied : (field.setting w).isSupplied = true

/-- `localeCompare` is a total preorder. -/
structure Collates (rt : Runtime) : Prop where
  total : ∀ a b, rt.localeCompare a b ≤ 0 ∨ rt.localeCompare b a ≤ 0
  trans : ∀ a b c, rt.localeCompare a b ≤ 0 → rt.localeCompare b c ≤ 0 → rt.localeCompare a c ≤ 0

/-- In the order of falling priority, and then of ids, the second window is not the earlier one. -/
def Precedes (rt : Runtime) (v w : ScheduleWindow) : Prop :=
  w.priority < v.priority ∨ v.priority = w.priority ∧ rt.localeCompare v.id w.id ≤ 0

variable {windows : List ScheduleWindow} {policy : EffectivePolicy} {field : LimitField}
  {v : ScheduleWindow}

theorem compareWindows_iff : compareWindows rt v w ≤ 0 ↔ Precedes rt v w := by
  unfold compareWindows Precedes
  split_ifs with h
  · constructor
    · exact fun hle => .inl (by omega)
    · rintro (hlt | ⟨heq, -⟩) <;> omega
  · constructor
    · exact fun hle => .inr ⟨by omega, hle⟩
    · rintro (hlt | ⟨-, hle⟩)
      · omega
      · exact hle

theorem Collates.precedes_total (h : Collates rt) (v w : ScheduleWindow) :
    Precedes rt v w ∨ Precedes rt w v := by
  rcases lt_trichotomy v.priority w.priority with hlt | heq | hlt
  · exact .inr (.inl hlt)
  · exact (h.total v.id w.id).imp (fun hle => .inr ⟨heq, hle⟩) fun hle => .inr ⟨heq.symm, hle⟩
  · exact .inl (.inl hlt)

theorem Collates.precedes_trans (h : Collates rt) {u v w : ScheduleWindow} (huv : Precedes rt u v)
    (hvw : Precedes rt v w) : Precedes rt u w := by
  rcases huv with huv | ⟨hu, huv⟩
  · rcases hvw with hvw | ⟨hv, -⟩
    · exact .inl (hvw.trans huv)
    · exact .inl (hv ▸ huv)
  · rcases hvw with hvw | ⟨hv, hvw⟩
    · exact .inl (hu ▸ hvw)
    · exact .inr ⟨hu.trans hv, h.trans _ _ _ huv hvw⟩

theorem activeWindows_pairwise (h : Collates rt) :
    (activeWindows rt windows now).Pairwise (Precedes rt) := by
  have htotal : Std.Total fun a b : ScheduleWindow => compareWindows rt a b ≤ 0 :=
    ⟨fun a b => (h.precedes_total a b).imp compareWindows_iff.2 compareWindows_iff.2⟩
  have htrans : IsTrans ScheduleWindow fun a b => compareWindows rt a b ≤ 0 :=
    ⟨fun _ _ _ hab hbc =>
      compareWindows_iff.2 (h.precedes_trans (compareWindows_iff.1 hab) (compareWindows_iff.1 hbc))⟩
  exact (List.pairwise_insertionSort _ _).imp compareWindows_iff.1

theorem covers_spec (hclock : WallClock rt now) : windowCovers rt w now = true ↔
    w.enabled = true ∧ windowIsValid w = true ∧
      ∃ pos, localPosition rt now w.timeZone = some pos ∧ OpenAt w pos := by
  by_cases hready : w.enabled = true ∧ windowIsValid w = true
  · obtain ⟨henabled, hvalid⟩ := hready
    cases hpos : localPosition rt now w.timeZone with
    | none => simp [windowCovers, hpos]
    | some pos => simp [windowCovers_iff henabled hvalid hpos (hclock _ _ hpos), henabled, hvalid]
  · have hclosed : windowCovers rt w now = false := by
      unfold windowCovers
      exact if_pos (by simpa [or_iff_not_imp_left] using hready)
    rw [hclosed]
    exact ⟨nofun, fun h => absurd ⟨h.1, h.2.1⟩ hready⟩

theorem mem_activeWindows (hclock : WallClock rt now) : w ∈ activeWindows rt windows now ∧
    (field.setting w).isSupplied = true ↔ w ∈ windows ∧ Sets rt now field w := by
  rw [activeWindows, List.mem_insertionSort, List.mem_filter, covers_spec hclock]
  exact ⟨fun ⟨⟨hw, henabled, hvalid, hopen⟩, hsupplied⟩ => ⟨hw, henabled, hvalid, hopen, hsupplied⟩,
    fun ⟨hw, h⟩ => ⟨⟨hw, h.enabled, h.valid, h.open_⟩, h.supplied⟩⟩

/-- What one window does to one limit. -/
theorem limit_applyWindow (out : ScheduledPolicy) :
    field.limit (applyWindow out w).toEffectivePolicy =
      taken (field.setting w) (field.limit out.toEffectivePolicy) := by
  cases field <;> rfl

theorem limit_foldl (active : List ScheduleWindow) (out : ScheduledPolicy) :
    field.limit (active.reverse.foldl applyWindow out).toEffectivePolicy =
      match active.find? fun w => (field.setting w).isSupplied with
      | some w => (field.setting w).orNull
      | none => field.limit out.toEffectivePolicy := by
  induction active with
  | nil => rfl
  | cons w rest ih =>
    rw [List.reverse_cons, List.foldl_append, List.foldl_cons, List.foldl_nil, limit_applyWindow,
      List.find?_cons, taken, ih]
    cases (field.setting w).isSupplied <;> rfl

/-- A schedule gives each limit the value of the first window that sets it, and leaves it as the
policy has it when there is none. -/
theorem applySchedule_limit (hcollates : Collates rt) (hclock : WallClock rt now)
    (policy : EffectivePolicy) (windows : List ScheduleWindow) (field : LimitField) :
    let scheduled := field.limit (applySchedule rt policy windows now).toEffectivePolicy
    (∃ w ∈ windows, Sets rt now field w ∧ (∀ v ∈ windows, Sets rt now field v → Precedes rt w v) ∧
        scheduled = (field.setting w).orNull) ∨
      ((∀ w ∈ windows, ¬ Sets rt now field w) ∧ scheduled = field.limit policy) := by
  intro scheduled
  have hscheduled : scheduled = _ := limit_foldl (activeWindows rt windows now) _
  cases hfind : (activeWindows rt windows now).find? fun w => (field.setting w).isSupplied with
  | none =>
    rw [hfind] at hscheduled
    refine .inr ⟨fun w hw hsets => ?_, hscheduled.trans (by cases field <;> rfl)⟩
    obtain ⟨hactive, hsupplied⟩ := (mem_activeWindows hclock).2 ⟨hw, hsets⟩
    exact absurd hsupplied (List.find?_eq_none.1 hfind w hactive)
  | some w =>
    rw [hfind] at hscheduled
    obtain ⟨hsupplied, before, after, hsplit, hbefore⟩ := List.find?_eq_some_iff_append.1 hfind
    have hactive : w ∈ activeWindows rt windows now := List.mem_of_find?_eq_some hfind
    obtain ⟨hw, hsets⟩ := (mem_activeWindows hclock).1 ⟨hactive, hsupplied⟩
    refine .inl ⟨w, hw, hsets, fun v hv hvsets => ?_, hscheduled⟩
    obtain ⟨hvactive, hvsupplied⟩ := (mem_activeWindows hclock).2 ⟨hv, hvsets⟩
    have hpairwise : (activeWindows rt windows now).Pairwise (Precedes rt) :=
      activeWindows_pairwise hcollates
    rw [hsplit, List.pairwise_append] at hpairwise
    rw [hsplit, List.mem_append, List.mem_cons] at hvactive
    rcases hvactive with hv | rfl | hv
    · exact absurd hvsupplied (by simpa using hbefore v hv)
    · exact (hcollates.precedes_total v v).elim id id
    · exact (List.pairwise_cons.1 hpairwise.2.1).1 v hv

/-- Fridays from ten in the evening until two. -/
def overnight : ScheduleWindow where
  id := "overnight"
  name := "Overnight"
  enabled := true
  daysOfWeek := [5]
  startMinute := 1320
  endMinute := 120
  timeZone := "UTC"
  priority := 0
  maxTotalActive := .value 3

/-- A host that reads the digits of a number one by one. -/
def digits : Runtime :=
  { Runtime.ascii with
    numberOfString s := .fin (s.toList.foldl (fun n c => 10 * n + (c.toNat - 48)) 0) }

/-- A Saturday, at one in the morning. -/
def saturday : Instant := (2 * 1440 + 60) * 60000

theorem localPosition_saturday : localPosition digits saturday "UTC" = some ⟨60, 6⟩ := by
  decide +kernel

theorem wallClock_saturday : WallClock digits saturday := by
  intro timeZone pos h
  by_cases hzone : timeZone = "UTC"
  · rw [hzone, localPosition_saturday] at h
    cases h
    norm_num
  · simp [localPosition, digits, Runtime.ascii, hzone] at h

theorem collates_digits : Collates digits where
  total a b := (String.le_total a b).imp Runtime.ascii_localeCompare.2 Runtime.ascii_localeCompare.2
  trans _ _ _ hab hbc := Runtime.ascii_localeCompare.2
    (String.le_trans (Runtime.ascii_localeCompare.1 hab) (Runtime.ascii_localeCompare.1 hbc))

theorem overnight_openAt : OpenAt overnight ⟨60, 6⟩ := by
  refine ⟨5, by decide, 0, ?_, ?_⟩ <;> norm_num [minuteOfWeek, length, overnight]

/-- The window of Friday is open early on Saturday. -/
theorem applySchedule_overnight :
    (applySchedule digits {} [overnight] saturday).maxTotalActive = some 3 := by
  obtain ⟨w, hw, -, -, hlimit⟩ | ⟨hnone, -⟩ :=
    applySchedule_limit collates_digits wallClock_saturday {} [overnight] .maxTotalActive
  · rw [List.mem_singleton.1 hw] at hlimit
    exact hlimit
  · exact absurd ⟨rfl, by decide, ⟨⟨60, 6⟩, localPosition_saturday, overnight_openAt⟩, rfl⟩
      (hnone overnight List.mem_cons_self)

end UltraTorrent.Scheduler.OpenWindows
