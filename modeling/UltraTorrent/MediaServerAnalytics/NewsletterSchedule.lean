import Mathlib.Algebra.Order.Floor.Ring
import Mathlib.Data.Rat.Floor
import Mathlib.Order.Bounds.Image

/-! When a newsletter goes out next. A local day is found by going 24 hours on from an instant, although
days on which the clock changes are longer or shorter. -/
namespace UltraTorrent.MediaServerAnalytics.NewsletterSchedule

/-! ### Clocks -/

/-- What a clock is ahead of universal time at an instant; both in milliseconds. -/
abbrev Zone := ℤ → ℤ

structure SendSchedule where
  frequency : String
  /-- From Sunday on. -/
  sendWeekday : Option ℚ := none
  sendHour : Option ℚ := none
  sendMinute : Option ℚ := none
  timezone : Option String := none

def dayMs : ℤ := 24 * 3600 * 1000

section Clock

variable (zone : Zone)

/-- What the clock reads, in milliseconds as if it were universal time. -/
def wallClock (instant : ℤ) : ℤ := instant + zone instant

/-- The date on the clock, as the number of days since the first of January 1970. -/
def dateIn (instant : ℤ) : ℤ := wallClock zone instant / dayMs

/-- The parts of a reading go down to the second. -/
def offsetAt (instant : ℤ) : ℤ := wallClock zone instant / 1000 * 1000 - instant

def timeOn (date hour minute : ℤ) : ℤ := date * dayMs + hour * 3600000 + minute * 60000

def fromZonedTime (date hour minute : ℤ) : ℤ :=
  let guess := timeOn date hour minute
  let first := guess - offsetAt zone guess
  guess - offsetAt zone first

/-- Sunday is 0. -/
def weekdayOf (date : ℤ) : ℤ := (date + 4) % 7

def weekdayIn (instant : ℤ) : ℤ := weekdayOf (dateIn zone instant)

/-! ### Dates -/

/-- Year, month and day of a date. -/
def civil (date : ℤ) : ℤ × ℤ × ℤ :=
  let days := date + 719468
  let era := days / 146097
  let ofEra := days % 146097
  let year := (ofEra - ofEra / 1460 + ofEra / 36524 - ofEra / 146096) / 365
  let ofYear := ofEra - (365 * year + year / 4 - year / 100)
  let month := (5 * ofYear + 2) / 153
  (year + era * 400 + (if month < 10 then 0 else 1), if month < 10 then month + 3 else month - 9,
    ofYear - (153 * month + 2) / 5 + 1)

/-- `Date.UTC`, as a date. -/
def dateOf (year month day : ℤ) : ℤ :=
  let year := if month ≤ 2 then year - 1 else year
  let ofYear := (153 * (if month ≤ 2 then month + 9 else month - 3) + 2) / 5 + day - 1
  year / 400 * 146097 + (year % 400 * 365 + year % 400 / 4 - year % 400 / 100 + ofYear) - 719468

example : civil 20520 = (2026, 3, 8) ∧ dateOf 2026 3 8 = 20520 ∧ weekdayOf 20520 = 0 := by decide

/-! ### The next send -/

def nextDaily (since hour minute : ℤ) : ℤ :=
  let today := fromZonedTime zone (dateIn zone since) hour minute
  if since < today then today
  else fromZonedTime zone (dateIn zone (since + dayMs)) hour minute

/-- One turn of the loop: the slot on a day of this weekday, if it is still ahead. -/
def probed (since weekday hour minute : ℤ) (add : ℕ) : Option ℤ :=
  let probe := since + add * dayMs
  if weekdayIn zone probe ≠ weekday then none
  else
    let candidate := fromZonedTime zone (dateIn zone probe) hour minute
    if since < candidate then some candidate else none

def nextWeekly (since weekday hour minute : ℤ) : ℤ :=
  ((List.range 8).findSome? (probed zone since weekday hour minute)).getD
    (fromZonedTime zone (dateIn zone (since + 7 * dayMs)) hour minute)

def nextMonthly (since hour minute : ℤ) : ℤ :=
  let (year, month, day) := civil (dateIn zone since)
  let thisMonth := fromZonedTime zone (dateIn zone since) hour minute
  if since < thisMonth then thisMonth
  else
    let y := if month = 12 then year + 1 else year
    let m := if month = 12 then 1 else month + 1
    let lastDay := (civil (dateOf (if m = 12 then y + 1 else y) (if m = 12 then 1 else m + 1) 1 - 1)).2.2
    fromZonedTime zone (dateOf y m (min day lastDay)) hour minute

end Clock

def clamp (n : ℚ) (lo hi : ℤ) : ℤ := min hi (max lo ⌊n + 1 / 2⌋)

section Schedule

variable (intl : String → Option Zone) (schedule : SendSchedule)

/-- A zone that is not known must not stop a newsletter. -/
def safeZone : String :=
  match schedule.timezone with
  | none | some "" => "UTC"
  | some tz => if (intl tz).isSome then tz else "UTC"

def zoneOf : Zone := (intl (safeZone intl schedule)).getD fun _ => 0

def hourOf : ℤ := clamp (schedule.sendHour.getD 9) 0 23

def minuteOf : ℤ := clamp (schedule.sendMinute.getD 0) 0 59

def nextRunAt (since : ℤ) : Option ℤ :=
  let zone := zoneOf intl schedule
  let hour := hourOf schedule
  let minute := minuteOf schedule
  match schedule.frequency with
  | "daily" => some (nextDaily zone since hour minute)
  | "weekly" =>
    match schedule.sendWeekday with
    | none => some (since + 7 * dayMs)
    | some weekday => some (nextWeekly zone since (clamp weekday 0 6) hour minute)
  | "monthly" =>
    match schedule.sendWeekday with
    | none => some (since + 30 * dayMs)
    | some _ => some (nextMonthly zone since hour minute)
  | _ => none

end Schedule

variable {intl : String → Option Zone} {schedule : SendSchedule} {zone : Zone} {since date days t : ℤ}

/-! ### Slots -/

/-- The newsletter goes out on this date. -/
def SendsOn (schedule : SendSchedule) (date : ℤ) : Prop :=
  schedule.frequency = "daily" ∨ schedule.frequency = "weekly" ∧
    ∃ weekday, schedule.sendWeekday = some weekday ∧ weekdayOf date = clamp weekday 0 6

/-- Every day, or on a weekday that has been chosen. -/
def Timed (schedule : SendSchedule) : Prop :=
  schedule.frequency = "daily" ∨ schedule.frequency = "weekly" ∧ ∃ weekday, schedule.sendWeekday = some weekday

def sendTime (schedule : SendSchedule) (date : ℤ) : ℤ := timeOn date (hourOf schedule) (minuteOf schedule)

/-- An instant at which the clock shows the time of the newsletter on a date it goes out on. -/
def IsSlot (zone : Zone) (schedule : SendSchedule) (date slot : ℤ) : Prop :=
  SendsOn schedule date ∧ wallClock zone slot = sendTime schedule date

/-- The next run is the first slot after the instant. -/
def SkipsNone (intl : String → Option Zone) (schedule : SendSchedule) (since : ℤ) : Prop :=
  ∃ run, nextRunAt intl schedule since = some run ∧
    IsLeast {t | since < t ∧ ∃ date, IsSlot (zoneOf intl schedule) schedule date t} run

/-! ### What the search settles on -/

section Search

variable (zone since)

def timeOfDay : ℤ := wallClock zone since % dayMs

/-- The time of day, as the clock is changed in as many times 24 hours. -/
def timeAfter (hops : ℤ) : ℤ := timeOfDay zone since + (zone (since + hops * dayMs) - zone since)

/-- The date so many times 24 hours later. A change of the clock in between can take the time of day past midnight. -/
def dateAfter (hops : ℤ) : ℤ := dateIn zone since + hops + timeAfter zone since hops / dayMs

def isAhead (hour minute date : ℤ) : Bool := since < fromZonedTime zone date hour minute

def dailyDate (hour minute : ℤ) : ℤ :=
  if isAhead zone since hour minute (dateIn zone since) then dateIn zone since else dateAfter zone since 1

def weeklyDate (weekday hour minute : ℤ) : ℤ :=
  (((List.range 8).map fun add : ℕ => dateAfter zone since add).find? fun date =>
    weekdayOf date = weekday && isAhead zone since hour minute date).getD (dateAfter zone since 7)

end Search

def settledDate (zone : Zone) (schedule : SendSchedule) (since : ℤ) : ℤ :=
  if schedule.frequency = "daily" then dailyDate zone since (hourOf schedule) (minuteOf schedule)
  else weeklyDate zone since (clamp (schedule.sendWeekday.getD 0) 0 6) (hourOf schedule) (minuteOf schedule)

def sendAt (zone : Zone) (schedule : SendSchedule) (date : ℤ) : ℤ :=
  fromZonedTime zone date (hourOf schedule) (minuteOf schedule)

/-- The clock is behind the send time of a date up to the solved one, shows it there, and is past it ever after. -/
structure Orderly (zone : Zone) (schedule : SendSchedule) : Prop where
  behind : ∀ date t, wallClock zone t < sendTime schedule date ↔ t < sendAt zone schedule date
  reads : ∀ date t, wallClock zone t = sendTime schedule date ↔ t = sendAt zone schedule date

/-- Days from the date on the clock to the next one on the weekday whose send time it has not reached. -/
def daysToWeekday (zone : Zone) (schedule : SendSchedule) (since weekday : ℤ) : ℤ :=
  let days := (weekday - weekdayIn zone since) % 7
  if days = 0 ∧ sendTime schedule 0 ≤ timeOfDay zone since then 7 else days

/-- As many times 24 hours on, the date is so many days later: the change of the clock takes the time of day past as
many midnights as the two are apart. -/
def LandsOn (zone : Zone) (since hops days : ℤ) : Prop :=
  (days - hops) * dayMs ≤ timeAfter zone since hops ∧ timeAfter zone since hops < (days - hops + 1) * dayMs

instance (zone : Zone) (since hops days : ℤ) : Decidable (LandsOn zone since hops days) :=
  inferInstanceAs (Decidable (_ ∧ _))

/-- The hops of 24 hours come to the next date to send on. Daily, the send time is still to come today, or the clock
is a day on after 24 hours. Weekly, one of eight hops comes to the next such weekday, and none before it to one that
is weeks later. -/
def KeepsDay (zone : Zone) (schedule : SendSchedule) (since : ℤ) : Prop :=
  (schedule.frequency = "daily" → timeOfDay zone since < sendTime schedule 0 ∨ LandsOn zone since 1 1) ∧
  ∀ weekday, schedule.frequency = "weekly" → schedule.sendWeekday = some weekday →
    let days := daysToWeekday zone schedule since (clamp weekday 0 6)
    ∃ hops : ℕ, hops < 8 ∧ LandsOn zone since hops days ∧
      ∀ earlier < hops, ∀ weeks : ℕ, 0 < weeks → ¬ LandsOn zone since earlier (days + 7 * weeks)

/-- The clock is ahead by whole seconds; it is behind each send time, shows it at one instant and is past it from then
on, and the offset in force there is the one that the offset in force at the guess leads to. -/
structure Steady (zone : Zone) (schedule : SendSchedule) : Prop where
  whole : ∀ t, zone t % 1000 = 0
  crossed : ∀ date, ∃ slot, (∀ t < slot, wallClock zone t < sendTime schedule date) ∧
    wallClock zone slot = sendTime schedule date ∧ (∀ t > slot, sendTime schedule date < wallClock zone t) ∧
    zone (sendTime schedule date - zone (sendTime schedule date)) = zone slot

theorem dateIn_add (zone : Zone) (since hops : ℤ) :
    dateIn zone (since + hops * dayMs) = dateAfter zone since hops := by
  have hreads := Int.emod_add_mul_ediv (wallClock zone since) dayMs
  have hwall : wallClock zone (since + hops * dayMs) =
      timeAfter zone since hops + (dateIn zone since + hops) * dayMs := by
    unfold timeAfter timeOfDay dateIn
    unfold wallClock at hreads ⊢
    linarith
  rw [dateIn, hwall, Int.add_mul_ediv_right _ _ (by decide), dateAfter]
  ring

theorem nextDaily_eq (zone : Zone) (since hour minute : ℤ) :
    nextDaily zone since hour minute = fromZonedTime zone (dailyDate zone since hour minute) hour minute := by
  have hnext : dateIn zone (since + dayMs) = dateAfter zone since 1 := by
    rw [← dateIn_add, one_mul]
  have hahead : isAhead zone since hour minute (dateIn zone since) =
      decide (since < fromZonedTime zone (dateIn zone since) hour minute) := rfl
  by_cases h : since < fromZonedTime zone (dateIn zone since) hour minute
  · simp only [nextDaily, dailyDate, hahead, h, if_true, decide_true]
  · simp only [nextDaily, dailyDate, hahead, h, hnext, if_false, decide_false, Bool.false_eq_true]

theorem probed_eq (zone : Zone) (since weekday hour minute : ℤ) (add : ℕ) :
    probed zone since weekday hour minute add =
    let date := dateAfter zone since add
    if (weekdayOf date = weekday && isAhead zone since hour minute date) = true then
      some (fromZonedTime zone date hour minute)
    else none := by
  have hahead : isAhead zone since hour minute (dateAfter zone since add) =
      decide (since < fromZonedTime zone (dateAfter zone since add) hour minute) := rfl
  simp only [probed, weekdayIn, dateIn_add, hahead, Bool.and_eq_true, decide_eq_true_eq]
  split_ifs <;> simp_all

/-- Slots are looked for on the dates that the hops of 24 hours come to. -/
theorem findSome?_probed (zone : Zone) (since weekday hour minute : ℤ) (adds : List ℕ) :
    adds.findSome? (probed zone since weekday hour minute) =
      ((adds.map fun add : ℕ => dateAfter zone since add).find? fun date =>
        weekdayOf date = weekday && isAhead zone since hour minute date).map fun date =>
          fromZonedTime zone date hour minute := by
  induction adds with
  | nil => rfl
  | cons add adds ih =>
    rw [List.findSome?_cons, List.map_cons, List.find?_cons, probed_eq, ih]
    generalize dateAfter zone since (add : ℤ) = date
    dsimp only
    cases weekdayOf date = weekday && isAhead zone since hour minute date <;> rfl

theorem nextWeekly_eq (zone : Zone) (since weekday hour minute : ℤ) : nextWeekly zone since weekday hour minute =
    fromZonedTime zone (weeklyDate zone since weekday hour minute) hour minute := by
  unfold nextWeekly weeklyDate
  rw [findSome?_probed, dateIn_add]
  cases List.find? _ _ <;> rfl

theorem nextRunAt_settled (h : Timed schedule) : nextRunAt intl schedule since =
    some (fromZonedTime (zoneOf intl schedule) (settledDate (zoneOf intl schedule) schedule since) (hourOf schedule)
      (minuteOf schedule)) := by
  unfold nextRunAt settledDate
  rcases h with hdaily | ⟨hweekly, weekday, hweekday⟩
  · simp only [hdaily, if_true, nextDaily_eq]
  · simp only [hweekly, hweekday, nextWeekly_eq]
    rfl

theorem sendTime_add (schedule : SendSchedule) (date days : ℤ) :
    sendTime schedule (date + days) = sendTime schedule date + days * dayMs := by
  unfold sendTime timeOn
  ring

theorem sendTime_eq (schedule : SendSchedule) (date : ℤ) :
    sendTime schedule date = sendTime schedule 0 + date * dayMs := by
  rw [← sendTime_add, zero_add]

theorem clamp_mem (n : ℚ) (lo hi : ℤ) (h : lo ≤ hi) : lo ≤ clamp n lo hi ∧ clamp n lo hi ≤ hi :=
  ⟨le_min h (le_max_left ..), min_le_left ..⟩

theorem sendTime_mem (schedule : SendSchedule) : 0 ≤ sendTime schedule 0 ∧ sendTime schedule 0 < dayMs := by
  have hhour := clamp_mem (schedule.sendHour.getD 9) 0 23 (by decide)
  have hminute := clamp_mem (schedule.sendMinute.getD 0) 0 59 (by decide)
  unfold sendTime timeOn hourOf minuteOf dayMs
  omega

theorem timeOfDay_mem (zone : Zone) (since : ℤ) : 0 ≤ timeOfDay zone since ∧ timeOfDay zone since < dayMs :=
  ⟨Int.emod_nonneg _ (by decide), Int.emod_lt_of_pos _ (by decide)⟩

theorem wallClock_lt_iff (zone : Zone) (schedule : SendSchedule) (since date : ℤ) :
    wallClock zone since < sendTime schedule date ↔
      dateIn zone since < date ∨ date = dateIn zone since ∧ timeOfDay zone since < sendTime schedule 0 := by
  have htime := sendTime_mem schedule
  have hday := timeOfDay_mem zone since
  have hreads : timeOfDay zone since + dayMs * dateIn zone since = wallClock zone since := Int.emod_add_mul_ediv ..
  have hdate := sendTime_eq schedule date
  unfold dayMs at *
  omega

theorem dateAfter_iff (zone : Zone) (since hops days : ℤ) :
    dateAfter zone since hops = dateIn zone since + days ↔ LandsOn zone since hops days := by
  unfold dateAfter LandsOn
  unfold dayMs
  omega

theorem isLeast_daily (zone : Zone) (since : ℤ) (h : schedule.frequency = "daily") :
    IsLeast {date | SendsOn schedule date ∧ wallClock zone since < sendTime schedule date}
      (dateIn zone since + if timeOfDay zone since < sendTime schedule 0 then 0 else 1) := by
  constructor
  · refine ⟨.inl h, (wallClock_lt_iff ..).2 ?_⟩
    split_ifs with hearly <;> omega
  · rintro date ⟨-, hbehind⟩
    rw [wallClock_lt_iff] at hbehind
    split_ifs with hearly <;> omega

theorem isLeast_weekly (zone : Zone) (since : ℤ) {weekday : ℚ} (h : schedule.frequency = "weekly")
    (hweekday : schedule.sendWeekday = some weekday) :
    IsLeast {date | SendsOn schedule date ∧ wallClock zone since < sendTime schedule date}
      (dateIn zone since + daysToWeekday zone schedule since (clamp weekday 0 6)) := by
  have hclamp := clamp_mem weekday 0 6 (by decide)
  have hdays : daysToWeekday zone schedule since (clamp weekday 0 6) =
      let days := (clamp weekday 0 6 - weekdayOf (dateIn zone since)) % 7
      if days = 0 ∧ sendTime schedule 0 ≤ timeOfDay zone since then 7 else days := rfl
  rw [hdays]
  dsimp only
  unfold weekdayOf
  constructor
  · refine ⟨.inr ⟨h, weekday, hweekday, ?_⟩, (wallClock_lt_iff ..).2 ?_⟩
    · unfold weekdayOf
      split_ifs <;> omega
    · split_ifs <;> omega
  · rintro date ⟨hsends, hbehind⟩
    rw [wallClock_lt_iff] at hbehind
    obtain hdaily | ⟨-, weekday', hweekday', hdate⟩ := hsends
    · rw [h] at hdaily
      exact absurd hdaily (by decide)
    · obtain rfl : weekday' = weekday := by simpa [hweekday] using hweekday'.symm
      unfold weekdayOf at hdate
      split_ifs <;> omega

namespace Orderly

theorem sendAt_lt {date date' : ℤ} (h : Orderly zone schedule) (hlt : date < date') :
    sendAt zone schedule date < sendAt zone schedule date' := by
  rw [← h.behind, (h.reads date _).2 rfl]
  unfold sendTime timeOn dayMs
  omega

theorem slots_eq (h : Orderly zone schedule) (since : ℤ) : {t | since < t ∧ ∃ date, IsSlot zone schedule date t} =
    sendAt zone schedule '' {date | SendsOn schedule date ∧ wallClock zone since < sendTime schedule date} := by
  ext t
  constructor
  · rintro ⟨hahead, date, hsends, hreads⟩
    obtain rfl := (h.reads date t).1 hreads
    exact ⟨date, ⟨hsends, (h.behind date since).2 hahead⟩, rfl⟩
  · rintro ⟨date, ⟨hsends, hbehind⟩, rfl⟩
    exact ⟨(h.behind date since).1 hbehind, date, hsends, (h.reads date _).2 rfl⟩

theorem skipsNone_isLeast (h : Orderly (zoneOf intl schedule) schedule) (ht : Timed schedule) :
    SkipsNone intl schedule since ↔
      IsLeast {date | SendsOn schedule date ∧ wallClock (zoneOf intl schedule) since < sendTime schedule date}
        (settledDate (zoneOf intl schedule) schedule since) := by
  have hmono : StrictMono (sendAt (zoneOf intl schedule) schedule) := fun _ _ => h.sendAt_lt
  unfold SkipsNone
  rw [nextRunAt_settled ht, h.slots_eq, ← hmono.map_isLeast]
  simp only [Option.some.injEq, exists_eq_left']
  rfl

theorem isAhead_iff (h : Orderly zone schedule) (since date : ℤ) :
    isAhead zone since (hourOf schedule) (minuteOf schedule) date = true ↔
      wallClock zone since < sendTime schedule date := by
  rw [h.behind]
  exact decide_eq_true_iff

theorem isLeast_iff_daily (h : Orderly zone schedule) (hdaily : schedule.frequency = "daily") :
    IsLeast {date | SendsOn schedule date ∧ wallClock zone since < sendTime schedule date}
      (settledDate zone schedule since) ↔ KeepsDay zone schedule since := by
  have hsettled : settledDate zone schedule since =
      if timeOfDay zone since < sendTime schedule 0 then dateIn zone since else dateAfter zone since 1 := by
    have htoday : isAhead zone since (hourOf schedule) (minuteOf schedule) (dateIn zone since) = true ↔
        timeOfDay zone since < sendTime schedule 0 := by
      rw [h.isAhead_iff, wallClock_lt_iff]
      simp
    simp only [settledDate, if_pos hdaily, dailyDate, htoday]
  have hkeeps : KeepsDay zone schedule since ↔ timeOfDay zone since < sendTime schedule 0 ∨
      dateAfter zone since 1 = dateIn zone since + 1 := by
    rw [dateAfter_iff]
    simp [KeepsDay, hdaily]
  rw [(isLeast_daily zone since hdaily).isLeast_iff_eq, hsettled, hkeeps]
  split_ifs with hearly
  · simp [hearly]
  · simp [hearly, eq_comm]

theorem stops_iff (h : Orderly zone schedule) (since : ℤ) {weekday : ℤ} (hlow : 0 ≤ weekday) (hhigh : weekday ≤ 6)
    (date : ℤ) :
    (weekdayOf date = weekday && isAhead zone since (hourOf schedule) (minuteOf schedule) date) = true ↔
      ∃ weeks : ℕ, date = dateIn zone since + (daysToWeekday zone schedule since weekday + 7 * weeks) := by
  rw [Bool.and_eq_true, decide_eq_true_iff, h.isAhead_iff, wallClock_lt_iff]
  unfold daysToWeekday weekdayIn weekdayOf
  dsimp only
  constructor
  · rintro ⟨hweekday, hahead⟩
    split_ifs with hlate
    · exact ⟨((date - dateIn zone since - 7) / 7).toNat, by omega⟩
    · exact ⟨((date - dateIn zone since - (weekday - (dateIn zone since + 4) % 7) % 7) / 7).toNat, by omega⟩
  · rintro ⟨weeks, rfl⟩
    split_ifs <;> omega

theorem weeklyDate_iff (h : Orderly zone schedule) (since : ℤ) {weekday : ℤ} (hlow : 0 ≤ weekday)
    (hhigh : weekday ≤ 6) :
    weeklyDate zone since weekday (hourOf schedule) (minuteOf schedule) =
        dateIn zone since + daysToWeekday zone schedule since weekday ↔
      ∃ hops : ℕ, hops < 8 ∧ LandsOn zone since hops (daysToWeekday zone schedule since weekday) ∧
        ∀ earlier < hops, ∀ weeks : ℕ, 0 < weeks →
          ¬ LandsOn zone since earlier (daysToWeekday zone schedule since weekday + 7 * weeks) := by
  have hstops := h.stops_iff since hlow hhigh
  unfold weeklyDate
  rw [List.find?_map]
  generalize daysToWeekday zone schedule since weekday = days at *
  generalize hstop : ((fun date => decide (weekdayOf date = weekday) &&
    isAhead zone since (hourOf schedule) (minuteOf schedule) date) ∘ fun add : ℕ => dateAfter zone since add) = stop
  have hlands (add : ℕ) : stop add = true ↔ ∃ weeks : ℕ, LandsOn zone since add (days + 7 * weeks) := by
    rw [← hstop, Function.comp_apply, hstops]
    exact exists_congr fun weeks => dateAfter_iff ..
  have hnext (add : ℕ) (hadd : LandsOn zone since add days) : stop add = true :=
    (hlands add).2 ⟨0, by simpa using hadd⟩
  cases hfind : (List.range 8).find? stop with
  | none =>
    have hnone : ∀ add : ℕ, add < 8 → ¬ LandsOn zone since add days := fun add hadd hon =>
      List.find?_eq_none.1 hfind add (List.mem_range.2 hadd) (hnext add hon)
    rw [Option.map_none, Option.getD_none, dateAfter_iff]
    exact ⟨fun hon => absurd hon (hnone 7 (by decide)), fun ⟨hops, hlt, hon, _⟩ => absurd hon (hnone hops hlt)⟩
  | some add =>
    obtain ⟨hadd, hmem, hfirst⟩ := List.find?_range_eq_some.1 hfind
    rw [Option.map_some, Option.getD_some, dateAfter_iff]
    constructor
    · intro hon
      refine ⟨add, List.mem_range.1 hmem, hon, fun earlier hlt weeks _ hlate => ?_⟩
      simpa [(hlands earlier).2 ⟨weeks, hlate⟩] using hfirst earlier hlt
    · rintro ⟨hops, -, hon, hnone⟩
      rcases Nat.lt_trichotomy add hops with hlt | rfl | hlt
      · obtain ⟨weeks, hweeks⟩ := (hlands add).1 hadd
        rcases Nat.eq_zero_or_pos weeks with rfl | hpos
        · simpa using hweeks
        · exact absurd hweeks (hnone add hlt weeks hpos)
      · exact hon
      · simpa [hnext hops hon] using hfirst hops hlt

theorem isLeast_iff_weekly (h : Orderly zone schedule) {weekday : ℚ} (hweekly : schedule.frequency = "weekly")
    (hweekday : schedule.sendWeekday = some weekday) :
    IsLeast {date | SendsOn schedule date ∧ wallClock zone since < sendTime schedule date}
      (settledDate zone schedule since) ↔ KeepsDay zone schedule since := by
  have hclamp := clamp_mem weekday 0 6 (by decide)
  have hsettled : settledDate zone schedule since =
      weeklyDate zone since (clamp weekday 0 6) (hourOf schedule) (minuteOf schedule) := by
    simp [settledDate, hweekly, hweekday]
  rw [(isLeast_weekly zone since hweekly hweekday).isLeast_iff_eq, eq_comm, hsettled,
    h.weeklyDate_iff since hclamp.1 hclamp.2]
  simp [KeepsDay, hweekly, hweekday]

theorem skipsNone_keepsDay (h : Orderly (zoneOf intl schedule) schedule) (ht : Timed schedule) :
    SkipsNone intl schedule since ↔ KeepsDay (zoneOf intl schedule) schedule since := by
  rw [h.skipsNone_isLeast ht]
  obtain hdaily | ⟨hweekly, weekday, hweekday⟩ := ht
  · exact h.isLeast_iff_daily hdaily
  · exact h.isLeast_iff_weekly hweekly hweekday

end Orderly

/-! ### Changes of the clock -/

/-- A clock that is changed once, at this instant. -/
def changedAt (change before after : ℤ) : Zone := fun t => if t < change then before else after

/-- The clock is ahead by whole seconds, by no more than a bound, and is changed at most once within twice the
bound of each send time. -/
structure Sparse (zone : Zone) (schedule : SendSchedule) (bound : ℤ) : Prop where
  whole : ∀ t, zone t % 1000 = 0
  within : ∀ t, -bound ≤ zone t ∧ zone t ≤ bound
  changed : ∀ date, ∃ change before after, ∀ t, sendTime schedule date - 2 * bound ≤ t →
    t ≤ sendTime schedule date + 2 * bound → zone t = changedAt change before after t

theorem offsetAt_eq (hzone : zone t % 1000 = 0) (ht : t % 1000 = 0) : offsetAt zone t = zone t := by
  unfold offsetAt wallClock
  omega

theorem sendAt_eq (hwhole : ∀ t, zone t % 1000 = 0) (schedule : SendSchedule) (date : ℤ) :
    sendAt zone schedule date =
      sendTime schedule date - zone (sendTime schedule date - zone (sendTime schedule date)) := by
  have hguess : sendTime schedule date % 1000 = 0 := by
    unfold sendTime timeOn dayMs
    omega
  have hfirst : (sendTime schedule date - zone (sendTime schedule date)) % 1000 = 0 := by
    have hzone := hwhole (sendTime schedule date)
    omega
  change sendTime schedule date - offsetAt zone (sendTime schedule date - offsetAt zone (sendTime schedule date)) = _
  rw [offsetAt_eq (hwhole _) hguess, offsetAt_eq (hwhole _) hfirst]

/-- On a steady clock the solved times are the send times. -/
theorem Steady.orderly (h : Steady zone schedule) : Orderly zone schedule := by
  have hslot : ∀ date, (∀ t < sendAt zone schedule date, wallClock zone t < sendTime schedule date) ∧
      wallClock zone (sendAt zone schedule date) = sendTime schedule date ∧
      ∀ t > sendAt zone schedule date, sendTime schedule date < wallClock zone t := by
    intro date
    obtain ⟨slot, hbehind, hshown, hpast, hoffset⟩ := h.crossed date
    have hsolved : sendAt zone schedule date = slot := by
      rw [sendAt_eq h.whole, hoffset]
      unfold wallClock at hshown
      omega
    exact hsolved ▸ ⟨hbehind, hshown, hpast⟩
  constructor
  all_goals
    intro date t
    obtain ⟨hbehind, hshown, hpast⟩ := hslot date
    rcases lt_trichotomy t (sendAt zone schedule date) with hlt | rfl | hgt
  · exact iff_of_true (hbehind t hlt) hlt
  · exact iff_of_false hshown.not_lt (lt_irrefl _)
  · exact iff_of_false (hpast t hgt).not_gt hgt.not_gt
  · exact iff_of_false (hbehind t hlt).ne hlt.ne
  · exact iff_of_true hshown rfl
  · exact iff_of_false (hpast t hgt).ne' hgt.ne'

namespace Sparse

variable {bound : ℤ}

theorem wallClock_sendAt (h : Sparse zone schedule bound) {date : ℤ}
    (hshown : ∃ t, wallClock zone t = sendTime schedule date) :
    wallClock zone (sendAt zone schedule date) = sendTime schedule date := by
  obtain ⟨t, hreads⟩ := hshown
  obtain ⟨change, before, after, hlocal⟩ := h.changed date
  rw [sendAt_eq h.whole]
  unfold wallClock at *
  generalize sendTime schedule date = guess at *
  have hguess := h.within guess
  have hfirst := h.within (guess - zone guess)
  have ht := h.within t
  have hzone₀ := hlocal guess (by omega) (by omega)
  have hzone₁ := hlocal (guess - zone guess) (by omega) (by omega)
  have hzone₂ := hlocal (guess - zone (guess - zone guess)) (by omega) (by omega)
  have hzone := hlocal t (by omega) (by omega)
  -- Were the last round still wrong, neither offset would show the time.
  unfold changedAt at *
  split_ifs at * <;> omega

theorem orderly (h : Sparse zone schedule bound) (honce : ∀ date, ∃! t, wallClock zone t = sendTime schedule date) :
    Orderly zone schedule := by
  have hreads : ∀ date t, wallClock zone t = sendTime schedule date ↔ t = sendAt zone schedule date := by
    intro date t
    have hsolved := h.wallClock_sendAt (honce date).exists
    exact ⟨fun ht => (honce date).unique ht hsolved, fun ht => ht ▸ hsolved⟩
  refine ⟨fun date t => ?_, hreads⟩
  obtain ⟨change, before, after, hlocal⟩ := h.changed date
  have hsolved := (hreads date (sendAt zone schedule date)).2 rfl
  -- The other instant at which the offset in force at `t` would show the time.
  have hother := hreads date (sendTime schedule date - zone t)
  have ht := h.within t
  have hbound := h.within (sendAt zone schedule date)
  unfold wallClock at *
  generalize sendTime schedule date = guess at *
  generalize sendAt zone schedule date = solved at *
  by_cases hnear : guess - 2 * bound ≤ t ∧ t ≤ guess + 2 * bound
  · have hzone := hlocal t hnear.1 hnear.2
    have hzone₀ := hlocal solved (by omega) (by omega)
    have hzone₁ := hlocal (guess - zone t) (by omega) (by omega)
    unfold changedAt at *
    split_ifs at * <;> omega
  · omega

theorem steady (h : Sparse zone schedule bound) (honce : ∀ date, ∃! t, wallClock zone t = sendTime schedule date) :
    Steady zone schedule := by
  refine ⟨h.whole, fun date => ⟨sendAt zone schedule date, ?_⟩⟩
  have horder := h.orderly honce
  have hshown := h.wallClock_sendAt (honce date).exists
  refine ⟨fun t => (horder.behind date t).2, hshown, fun t ht => ?_, ?_⟩
  · have hnot := (horder.behind date t).not.2 ht.not_gt
    have hne := (horder.reads date t).not.2 ht.ne'
    omega
  · have hsolved := sendAt_eq h.whole schedule date
    unfold wallClock at hshown
    omega

end Sparse

/-! ### No slot is skipped -/

/-- From the seventh hour of the eighth of March 2026 on, four hours behind instead of five. -/
def newYork : Zone := changedAt 1772953200000 (-18000000) (-14400000)

def nineInNewYork : SendSchedule := { frequency := "daily", sendHour := some 9, timezone := some "America/New_York" }

def mondaysInNewYork : SendSchedule := { nineInNewYork with frequency := "weekly", sendWeekday := some 1 }

theorem newYork_once (schedule : SendSchedule) (hnine : sendTime schedule 0 = 32400000) (date : ℤ) :
    ∃! t, wallClock newYork t = sendTime schedule date := by
  rw [sendTime_eq, hnine]
  unfold wallClock newYork changedAt dayMs
  by_cases hearly : 32400000 + date * (24 * 3600 * 1000) + 18000000 < 1772953200000
  · refine ⟨32400000 + date * (24 * 3600 * 1000) + 18000000, ?_, fun t ht => ?_⟩
    all_goals
      dsimp only at *
      split_ifs at * <;> omega
  · refine ⟨32400000 + date * (24 * 3600 * 1000) + 14400000, ?_, fun t ht => ?_⟩
    all_goals
      dsimp only at *
      split_ifs at * <;> omega

theorem sparse_newYork (schedule : SendSchedule) : Sparse newYork schedule 18000000 where
  whole t := by
    unfold newYork changedAt
    split_ifs <;> decide
  within t := by
    unfold newYork changedAt
    split_ifs <;> decide
  changed _ := ⟨_, _, _, fun _ _ _ => rfl⟩

def onlyNewYork (tz : String) : Option Zone := if tz = "America/New_York" then some newYork else none

end UltraTorrent.MediaServerAnalytics.NewsletterSchedule
