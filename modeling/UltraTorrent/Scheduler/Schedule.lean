import Mathlib.Data.List.Sort
import UltraTorrent.Scheduler.Policy

/-! Recurring windows that override limits by the time of day. They hold no state: a
window covers an instant or it does not. -/
namespace UltraTorrent.Scheduler.Schedule

open Library.EcmaScript
open Policy

structure ScheduleWindow where
  id : String
  name : String
  enabled : Bool
  daysOfWeek : List ℤ
  startMinute : ℤ
  endMinute : ℤ
  timeZone : String
  priority : ℤ
  maxConcurrentDownloads : Setting ℤ := .absent
  maxConcurrentSeeds : Setting ℤ := .absent
  maxTotalActive : Setting ℤ := .absent
  maxDownloadRateKbps : Setting ℤ := .absent
  maxUploadRateKbps : Setting ℤ := .absent
  allowNewDownloads : Option Bool := none
  deriving DecidableEq

structure LocalPosition where
  minutes : ℚ
  weekday : ℤ
  deriving DecidableEq

def weekdays : List (String × ℤ) :=
  [("Sun", 0), ("Mon", 1), ("Tue", 2), ("Wed", 3), ("Thu", 4), ("Fri", 5), ("Sat", 6)]

/-- Midnight may be formatted as hour 24. -/
def localPosition (rt : Runtime) (now : Instant) (timeZone : String) : Option LocalPosition := do
  let parts ← rt.formatToParts now timeZone
  let weekday ← weekdays.lookup ((parts.lookup "weekday").getD "")
  match rt.number (.ofOption .string (parts.lookup "hour")),
      rt.number (.ofOption .string (parts.lookup "minute")) with
  | .fin hour, .fin minute => some ⟨(hour - 24 * ⌊hour / 24⌋) * 60 + minute, weekday⟩
  | _, _ => none

def windowIsValid (w : ScheduleWindow) : Bool :=
  !w.daysOfWeek.isEmpty && w.daysOfWeek.all (fun d => 0 ≤ d && d ≤ 6)
    && [w.startMinute, w.endMinute].all (fun m => 0 ≤ m && m ≤ 1439)
    && w.startMinute ≠ w.endMinute

/-- A window that crosses midnight belongs to the day it began on. -/
def windowCovers (rt : Runtime) (w : ScheduleWindow) (now : Instant) : Bool :=
  if !w.enabled || !windowIsValid w then false
  else match localPosition rt now w.timeZone with
    | none => false
    | some pos =>
      let today := w.daysOfWeek.contains pos.weekday
      let yesterday := w.daysOfWeek.contains ((pos.weekday + 6) % 7)
      if w.startMinute < w.endMinute then
        today && w.startMinute ≤ pos.minutes && pos.minutes < w.endMinute
      else (today && w.startMinute ≤ pos.minutes) || (yesterday && pos.minutes < w.endMinute)

def compareWindows (rt : Runtime) (a b : ScheduleWindow) : ℤ :=
  if b.priority - a.priority ≠ 0 then b.priority - a.priority else rt.localeCompare a.id b.id

def activeWindows (rt : Runtime) (windows : List ScheduleWindow) (now : Instant) :
    List ScheduleWindow :=
  (windows.filter (windowCovers rt · now)).insertionSort fun a b => compareWindows rt a b ≤ 0

structure ScheduledPolicy extends EffectivePolicy where
  activeWindowIds : List String
  allowNewDownloads : Bool

def taken (setting : Setting ℤ) (current : Option ℤ) : Option ℤ :=
  if setting.isSupplied then setting.orNull else current

def takenFrom (setting : Setting ℤ) (w : ScheduleWindow) (current : Option String) : Option String :=
  if setting.isSupplied then some ("schedule:" ++ w.id) else current

def applyWindow (out : ScheduledPolicy) (w : ScheduleWindow) : ScheduledPolicy :=
  { out with
    maxConcurrentDownloads := taken w.maxConcurrentDownloads out.maxConcurrentDownloads
    maxConcurrentSeeds := taken w.maxConcurrentSeeds out.maxConcurrentSeeds
    maxTotalActive := taken w.maxTotalActive out.maxTotalActive
    maxDownloadRateKbps := taken w.maxDownloadRateKbps out.maxDownloadRateKbps
    maxUploadRateKbps := taken w.maxUploadRateKbps out.maxUploadRateKbps
    sources :=
      { out.sources with
        maxConcurrentDownloads :=
          takenFrom w.maxConcurrentDownloads w out.sources.maxConcurrentDownloads
        maxConcurrentSeeds := takenFrom w.maxConcurrentSeeds w out.sources.maxConcurrentSeeds
        maxTotalActive := takenFrom w.maxTotalActive w out.sources.maxTotalActive
        maxDownloadRateKbps := takenFrom w.maxDownloadRateKbps w out.sources.maxDownloadRateKbps
        maxUploadRateKbps := takenFrom w.maxUploadRateKbps w out.sources.maxUploadRateKbps }
    allowNewDownloads := out.allowNewDownloads && w.allowNewDownloads ≠ some false }

/-- The walk goes from the least authoritative window, so that a higher priority
overwrites what a lower one wrote. -/
def applySchedule (rt : Runtime) (policy : EffectivePolicy) (windows : List ScheduleWindow)
    (now : Instant) : ScheduledPolicy :=
  let active := activeWindows rt windows now
  active.reverse.foldl applyWindow
    { policy with activeWindowIds := active.map ScheduleWindow.id, allowNewDownloads := true }

end UltraTorrent.Scheduler.Schedule
