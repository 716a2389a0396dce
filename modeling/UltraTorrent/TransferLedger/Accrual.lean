import Mathlib.Algebra.Order.BigOperators.Group.List
import Mathlib.Algebra.Order.Ring.Nat
import UltraTorrent.Library.EcmaScript
import UltraTorrent.Library.Keyed

/-! From an engine's per-torrent levels to a flow that only moves forward. -/
namespace UltraTorrent.TransferLedger.Accrual

structure Counters where
  downloaded : ℕ := 0
  uploaded : ℕ := 0
  deriving DecidableEq

inductive Direction where
  | down
  | up
  deriving DecidableEq

def Counters.of (c : Counters) : Direction → ℕ
  | .down => c.downloaded
  | .up => c.uploaded

instance : Add Counters where
  add a b := ⟨a.downloaded + b.downloaded, a.uploaded + b.uploaded⟩

instance : Zero Counters where
  zero := {}

@[simp] theorem of_add (a b : Counters) (dir : Direction) : (a + b).of dir = a.of dir + b.of dir := by
  cases dir <;> rfl

@[simp] theorem of_zero (dir : Direction) : (0 : Counters).of dir = 0 := by
  cases dir <;> rfl

/-- A torrent's counters as the engine currently reports them. -/
structure TransferReading extends Counters where
  hash : String
  deriving DecidableEq

structure AccrualResult extends Counters where
  resets : ℕ := 0
  firstSightings : ℕ := 0
  deriving DecidableEq

/-- A counter that went backwards was reset, and what it shows has moved since. -/
def contribution (prior current : ℕ) : ℕ × Bool :=
  if prior ≤ current then (current - prior, false) else (current, true)

/-- A torrent seen for the first time contributes nothing. -/
def accrueOne (priorByHash : String → Option Counters) (result : AccrualResult)
    (reading : TransferReading) : AccrualResult :=
  match priorByHash reading.hash with
  | none => { result with firstSightings := result.firstSightings + 1 }
  | some prior =>
    let down := contribution prior.downloaded reading.downloaded
    let up := contribution prior.uploaded reading.uploaded
    { result with
      downloaded := result.downloaded + down.1
      uploaded := result.uploaded + up.1
      resets := if down.2 || up.2 then result.resets + 1 else result.resets }

def accrue (readings : List TransferReading) (priorByHash : String → Option Counters) : AccrualResult :=
  readings.foldl (accrueOne priorByHash) {}

/-- Nothing moved, so there is nothing to write. -/
def isEmpty (result : AccrualResult) : Bool :=
  result.downloaded = 0 && result.uploaded = 0 && result.resets = 0

def delta (priorByHash : String → Option Counters) (dir : Direction) (reading : TransferReading) : ℕ :=
  match priorByHash reading.hash with
  | none => 0
  | some prior => (contribution (prior.of dir) (reading.of dir)).1

theorem contribution_self (n : ℕ) : (contribution n n).1 = 0 := by
  simp [contribution]

/-- Bytes that move raise what is owed by at most as many. -/
theorem contribution_add_le (prior current n : ℕ) :
    (contribution prior (current + n)).1 ≤ (contribution prior current).1 + n := by
  unfold contribution
  split_ifs <;> dsimp only <;> omega

theorem contribution_zero (prior : ℕ) : (contribution prior 0).1 = 0 := by
  unfold contribution
  split_ifs with h
  · show 0 - prior = 0
    omega
  · rfl

theorem accrueOne_of (priorByHash : String → Option Counters) (result : AccrualResult)
    (reading : TransferReading) (dir : Direction) :
    (accrueOne priorByHash result reading).of dir = result.of dir + delta priorByHash dir reading := by
  unfold accrueOne delta
  cases priorByHash reading.hash with
  | none => rfl
  | some prior => cases dir <;> rfl

theorem accrue_of (readings : List TransferReading) (priorByHash : String → Option Counters)
    (dir : Direction) :
    (accrue readings priorByHash).of dir = (readings.map (delta priorByHash dir)).sum := by
  have hfold : ∀ result, (readings.foldl (accrueOne priorByHash) result).of dir =
      result.of dir + (readings.map (delta priorByHash dir)).sum := by
    induction readings with
    | nil => intro result; rfl
    | cons reading readings ih =>
      intro result
      rw [List.foldl_cons, ih, accrueOne_of, List.map_cons, List.sum_cons]
      omega
  rw [accrue, hfold]
  cases dir <;> exact Nat.zero_add _

theorem of_eq_zero_of_isEmpty {result : AccrualResult} (h : isEmpty result = true) (dir : Direction) :
    result.of dir = 0 := by
  simp only [isEmpty, Bool.and_eq_true, decide_eq_true_eq] at h
  obtain ⟨⟨hdown, hup⟩, -⟩ := h
  cases dir
  · exact hdown
  · exact hup

end UltraTorrent.TransferLedger.Accrual
