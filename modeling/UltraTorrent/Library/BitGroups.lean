import Mathlib.Algebra.Order.Group.Nat
import Mathlib.Algebra.Order.Ring.Nat
import Mathlib.Data.List.Basic
import Mathlib.Data.List.Induction
import Mathlib.Data.Nat.Bitwise
import Mathlib.Tactic.Ring

/-! Numbers written as bytes, the lowest first, and read from a place in a buffer. Reading outside the
buffer is an error. -/
namespace UltraTorrent.Library.LittleEndian

/-- So many bytes of a number. -/
def bytes : ℕ → ℕ → List UInt8
  | 0, _ => []
  | width + 1, n => UInt8.ofNat (n % 256) :: bytes width (n / 256)

def value : List UInt8 → ℕ
  | [] => 0
  | b :: rest => b.toNat + 256 * value rest

def valueAt (width : ℕ) (buffer : List UInt8) (offset : ℕ) : ℕ := value ((buffer.drop offset).take width)

/-- `buffer.readUIntLE(offset, width)`. -/
def read (width : ℕ) (buffer : List UInt8) (offset : ℕ) : Except String ℕ :=
  if offset + width ≤ buffer.length then .ok (valueAt width buffer offset) else .error "ERR_OUT_OF_RANGE"

variable {width n offset : ℕ} {front back buffer : List UInt8}

theorem length_bytes (width n : ℕ) : (bytes width n).length = width := by
  induction width generalizing n with
  | zero => rfl
  | succ width ih => rw [bytes, List.length_cons, ih]

theorem value_bytes (h : n < 256 ^ width) : value (bytes width n) = n := by
  induction width generalizing n with
  | zero =>
    rw [pow_zero] at h
    rw [bytes, value]
    omega
  | succ width ih =>
    have hrest : n / 256 < 256 ^ width := by
      rw [pow_succ] at h
      exact Nat.div_lt_of_lt_mul (by rwa [mul_comm])
    have hbyte : (UInt8.ofNat (n % 256)).toNat = n % 256 := by
      rw [UInt8.toNat_ofNat']
      omega
    rw [bytes, value, ih hrest, hbyte]
    omega

theorem read_eq (h : offset + width ≤ buffer.length) : read width buffer offset = .ok (valueAt width buffer offset) :=
  if_pos h

/-- What stands before a place does not matter. -/
theorem drop_skip {m k j : ℕ} (hm : front.length = m) (hk : k = m + j) (back : List UInt8) :
    (front ++ back).drop k = back.drop j := by
  subst hm hk
  rw [List.drop_append, List.drop_eq_nil_of_le (Nat.le_add_right _ _), List.nil_append, Nat.add_sub_cancel_left]

theorem valueAt_skip {m k j : ℕ} (hm : front.length = m) (hk : k = m + j) (width : ℕ) (back : List UInt8) :
    valueAt width (front ++ back) k = valueAt width back j := by
  rw [valueAt, drop_skip hm hk]
  rfl

theorem valueAt_bytes (h : n < 256 ^ width) (back : List UInt8) : valueAt width (bytes width n ++ back) 0 = n := by
  rw [valueAt, List.drop_zero, List.take_left' (length_bytes width n), value_bytes h]

end UltraTorrent.Library.LittleEndian

/-! Numbers as bits, the highest first, and a list cut into groups of one length. Bits written in
groups of one size and read in groups of another are how texts of different bases carry the same
bytes. -/
namespace UltraTorrent.Library.BitGroups

/-! ### Bits -/

/-- The lowest bits of a number, the highest of them first. -/
def toBits : ℕ → ℕ → List Bool
  | 0, _ => []
  | width + 1, n => n.testBit width :: toBits width n

def ofBits (bits : List Bool) : ℕ := bits.foldl (fun n b => 2 * n + b.toNat) 0

@[simp] theorem length_toBits (width n : ℕ) : (toBits width n).length = width := by
  induction width with
  | zero => rfl
  | succ width ih => rw [toBits, List.length_cons, ih]

theorem toBits_add (v w n : ℕ) : toBits (v + w) n = toBits v (n / 2 ^ w) ++ toBits w n := by
  induction v with
  | zero => rw [Nat.zero_add, toBits, List.nil_append]
  | succ v ih =>
    rw [Nat.succ_add, toBits, ih, toBits, Nat.testBit_div_two_pow, List.cons_append]

theorem toBits_mod {v w : ℕ} (h : v ≤ w) (n : ℕ) : toBits v (n % 2 ^ w) = toBits v n := by
  induction v with
  | zero => rfl
  | succ v ih =>
    rw [toBits, toBits, ih (by omega), Nat.testBit_mod_two_pow, decide_eq_true (by omega),
      Bool.true_and]

theorem toBits_eq_iff {w m n : ℕ} : toBits w m = toBits w n ↔ ∀ i < w, m.testBit i = n.testBit i := by
  induction w with
  | zero => simp [toBits]
  | succ w ih =>
    rw [toBits, toBits, List.cons.injEq, ih]
    constructor
    · rintro ⟨htop, hrest⟩ i hi
      rcases Nat.lt_succ_iff_lt_or_eq.1 hi with hi | rfl
      · exact hrest i hi
      · exact htop
    · intro h
      exact ⟨h w (Nat.lt_succ_self w), fun i hi => h i (Nat.lt_succ_of_lt hi)⟩

theorem take_toBits {w n : ℕ} (hn : n ≤ w) (x : ℕ) : (toBits w x).take n = toBits n (x / 2 ^ (w - n)) := by
  have hsplit := toBits_add n (w - n) x
  rw [Nat.add_sub_cancel' hn] at hsplit
  rw [hsplit, List.take_left' (length_toBits _ _)]

theorem ofBits_append (bits : List Bool) (b : Bool) :
    ofBits (bits ++ [b]) = 2 * ofBits bits + b.toNat := by
  rw [ofBits, List.foldl_append, List.foldl_cons, List.foldl_nil, ← ofBits]

theorem toBits_ofBits (bits : List Bool) : toBits bits.length (ofBits bits) = bits := by
  induction bits using List.reverseRecOn with
  | nil => rfl
  | append_singleton bits b ih =>
    have hbit : toBits 1 (ofBits (bits ++ [b])) = [b] := by
      rw [ofBits_append, toBits, toBits, Nat.testBit_zero]
      cases b <;> simp
    have hrest : ofBits (bits ++ [b]) / 2 ^ 1 = ofBits bits := by
      rw [ofBits_append]
      have := b.toNat_lt
      omega
    rw [List.length_append, List.length_singleton, toBits_add, hrest, ih, hbit]

theorem ofBits_lt (bits : List Bool) : ofBits bits < 2 ^ bits.length := by
  induction bits using List.reverseRecOn with
  | nil => exact Nat.one_pos
  | append_singleton bits b ih =>
    rw [ofBits_append, List.length_append, List.length_singleton, Nat.pow_succ]
    have := b.toNat_lt
    omega

theorem toBits_injective {width m n : ℕ} (hm : m < 2 ^ width) (hn : n < 2 ^ width)
    (h : toBits width m = toBits width n) : m = n := by
  induction width generalizing m n with
  | zero =>
    rw [Nat.pow_zero, Nat.lt_one_iff] at hm hn
    rw [hm, hn]
  | succ width ih =>
    rw [toBits_add width 1, toBits_add width 1] at h
    obtain ⟨hhigh, hlow⟩ := List.append_inj h (by rw [length_toBits, length_toBits])
    have hhalf : m / 2 ^ 1 = n / 2 ^ 1 := ih (by omega) (by omega) hhigh
    have hbit : m.testBit 0 = n.testBit 0 := by injection hlow
    rw [Nat.testBit_zero, Nat.testBit_zero, decide_eq_decide] at hbit
    omega

theorem ofBits_toBits {width n : ℕ} (h : n < 2 ^ width) : ofBits (toBits width n) = n := by
  have hlt := ofBits_lt (toBits width n)
  have hbits := toBits_ofBits (toBits width n)
  rw [length_toBits] at hlt hbits
  exact toBits_injective hlt h hbits

/-! ### Groups -/

variable {α : Type*} {k : ℕ}

def groups (k : ℕ) (l : List α) : List (List α) :=
  (List.range (l.length / k)).map fun i => (l.drop (k * i)).take k

@[simp] theorem length_groups (k : ℕ) (l : List α) : (groups k l).length = l.length / k := by
  rw [groups, List.length_map, List.length_range]

theorem length_of_mem_groups {l g : List α} (h : g ∈ groups k l) : g.length = k := by
  obtain ⟨i, hi, rfl⟩ := List.mem_map.1 h
  have hfits : k * (i + 1) ≤ l.length :=
    (Nat.mul_le_mul_left k (List.mem_range.1 hi)).trans (Nat.mul_div_le l.length k)
  rw [Nat.mul_succ] at hfits
  rw [List.length_take, List.length_drop]
  omega

theorem groups_append {a : List α} (hk : 0 < k) (ha : a.length = k) (l : List α) :
    groups k (a ++ l) = a :: groups k l := by
  subst ha
  rw [groups, List.length_append, Nat.add_div_left _ hk, List.range_succ_eq_map, List.map_cons,
    Nat.mul_zero, List.drop_zero, List.take_left, List.map_map, groups]
  congr 1
  refine List.map_congr_left fun i _ => ?_
  rw [Function.comp_apply, Nat.mul_succ, Nat.add_comm, ← List.drop_drop, List.drop_left]

theorem groups_nil (k : ℕ) : groups k ([] : List α) = [] := by
  rw [groups, List.length_nil, Nat.zero_div, List.range_zero, List.map_nil]

theorem groups_flatten {ls : List (List α)} (hk : 0 < k) (h : ∀ l ∈ ls, l.length = k) :
    groups k ls.flatten = ls := by
  induction ls with
  | nil => exact groups_nil k
  | cons l ls ih =>
    rw [List.flatten_cons, groups_append hk (h l List.mem_cons_self),
      ih fun l' hl' => h l' (List.mem_cons_of_mem _ hl')]

theorem flatten_groups {l : List α} (hk : 0 < k) {n : ℕ} (h : l.length = k * n) :
    (groups k l).flatten = l := by
  induction n generalizing l with
  | zero =>
    rw [List.eq_nil_of_length_eq_zero h, groups_nil, List.flatten_nil]
  | succ n ih =>
    rw [Nat.mul_succ] at h
    have hhead : (l.take k).length = k := by
      rw [List.length_take]
      omega
    have hrest := ih (l := l.drop k) (by rw [List.length_drop]; omega)
    rw [← List.take_append_drop k l, groups_append hk hhead, List.flatten_cons, hrest]

end UltraTorrent.Library.BitGroups
