import Mathlib.Tactic.Ring
import UltraTorrent.Library.BitGroups
import UltraTorrent.Library.InternetAddress

/-! Networks of IPv4 addresses: an address, and how many of its first bits its neighbours share. -/
namespace UltraTorrent.Library.IPv4Network

open BitGroups InternetAddress

def bits (q : IPv4) : List Bool := [q.a, q.b, q.c, q.d].flatMap fun byte => toBits 8 byte.val

structure Network where
  address : IPv4
  length : Fin 33
  deriving DecidableEq

def Network.Contains (net : Network) (q : IPv4) : Prop :=
  (bits q).take net.length = (bits net.address).take net.length

instance (net : Network) (q : IPv4) : Decidable (net.Contains q) := inferInstanceAs (Decidable (_ = _))

def prefixLength (p : List Char) : Option (Fin 33) :=
  (byte p).bind fun n => if h : n.val < 33 then some ⟨n.val, h⟩ else none

/-- `a.b.c.d/n` -/
def parseNetwork (text : List Char) : Option Network :=
  match text.splitOn '/' with
  | [address, length] => do some ⟨← parseIPv4 address, ← prefixLength length⟩
  | _ => none

example : (parseNetwork "10.0.0.0/8".toList).isSome = true ∧ ∀ text ∈ ["10.0.0.0", "10.0.0.0/", "10.0.0.0/33",
    "10.0.0/8", "10.0.0.0/8/9", "10.0.0.0/08"], parseNetwork text.toList = none := by decide +kernel

theorem parseNetwork_eq_some {text : List Char} {net : Network} : parseNetwork text = some net ↔
    ∃ address length, text.splitOn '/' = [address, length] ∧ parseIPv4 address = some net.address ∧
      prefixLength length = some net.length := by
  unfold parseNetwork
  constructor
  · intro h
    split at h
    · rename_i address length hsplit
      simp only [Option.bind_eq_bind, Option.bind_eq_some_iff, Option.some.injEq] at h
      obtain ⟨_, haddress, _, hlength, rfl⟩ := h
      exact ⟨address, length, hsplit, haddress, hlength⟩
    · cases h
  · rintro ⟨address, length, hsplit, haddress, hlength⟩
    rw [hsplit]
    simp [haddress, hlength]

/-- Every address is in a network of length zero. -/
theorem Network.contains_of_length {net : Network} (h : net.length = 0) (q : IPv4) : net.Contains q := by
  rw [Network.Contains, h]
  rfl

/-! ### Words -/

/-- Four bytes in 32 bits. -/
def word (q : IPv4) : BitVec 32 :=
  BitVec.ofNat 32 q.a <<< 24 ||| BitVec.ofNat 32 q.b <<< 16 ||| BitVec.ofNat 32 q.c <<< 8 ||| BitVec.ofNat 32 q.d

theorem join_byte {x y : ℕ} (hy : y < 256) (k : ℕ) : x <<< (8 + k) ||| y <<< k = (256 * x + y) <<< k := by
  have hlow : x <<< 8 ||| y = 256 * x + y := by
    rw [← Nat.shiftLeft_add_eq_or_of_lt (show y < 2 ^ 8 from hy), Nat.shiftLeft_eq, Nat.mul_comm]
  rw [Nat.shiftLeft_add, ← Nat.shiftLeft_or_distrib, hlow]

theorem toNat_shiftLeft {a k : ℕ} (ha : a < 256) (hk : k ≤ 24) : (BitVec.ofNat 32 a <<< k).toNat = a <<< k := by
  have hlt : a <<< k < 2 ^ 32 := by
    rw [Nat.shiftLeft_eq]
    calc a * 2 ^ k < 256 * 2 ^ k := Nat.mul_lt_mul_of_pos_right ha (Nat.two_pow_pos k)
      _ ≤ 256 * 2 ^ 24 := Nat.mul_le_mul_left 256 (Nat.pow_le_pow_right Nat.two_pos hk)
      _ = 2 ^ 32 := by decide
  rw [BitVec.toNat_shiftLeft, BitVec.toNat_ofNat, Nat.mod_eq_of_lt (ha.trans (by decide)),
    Nat.mod_eq_of_lt hlt]

theorem toNat_word (q : IPv4) :
    (word q).toNat = 256 * (256 * (256 * q.a.val + q.b.val) + q.c.val) + q.d.val := by
  have hword : (word q).toNat = q.a.val <<< (8 + 16) ||| q.b.val <<< 16 ||| q.c.val <<< 8 ||| q.d.val <<< 0 := by
    rw [word, BitVec.toNat_or, BitVec.toNat_or, BitVec.toNat_or, toNat_shiftLeft q.a.isLt (by decide),
      toNat_shiftLeft q.b.isLt (by decide), toNat_shiftLeft q.c.isLt (by decide), BitVec.toNat_ofNat,
      Nat.mod_eq_of_lt (q.d.isLt.trans (by decide)), Nat.shiftLeft_zero]
  rw [hword, join_byte q.b.isLt, show 16 = 8 + 8 from rfl, join_byte q.c.isLt, ← Nat.add_zero 8,
    join_byte q.d.isLt, Nat.shiftLeft_zero]

theorem toBits_byte (x : ℕ) (y : Fin 256) (k : ℕ) :
    toBits (k + 8) (256 * x + y.val) = toBits k x ++ toBits 8 y.val := by
  have hhigh : (256 * x + y.val) / 2 ^ 8 = x := by omega
  have hlow : (256 * x + y.val) % 2 ^ 8 = y.val := by omega
  rw [toBits_add, hhigh, ← toBits_mod (le_refl 8) (256 * x + y.val), hlow]

theorem toBits_word (q : IPv4) : toBits 32 (word q).toNat = bits q := by
  have hfirst : toBits 8 q.a.val = toBits 0 0 ++ toBits 8 q.a.val := rfl
  rw [toNat_word, toBits_byte _ q.d 24, toBits_byte _ q.c 16, toBits_byte _ q.b 8, bits]
  simp only [List.flatMap_cons, List.flatMap_nil, List.append_nil, List.append_assoc]

/-- The first bits of a word. -/
def mask (n : ℕ) : BitVec 32 := ~~~((1 : BitVec 32) <<< (32 - n) - 1)

theorem getLsbD_mask {n i : ℕ} (hn : n ≤ 32) (hi : i < 32) : (mask n).getLsbD i = decide (32 - n ≤ i) := by
  have h : ∀ n : Fin 33, ∀ i : Fin 32, (mask n).getLsbD i = decide (32 - n.val ≤ i.val) := by decide +kernel
  exact h ⟨n, by omega⟩ ⟨i, hi⟩

/-- Two words agree under the mask when their first bits do. -/
theorem and_mask_eq_iff {n : ℕ} (hn : n ≤ 32) (x y : BitVec 32) :
    x &&& mask n = y &&& mask n ↔ (toBits 32 x.toNat).take n = (toBits 32 y.toNat).take n := by
  rw [take_toBits hn, take_toBits hn, toBits_eq_iff]
  simp only [Nat.testBit_div_two_pow]
  constructor
  · intro h i hi
    have hbit := congrArg (BitVec.getLsbD · (i + (32 - n))) h
    have hmask : (mask n).getLsbD (i + (32 - n)) = true := by
      rw [getLsbD_mask hn (by omega)]
      exact decide_eq_true (by omega)
    rw [BitVec.getLsbD_and, BitVec.getLsbD_and, hmask, Bool.and_true, Bool.and_true] at hbit
    exact hbit
  · intro h
    apply BitVec.eq_of_getLsbD_eq
    intro i hi
    rw [BitVec.getLsbD_and, BitVec.getLsbD_and, getLsbD_mask hn hi]
    by_cases hle : 32 - n ≤ i
    · have hbit := h (i - (32 - n)) (by omega)
      rw [Nat.sub_add_cancel hle] at hbit
      rw [BitVec.getLsbD, BitVec.getLsbD, hbit]
    · rw [decide_eq_false hle, Bool.and_false, Bool.and_false]

theorem Network.contains_iff {net : Network} {q : IPv4} : net.Contains q ↔
    word q &&& mask net.length = word net.address &&& mask net.length := by
  rw [and_mask_eq_iff (by omega), toBits_word, toBits_word, Network.Contains]

end UltraTorrent.Library.IPv4Network
