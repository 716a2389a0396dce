import Mathlib.Data.Int.Log
import UltraTorrent.Library.EcmaScript
import UltraTorrent.Library.InternetAddress
import UltraTorrent.Library.WhiteSpace

/-! How `Number` reads a text, and the 32 bits a number is cut down to. The value a literal has is
rounded to the nearest double. -/
namespace UltraTorrent.Library.NumericLiteral

open EcmaScript
open InternetAddress (decimal hexDigit)
open WhiteSpace (trimmed)

/-! ### Doubles -/

/-- Of two neighbours that are equally near, the even one. -/
def roundHalfEven (q : ℚ) : ℤ :=
  let rest := q - ⌊q⌋
  if rest < 1 / 2 then ⌊q⌋
  else if 1 / 2 < rest then ⌊q⌋ + 1
  else if ⌊q⌋ % 2 = 0 then ⌊q⌋ else ⌊q⌋ + 1

/-- The doubles about a number are the multiples of this power of two. -/
def spacing (q : ℚ) : ℤ := max (Int.log 2 |q| - 52) (-1074)

def toDouble (q : ℚ) : Numeric :=
  let rounded : ℚ := (roundHalfEven (q / 2 ^ spacing q) : ℚ) * 2 ^ spacing q
  if 2 ^ 1024 ≤ rounded then .posInf
  else if rounded ≤ -2 ^ 1024 then .negInf
  else .fin rounded

theorem roundHalfEven_intCast (n : ℤ) : roundHalfEven n = n := by
  simp [roundHalfEven]

theorem spacing_natCast {n : ℕ} (hn : n < 2 ^ 53) : spacing n ≤ 0 := by
  have hlog : Nat.log 2 n < 53 := Nat.log_lt_of_lt_pow' (by decide) hn
  rw [spacing, Nat.abs_cast, Int.log_natCast]
  omega

/-- Whole numbers of 53 bits are doubles. -/
theorem toDouble_natCast {n : ℕ} (hn : n < 2 ^ 53) : toDouble n = .fin n := by
  obtain ⟨k, hk⟩ := Int.exists_eq_neg_ofNat (spacing_natCast hn)
  have hwhole : (n : ℚ) / 2 ^ (-(k : ℤ)) = ((n * 2 ^ k : ℕ) : ℤ) := by
    rw [zpow_neg, zpow_natCast, div_inv_eq_mul]
    push_cast
    rfl
  have hback : (((n * 2 ^ k : ℕ) : ℤ) : ℚ) * 2 ^ (-(k : ℤ)) = n := by
    rw [← hwhole, div_mul_cancel₀ _ (zpow_ne_zero _ two_ne_zero)]
  have hlt : (n : ℚ) < 2 ^ 1024 := by
    exact_mod_cast hn.trans (Nat.pow_lt_pow_right (by decide) (by decide))
  have hpos : -2 ^ 1024 < (n : ℚ) := lt_of_lt_of_le (by norm_num) n.cast_nonneg
  rw [toDouble, hk, hwhole, roundHalfEven_intCast]
  simp only [hback, if_neg (not_le.2 hlt), if_neg (not_le.2 hpos)]

/-! ### Literals -/

/-- What stands before the first of the symbols, and it with what follows. -/
def cutAt (marks text : List Char) : List Char × List Char :=
  (text.takeWhile (· ∉ marks), text.dropWhile (· ∉ marks))

/-- The digits after `e`, with their sign; no exponent is zero. -/
def exponent : List Char → Option ℤ
  | [] => some 0
  | _ :: '+' :: digits => (decimal digits).map fun n => (n : ℤ)
  | _ :: '-' :: digits => (decimal digits).map fun n => -(n : ℤ)
  | _ :: digits => (decimal digits).map fun n => (n : ℤ)

/-- `Infinity`, or digits with a fraction and an exponent. -/
def unsignedLiteral (text : List Char) : Option Numeric :=
  if text = "Infinity".toList then some .posInf
  else
    let (mantissa, power) := cutAt ['e', 'E'] text
    let (whole, fraction) := cutAt ['.'] mantissa
    (decimal (whole ++ fraction.tail)).bind fun digits =>
      (exponent power).map fun e : ℤ => toDouble ((digits : ℚ) * 10 ^ (e - (fraction.tail.length : ℤ)))

def negate : Numeric → Numeric
  | .nan => .nan
  | .negInf => .posInf
  | .fin q => .fin (-q)
  | .posInf => .negInf

def basedLiteral (base : ℕ) (text : List Char) : Option Numeric :=
  if text = [] then none
  else (text.mapM fun c => (hexDigit c).filter (· < base)).map fun digits =>
    toDouble (digits.foldl (fun n d => base * n + d) 0 : ℕ)

def literal : List Char → Option Numeric
  | '+' :: text => unsignedLiteral text
  | '-' :: text => (unsignedLiteral text).map negate
  | '0' :: 'x' :: text | '0' :: 'X' :: text => basedLiteral 16 text
  | '0' :: 'o' :: text | '0' :: 'O' :: text => basedLiteral 8 text
  | '0' :: 'b' :: text | '0' :: 'B' :: text => basedLiteral 2 text
  | text => unsignedLiteral text

/-- `Number(text)`: nothing but white space is zero. -/
def number (text : List Char) : Numeric :=
  if trimmed text = [] then .fin 0 else (literal (trimmed text)).getD .nan

example : ["", " 8 ", "08", "0x1F", "1e2", "25.5", ".5", "5.", "-1", "1 2", ".", "1e", "0x", "-0x1"].map
    (number ·.toList) = [.fin 0, .fin 8, .fin 8, .fin 31, .fin 100, .fin (51 / 2), .fin (1 / 2), .fin 5,
      .fin (-1), .nan, .nan, .nan, .nan, .nan] := by decide +kernel

/-! ### 32 bits -/

/-- `ToInt32`: the fraction is dropped, and what does not fit in 32 bits. -/
def toInt32 : Numeric → BitVec 32
  | .fin q => BitVec.ofInt 32 (q.num.tdiv q.den)
  | _ => 0

/-- `Number.isInteger`. -/
def isInteger : Numeric → Bool
  | .fin q => q.den = 1
  | _ => false

theorem toInt32_of_nonneg {q : ℚ} (hq : 0 ≤ q) : toInt32 (.fin q) = BitVec.ofNat 32 ⌊q⌋₊ := by
  have hfloor : q.num.tdiv q.den = (⌊q⌋₊ : ℤ) := by
    rw [Int.tdiv_eq_ediv_of_nonneg (Rat.num_nonneg.2 hq), Int.natCast_floor_eq_floor hq, Rat.floor_def']
  rw [toInt32, hfloor, BitVec.ofInt_natCast]

/-! ### Digits -/

variable {text : List Char}

theorem trimmed_digits (h : ∀ c ∈ text, c.isDigit = true) : trimmed text = text := by
  refine (WhiteSpace.trimmed_eq_self fun c hc => ?_).2 fun hends => ?_
  · exact WhiteSpace.isWhiteSpace_of_isDigit (h c (List.mem_of_mem_head? hc))
  · rw [WhiteSpace.EndsInWhiteSpace, Option.any_eq_true] at hends
    obtain ⟨c, hc, hwhite⟩ := hends
    rw [WhiteSpace.isWhiteSpace_of_isDigit (h c (List.mem_of_mem_getLast? hc))] at hwhite
    cases hwhite

theorem cutAt_digits {marks : List Char} (h : ∀ c ∈ text, c.isDigit = true)
    (hmarks : ∀ c ∈ marks, c.isDigit = false) : cutAt marks text = (text, []) := by
  have hfree : ∀ c ∈ text, decide (c ∉ marks) = true := by
    intro c hc
    refine decide_eq_true fun hmark => ?_
    have hdigit := h c hc
    rw [hmarks c hmark] at hdigit
    cases hdigit
  rw [cutAt, List.takeWhile_eq_self_iff.2 hfree, List.dropWhile_eq_nil_iff.2 hfree]

theorem literal_digits (h : ∀ c ∈ text, c.isDigit = true) : literal text = unsignedLiteral text := by
  unfold literal
  split <;> first | rfl | simp [Char.isDigit] at h

/-- Decimal digits alone are read as what they are worth. -/
theorem number_of_decimal {n : ℕ} (h : decimal text = some n) (hn : n < 2 ^ 53) :
    number text = .fin n := by
  obtain ⟨hne, hdigits⟩ := InternetAddress.decimal_chars h
  have hInfinity : text ≠ "Infinity".toList := by
    rintro rfl
    exact absurd (hdigits 'I' (by decide)) (by decide)
  rw [number, trimmed_digits hdigits, if_neg hne, literal_digits hdigits, unsignedLiteral,
    if_neg hInfinity, cutAt_digits hdigits (by simp)]
  simp only [cutAt_digits hdigits (show ∀ c ∈ ['.'], c.isDigit = false by simp), List.tail_nil,
    List.append_nil, h, exponent, Option.bind_some, Option.map_some, Option.getD_some, List.length_nil,
    Nat.cast_zero, sub_zero, zpow_zero, mul_one]
  exact toDouble_natCast hn

end UltraTorrent.Library.NumericLiteral
