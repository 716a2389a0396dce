import Mathlib.Data.List.DropRight
import Mathlib.Data.List.Infix

/-! White space and line ends of ECMAScript, and text without them at either end. -/
namespace UltraTorrent.Library.WhiteSpace

/-- What `\s` matches and `trim` takes away. -/
def isWhiteSpace (c : Char) : Bool :=
  (0x09 ≤ c.toNat && c.toNat ≤ 0x0d) || c.toNat = 0x20 || c.toNat = 0xa0 || c.toNat = 0x1680
    || (0x2000 ≤ c.toNat && c.toNat ≤ 0x200a) || c.toNat = 0x2028 || c.toNat = 0x2029
    || c.toNat = 0x202f || c.toNat = 0x205f || c.toNat = 0x3000 || c.toNat = 0xfeff

def trimmed (text : List Char) : List Char := (text.dropWhile isWhiteSpace).rdropWhile isWhiteSpace

/-- `text.trim()`. -/
def trim (text : String) : String := .ofList (trimmed text.toList)

def EndsInWhiteSpace (text : List Char) : Prop := text.getLast?.any isWhiteSpace = true

instance (text : List Char) : Decidable (EndsInWhiteSpace text) := inferInstanceAs (Decidable (_ = _))

theorem isWhiteSpace_of_isAlphanum {c : Char} (h : c.isAlphanum = true) : isWhiteSpace c = false := by
  have hranges : 65 ≤ c.toNat ∧ c.toNat ≤ 90 ∨ 97 ≤ c.toNat ∧ c.toNat ≤ 122 ∨
      48 ≤ c.toNat ∧ c.toNat ≤ 57 := by
    have hc : ((decide (65 ≤ c.toNat ∧ c.toNat ≤ 90) || decide (97 ≤ c.toNat) && decide (c.toNat ≤ 122)) ||
      decide (48 ≤ c.toNat) && decide (c.toNat ≤ 57)) = true := h
    simpa [or_assoc] using hc
  simp [isWhiteSpace]
  omega

theorem isWhiteSpace_of_isDigit {c : Char} (h : c.isDigit = true) : isWhiteSpace c = false :=
  isWhiteSpace_of_isAlphanum (by rw [Char.isAlphanum, h, Bool.or_true])

variable {text : List Char}

theorem trimmed_of_head (h : ∀ c ∈ text.head?, isWhiteSpace c = false) :
    trimmed text = text.rdropWhile isWhiteSpace := by
  cases text with
  | nil => rfl
  | cons c text => rw [trimmed, List.dropWhile_cons_of_neg (by simp [h c rfl])]

theorem rdropWhile_eq_self : text.rdropWhile isWhiteSpace = text ↔ ¬EndsInWhiteSpace text := by
  rcases List.eq_nil_or_concat' text with rfl | ⟨front, last, rfl⟩
  · simp [EndsInWhiteSpace]
  · simp [EndsInWhiteSpace, List.rdropWhile_eq_self_iff]

/-- Text that starts with none is left alone exactly when it ends in none. -/
theorem trimmed_eq_self (h : ∀ c ∈ text.head?, isWhiteSpace c = false) :
    trimmed text = text ↔ ¬EndsInWhiteSpace text := by
  rw [trimmed_of_head h, rdropWhile_eq_self]

end UltraTorrent.Library.WhiteSpace
