import UltraTorrent.Library.InternetAddress

/-! `decodeURIComponent`, and the ways a text can be written for it: each character as itself or as
the octets of its UTF-8. -/
namespace UltraTorrent.Library.UriComponent

open InternetAddress

/-- `%` and two hexadecimal digits at the front of a text. -/
def octet : List Char → Option ℕ
  | '%' :: high :: low :: _ => do
    let h ← hexDigit high
    let l ← hexDigit low
    some (16 * h + l)
  | _ => none

def octets : ℕ → List Char → Option (List ℕ)
  | 0, _ => some []
  | n + 1, text => do
    let b ← octet text
    let bs ← octets n (text.drop 3)
    some (b :: bs)

/-- The leading ones of an octet; five of them stand for more. -/
def leadingOnes (b : ℕ) : ℕ :=
  if b < 0x80 then 0
  else if b < 0xC0 then 1
  else if b < 0xE0 then 2
  else if b < 0xF0 then 3
  else if b < 0xF8 then 4
  else 5

/-- The character escaped at the front of a text, and how many octets it takes. -/
def unescape (text : List Char) : Option (Char × ℕ) := do
  let b ← octet text
  let n := leadingOnes b
  if n = 0 then some (Char.ofNat b, 1)
  else if n = 1 ∨ 4 < n then none
  else
    let bs ← octets n text
    let c ← (bs.map UInt8.ofNat).toByteArray.utf8DecodeChar? 0
    some (c, n)

/-- The text from the next character on that is not passed over. -/
def decodeFrom : ℕ → List Char → Option (List Char)
  | _, [] => some []
  | skip + 1, _ :: rest => decodeFrom skip rest
  | 0, c :: rest =>
    if c ≠ '%' then (decodeFrom 0 rest).map (c :: ·)
    else do
      let (d, n) ← unescape (c :: rest)
      (decodeFrom (3 * n - 1) rest).map (d :: ·)

/-- `none` for a `URIError`. -/
def decodeURIComponent (text : List Char) : Option (List Char) := decodeFrom 0 text

/-- The digits of an octet are written in either case. -/
inductive Spells : List UInt8 → List Char → Prop where
  | nil : Spells [] []
  | cons {b : UInt8} {high low : Char} {bytes : List UInt8} {written : List Char} :
      hexDigit high = some (b.toNat / 16) → hexDigit low = some (b.toNat % 16) →
      Spells bytes written → Spells (b :: bytes) ('%' :: high :: low :: written)

/-- A text and a way it can be written. -/
inductive Escapes : List Char → List Char → Prop where
  | nil : Escapes [] []
  | plain {c : Char} {text written : List Char} : c ≠ '%' → Escapes text written →
      Escapes (c :: text) (c :: written)
  | escaped {c : Char} {spelled text written : List Char} :
      Spells (String.utf8EncodeChar c) spelled → Escapes text written →
      Escapes (c :: text) (spelled ++ written)

variable {c : Char} {bytes : List UInt8} {text written : List Char}

/-! ### Octets -/

theorem length_of_spells (h : Spells bytes written) : written.length = 3 * bytes.length := by
  induction h with
  | nil => rfl
  | cons hhigh hlow hrest ih =>
    simp only [List.length_cons, ih]
    omega

theorem octet_spells {b : UInt8} (h : Spells (b :: bytes) written) (rest : List Char) :
    octet (written ++ rest) = some b.toNat := by
  cases h with
  | cons hhigh hlow hrest =>
    simp only [List.cons_append, octet, hhigh, hlow, Option.bind_eq_bind, Option.bind_some]
    rw [Nat.div_add_mod]

theorem octets_spells (h : Spells bytes written) (rest : List Char) :
    octets bytes.length (written ++ rest) = some (bytes.map UInt8.toNat) := by
  induction h with
  | nil => rfl
  | cons hhigh hlow hrest ih =>
    have hoctet := octet_spells (hrest.cons hhigh hlow) rest
    rw [List.length_cons, octets, hoctet]
    simp only [List.cons_append, List.drop_succ_cons, List.drop_zero, ih, Option.bind_eq_bind,
      Option.bind_some, List.map_cons]

/-- The first octet of a character tells how many there are. -/
theorem leadingOnes_utf8EncodeChar (c : Char) : ∃ b bytes, String.utf8EncodeChar c = b :: bytes ∧
    (bytes = [] ∧ leadingOnes b.toNat = 0 ∧ Char.ofNat b.toNat = c ∨
      leadingOnes b.toNat = bytes.length + 1 ∧ 2 ≤ bytes.length + 1 ∧ bytes.length + 1 ≤ 4) := by
  unfold String.utf8EncodeChar
  dsimp only
  split_ifs with h1 h2 h3
  · have hascii : c.toNat ≤ 0x7f := h1
    have hb : (UInt8.ofNat c.val.toNat).toNat = c.toNat := by
      rw [UInt8.toNat_ofNat']
      exact Nat.mod_eq_of_lt (by omega)
    refine ⟨_, [], rfl, .inl ⟨rfl, ?_, ?_⟩⟩
    · rw [hb, leadingOnes, if_pos (by omega)]
    · rw [hb, Char.ofNat_toNat]
  all_goals
    refine ⟨_, _, rfl, .inr ⟨?_, by simp, by simp⟩⟩
    rw [UInt8.toNat_ofNat', leadingOnes]
    simp only [List.length_cons, List.length_nil]
    split_ifs <;> omega

theorem unescape_spells (h : Spells (String.utf8EncodeChar c) written) (rest : List Char) :
    unescape (written ++ rest) = some (c, (String.utf8EncodeChar c).length) := by
  obtain ⟨b, bytes, hbytes, hones⟩ := leadingOnes_utf8EncodeChar c
  have hchar : ((String.utf8EncodeChar c).map UInt8.toNat).map UInt8.ofNat =
      String.utf8EncodeChar c := by
    rw [List.map_map]
    exact (List.map_congr_left fun b _ => UInt8.ofNat_toNat).trans (List.map_id _)
  have hoctets := octets_spells h rest
  rw [hbytes] at h
  have hoctet := octet_spells h rest
  rcases hones with ⟨rfl, hones, hc⟩ | ⟨hones, hlow, hhigh⟩
  · rw [unescape, hoctet, hbytes]
    simp only [Option.bind_eq_bind, Option.bind_some, hones, if_true, hc, List.length_singleton]
  · have hlength : leadingOnes b.toNat = (String.utf8EncodeChar c).length := by
      rw [hones, hbytes, List.length_cons]
    have hdecode : (String.utf8EncodeChar c).toByteArray.utf8DecodeChar? 0 = some c := by
      rw [← List.utf8Encode_singleton]
      exact List.utf8DecodeChar?_utf8Encode_singleton
    rw [unescape, hoctet]
    simp only [Option.bind_eq_bind, Option.bind_some]
    rw [if_neg (by omega), if_neg (by omega), hlength, hoctets]
    simp only [Option.bind_some, hchar, hdecode]

/-! ### Texts -/

theorem decodeFrom_length (word rest : List Char) :
    decodeFrom word.length (word ++ rest) = decodeFrom 0 rest := by
  induction word with
  | nil => rfl
  | cons c word ih => rw [List.length_cons, List.cons_append, decodeFrom, ih]

theorem decodeURIComponent_escapes (h : Escapes text written) :
    decodeURIComponent written = some text := by
  induction h with
  | nil => rfl
  | plain hc _ ih =>
    rw [decodeURIComponent, decodeFrom, if_pos hc, ← decodeURIComponent, ih, Option.map_some]
  | @escaped c spelled text written hspelled _ ih =>
    have hlength := length_of_spells hspelled
    have hunescape := unescape_spells hspelled written
    obtain ⟨b, bytes, hbytes, -⟩ := leadingOnes_utf8EncodeChar c
    rw [hbytes] at hspelled
    cases hspelled with
    | @cons b high low bytes tail hhigh hlow hrest =>
      have hskip : 3 * (String.utf8EncodeChar c).length - 1 = (high :: low :: tail).length := by
        rw [← hlength]
        rfl
      rw [List.cons_append] at hunescape
      rw [decodeURIComponent, List.cons_append, decodeFrom, if_neg (by simp), hunescape]
      simp only [Option.bind_eq_bind, Option.bind_some]
      rw [hskip, decodeFrom_length, ← decodeURIComponent, ih, Option.map_some]

theorem decodeURIComponent_plain (h : '%' ∉ text) : decodeURIComponent text = some text := by
  induction text with
  | nil => rfl
  | cons c text ih =>
    rw [List.mem_cons, not_or] at h
    rw [decodeURIComponent, decodeFrom, if_pos (Ne.symm h.1), ← decodeURIComponent, ih h.2,
      Option.map_some]

theorem eq_of_escapes (h : Escapes text written) (hplain : '%' ∉ written) : written = text :=
  Option.some_injective _
    ((decodeURIComponent_plain hplain).symm.trans (decodeURIComponent_escapes h))

theorem escapes_plain (h : '%' ∉ text) : Escapes text text := by
  induction text with
  | nil => exact .nil
  | cons c text ih =>
    rw [List.mem_cons, not_or] at h
    exact .plain (Ne.symm h.1) (ih h.2)

theorem Escapes.append {more moreWritten : List Char} (h : Escapes text written)
    (hmore : Escapes more moreWritten) : Escapes (text ++ more) (written ++ moreWritten) := by
  induction h with
  | nil => exact hmore
  | plain hc _ ih => exact ih.plain hc
  | escaped hspelled _ ih =>
    rw [List.cons_append, List.append_assoc]
    exact ih.escaped hspelled

end UltraTorrent.Library.UriComponent
