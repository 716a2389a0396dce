import Mathlib.Data.List.Basic
import Mathlib.Tactic.SplitIfs

/-! UTF-8 as bytes: a sequence is well-formed when it encodes scalar values, and the bytes that can
follow a lead byte are known by their ranges. -/
namespace UltraTorrent.Library.Utf8

def encode (text : List Char) : List UInt8 := text.flatMap String.utf8EncodeChar

/-- The encoding of some text: no overlong forms, no surrogates, nothing above the last code point. -/
def WellFormed (bytes : List UInt8) : Prop := ∃ text, encode text = bytes

/-- How many bytes come after a lead byte; `none` for one that leads nothing. -/
def trailing (lead : UInt8) : Option ℕ :=
  if lead < 0x80 then some 0
  else if 0xc2 ≤ lead ∧ lead ≤ 0xdf then some 1
  else if 0xe0 ≤ lead ∧ lead ≤ 0xef then some 2
  else if 0xf0 ≤ lead ∧ lead ≤ 0xf4 then some 3
  else none

def isTail (b : UInt8) : Bool := 0x80 ≤ b && b ≤ 0xbf

/-- After four of the lead bytes the second byte keeps out overlong forms, surrogates and what lies
above the last code point. -/
def maySecond (lead b : UInt8) : Bool :=
  isTail b && (lead ≠ 0xe0 || 0xa0 ≤ b) && (lead ≠ 0xed || b ≤ 0x9f) && (lead ≠ 0xf0 || 0x90 ≤ b)
    && (lead ≠ 0xf4 || b ≤ 0x8f)

def mayFollow (lead : UInt8) : List UInt8 → Bool
  | [] => true
  | second :: rest => maySecond lead second && rest.all isTail

variable {lead : UInt8} {rest more bytes : List UInt8} {n : ℕ}

theorem isTail_iff {b : UInt8} : isTail b = true ↔ 0x80 ≤ b.toNat ∧ b.toNat ≤ 0xbf := by
  simp [isTail, UInt8.le_iff_toNat_le]

theorem maySecond_iff {lead b : UInt8} : maySecond lead b = true ↔
    (0x80 ≤ b.toNat ∧ b.toNat ≤ 0xbf) ∧ (lead.toNat = 0xe0 → 0xa0 ≤ b.toNat) ∧
      (lead.toNat = 0xed → b.toNat ≤ 0x9f) ∧ (lead.toNat = 0xf0 → 0x90 ≤ b.toNat) ∧
      (lead.toNat = 0xf4 → b.toNat ≤ 0x8f) := by
  simp only [maySecond, Bool.and_eq_true, isTail_iff, Bool.or_eq_true, decide_eq_true_eq, ne_eq,
    UInt8.le_iff_toNat_le, ← UInt8.toNat_inj]
  simp only [UInt8.reduceToNat]
  omega

theorem trailing_iff : trailing lead = some n ↔
    n = 0 ∧ lead.toNat < 0x80 ∨ n = 1 ∧ 0xc2 ≤ lead.toNat ∧ lead.toNat ≤ 0xdf ∨
      n = 2 ∧ 0xe0 ≤ lead.toNat ∧ lead.toNat ≤ 0xef ∨ n = 3 ∧ 0xf0 ≤ lead.toNat ∧ lead.toNat ≤ 0xf4 := by
  unfold trailing
  simp only [UInt8.le_iff_toNat_le, UInt8.lt_iff_toNat_lt, UInt8.reduceToNat]
  split_ifs <;> simp <;> omega

/-- A character's bytes are a lead byte and what may follow it. -/
theorem utf8EncodeChar_eq (c : Char) : ∃ lead rest, String.utf8EncodeChar c = lead :: rest ∧
    trailing lead = some rest.length ∧ mayFollow lead rest = true := by
  have hvalid : c.val.toNat < 0xd800 ∨ 0xdfff < c.val.toNat ∧ c.val.toNat < 0x110000 := c.valid
  unfold String.utf8EncodeChar
  dsimp only
  split_ifs
  all_goals
    refine ⟨_, _, rfl, ?_, ?_⟩
    · rw [trailing_iff]
      simp only [List.length_cons, List.length_nil, UInt8.toNat_ofNat', true_and]
      omega
    · simp only [mayFollow, List.all_cons, List.all_nil, Bool.and_eq_true, maySecond_iff, isTail_iff,
        UInt8.toNat_ofNat', and_true]
      try omega

theorem mayFollow_cons {b : UInt8} : mayFollow lead (b :: rest) = true ↔
    maySecond lead b = true ∧ ∀ c ∈ rest, isTail c = true := by
  simp [mayFollow]

theorem exists_utf8EncodeChar (htrailing : trailing lead = some rest.length)
    (hfollow : mayFollow lead rest = true) : ∃ c, String.utf8EncodeChar c = lead :: rest := by
  have hbyte : ∀ {n : ℕ} (b : UInt8), n = b.toNat → UInt8.ofNat n = b := by
    rintro n b rfl
    exact UInt8.ofNat_toNat
  have hchar : ∀ v : ℕ, v < 0xd800 ∨ 0xdfff < v ∧ v < 0x110000 → ∃ c : Char, c.val.toNat = v :=
    fun v hv => ⟨Char.ofNatAux v hv, rfl⟩
  rw [trailing_iff] at htrailing
  rcases rest with _ | ⟨b, _ | ⟨c, _ | ⟨d, _ | ⟨e, rest⟩⟩⟩⟩ <;>
    simp only [List.length_cons, List.length_nil] at htrailing
  · obtain ⟨v, hv⟩ := hchar lead.toNat (by omega)
    refine ⟨v, ?_⟩
    rw [String.utf8EncodeChar, hv, if_pos (by omega), hbyte lead rfl]
  · obtain ⟨hb, -⟩ := mayFollow_cons.1 hfollow
    rw [maySecond_iff] at hb
    obtain ⟨v, hv⟩ := hchar ((lead.toNat - 0xc0) * 64 + (b.toNat - 0x80)) (by omega)
    refine ⟨v, ?_⟩
    rw [String.utf8EncodeChar, hv, if_neg (by omega), if_pos (by omega), hbyte lead (by omega),
      hbyte b (by omega)]
  · obtain ⟨hb, hrest⟩ := mayFollow_cons.1 hfollow
    have hc := isTail_iff.1 (hrest c (by simp))
    rw [maySecond_iff] at hb
    obtain ⟨v, hv⟩ := hchar ((lead.toNat - 0xe0) * 4096 + (b.toNat - 0x80) * 64 + (c.toNat - 0x80))
      (by omega)
    refine ⟨v, ?_⟩
    rw [String.utf8EncodeChar, hv, if_neg (by omega), if_neg (by omega), if_pos (by omega),
      hbyte lead (by omega), hbyte b (by omega), hbyte c (by omega)]
  · obtain ⟨hb, hrest⟩ := mayFollow_cons.1 hfollow
    have hc := isTail_iff.1 (hrest c (by simp))
    have hd := isTail_iff.1 (hrest d (by simp))
    rw [maySecond_iff] at hb
    obtain ⟨v, hv⟩ := hchar ((lead.toNat - 0xf0) * 262144 + (b.toNat - 0x80) * 4096 +
      (c.toNat - 0x80) * 64 + (d.toNat - 0x80)) (by omega)
    refine ⟨v, ?_⟩
    rw [String.utf8EncodeChar, hv, if_neg (by omega), if_neg (by omega), if_neg (by omega),
      hbyte lead (by omega), hbyte b (by omega), hbyte c (by omega), hbyte d (by omega)]
  · omega

/-! ### Sequences that are cut off -/

theorem mayFollow_of_append (h : mayFollow lead (rest ++ more) = true) : mayFollow lead rest = true := by
  cases rest with
  | nil => rfl
  | cons b rest =>
    rw [List.cons_append, mayFollow_cons] at h
    exact mayFollow_cons.2 ⟨h.1, fun c hc => h.2 c (List.mem_append_left _ hc)⟩

theorem exists_mayFollow_append (lead : UInt8) (h : mayFollow lead rest = true)
    (hn : rest.length ≤ n) : ∃ more, (rest ++ more).length = n ∧ mayFollow lead (rest ++ more) = true := by
  have htail : isTail 0x80 = true := by decide
  cases rest with
  | cons b rest =>
    obtain ⟨hb, hrest⟩ := mayFollow_cons.1 h
    refine ⟨List.replicate (n - (b :: rest).length) 0x80, ?_, mayFollow_cons.2 ⟨hb, fun c hc => ?_⟩⟩
    · rw [List.length_append, List.length_replicate]
      omega
    · rcases List.mem_append.1 hc with hc | hc
      · exact hrest c hc
      · rw [List.eq_of_mem_replicate hc]
        exact htail
  | nil =>
    cases n with
    | zero => exact ⟨[], rfl, rfl⟩
    | succ n =>
      have hsecond : ∃ b, maySecond lead b = true := by
        by_cases h0 : lead.toNat = 0xe0
        · exact ⟨0xa0, maySecond_iff.2 (by simp [h0])⟩
        by_cases h1 : lead.toNat = 0xf0
        · exact ⟨0x90, maySecond_iff.2 (by simp [h1])⟩
        · exact ⟨0x80, maySecond_iff.2 (by simp [h0, h1])⟩
      obtain ⟨b, hb⟩ := hsecond
      refine ⟨b :: List.replicate n 0x80, by simp, mayFollow_cons.2 ⟨hb, fun c hc => ?_⟩⟩
      rw [List.eq_of_mem_replicate hc]
      exact htail

theorem encode_cons (c : Char) (text : List Char) :
    encode (c :: text) = String.utf8EncodeChar c ++ encode text := List.flatMap_cons

theorem encode_append (text text' : List Char) : encode (text ++ text') = encode text ++ encode text' :=
  List.flatMap_append

theorem wellFormed_nil : WellFormed [] := ⟨[], rfl⟩

theorem WellFormed.append {front : List UInt8} (hfront : WellFormed front) (h : WellFormed rest) :
    WellFormed (front ++ rest) := by
  obtain ⟨text, rfl⟩ := hfront
  obtain ⟨text', rfl⟩ := h
  exact ⟨text ++ text', encode_append text text'⟩

theorem wellFormed_cons : WellFormed (lead :: bytes) ↔ ∃ n, trailing lead = some n ∧
    n ≤ bytes.length ∧ mayFollow lead (bytes.take n) = true ∧ WellFormed (bytes.drop n) := by
  constructor
  · rintro ⟨text, htext⟩
    cases text with
    | nil => exact absurd htext (by simp [encode])
    | cons c text =>
      obtain ⟨lead', rest, hc, htrailing, hfollow⟩ := utf8EncodeChar_eq c
      rw [encode_cons, hc, List.cons_append] at htext
      obtain ⟨rfl, rfl⟩ := List.cons.inj htext
      refine ⟨rest.length, htrailing, by simp, ?_, ?_⟩
      · rwa [List.take_left]
      · rw [List.drop_left]
        exact ⟨text, rfl⟩
  · rintro ⟨n, htrailing, hn, hfollow, hrest⟩
    have hlength : (bytes.take n).length = n := List.length_take_of_le hn
    obtain ⟨c, hc⟩ := exists_utf8EncodeChar (hlength.symm ▸ htrailing) hfollow
    have hchar : WellFormed (lead :: bytes.take n) := ⟨[c], by rw [encode_cons, hc]; simp [encode]⟩
    have happend := hchar.append hrest
    rwa [List.cons_append, List.take_append_drop] at happend

theorem wellFormed_of_append {front : List UInt8} (hfront : WellFormed front)
    (h : WellFormed (front ++ rest)) : WellFormed rest := by
  obtain ⟨text, rfl⟩ := hfront
  induction text with
  | nil => exact h
  | cons c text ih =>
    obtain ⟨lead, tail, hc, htrailing, -⟩ := utf8EncodeChar_eq c
    rw [encode_cons, hc, List.append_assoc, List.cons_append, wellFormed_cons] at h
    obtain ⟨n, hn, -, -, hrest⟩ := h
    rw [htrailing, Option.some_inj] at hn
    rw [← hn, List.drop_left] at hrest
    exact ih hrest

theorem cut_iff (htrailing : trailing lead = some n) (hn : rest.length ≤ n) :
    (∃ more, WellFormed (lead :: rest ++ more)) ↔ mayFollow lead rest = true := by
  constructor
  · rintro ⟨more, hmore⟩
    rw [List.cons_append, wellFormed_cons] at hmore
    obtain ⟨m, hm, -, hfollow, -⟩ := hmore
    rw [htrailing, Option.some_inj] at hm
    rw [← hm, List.take_append, List.take_of_length_le hn] at hfollow
    exact mayFollow_of_append hfollow
  · intro h
    obtain ⟨more, hlength, hfollow⟩ := exists_mayFollow_append lead h hn
    refine ⟨more, ?_⟩
    rw [List.cons_append, wellFormed_cons]
    refine ⟨n, htrailing, Nat.le_of_eq hlength.symm, ?_, ?_⟩
    · rwa [← hlength, List.take_length]
    · rw [← hlength, List.drop_length]
      exact wellFormed_nil

/-! ### Decoding -/

/-- How many of the bytes behind a lead byte it can claim when they are no character. -/
def claimed (lead : UInt8) (bytes : List UInt8) : ℕ :=
  (List.range ((trailing lead).getD 0)).countP fun k => k < bytes.length && mayFollow lead (bytes.take (k + 1))

/-- Each byte that leads nothing, and each character that is cut short, becomes a replacement character. -/
def decodeWith : ℕ → List UInt8 → List Char
  | _, [] => []
  | 0, _ => []
  | fuel + 1, lead :: bytes => match (lead :: bytes).toByteArray.utf8DecodeChar? 0 with
    | some c => c :: decodeWith fuel ((lead :: bytes).drop c.utf8Size)
    | none => '\uFFFD' :: decodeWith fuel (bytes.drop (claimed lead bytes))

def decode (bytes : List UInt8) : List Char := decodeWith bytes.length bytes

example : decode [0x41, 0xe2, 0x82, 0xc3, 0xa9, 0xff] = ['A', '\uFFFD', 'é', '\uFFFD'] := by decide +kernel

theorem decodeWith_encode (text : List Char) {fuel : ℕ} (h : (encode text).length ≤ fuel) :
    decodeWith fuel (encode text) = text := by
  induction text generalizing fuel with
  | nil => cases fuel <;> rfl
  | cons c text ih =>
    have hsize := String.length_utf8EncodeChar c
    have hdecoded : (encode (c :: text)).toByteArray.utf8DecodeChar? 0 = some c := by
      rw [encode_cons, List.toByteArray_append]
      exact ByteArray.utf8DecodeChar?_utf8EncodeChar_append
    have hrest : (encode (c :: text)).drop c.utf8Size = encode text := by
      rw [encode_cons, ← hsize, List.drop_left]
    obtain ⟨lead, rest, hlead⟩ : ∃ lead rest, encode (c :: text) = lead :: rest := by
      obtain ⟨lead, rest, hc, -, -⟩ := utf8EncodeChar_eq c
      exact ⟨lead, rest ++ encode text, by rw [encode_cons, hc, List.cons_append]⟩
    have hlength : (encode text).length < (encode (c :: text)).length := by
      rw [encode_cons, List.length_append, hsize]
      exact Nat.lt_add_of_pos_left c.utf8Size_pos
    cases fuel with
    | zero => omega
    | succ fuel =>
      rw [hlead] at hdecoded hrest ⊢
      rw [decodeWith, hdecoded]
      dsimp only
      rw [hrest, ih (by omega)]

/-- Text comes back from its bytes. -/
theorem decode_encode (text : List Char) : decode (encode text) = text := decodeWith_encode text (Nat.le_refl _)

end UltraTorrent.Library.Utf8
