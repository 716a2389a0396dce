import Mathlib.Data.Nat.Bitwise
import UltraTorrent.Library.Utf8

/-! The preview decides what a file's bytes say. It reads a window of a larger file, so the last
character is routinely cut. -/
namespace UltraTorrent.Files.PreviewText

open Library.Utf8

/-- What a lead byte above ASCII announces. -/
structure Sequence where
  extra : ℕ
  /-- The least code point such a sequence may stand for. -/
  min : ℕ
  /-- The bits of the lead byte. -/
  cp : ℕ

def sequenceOf (b : UInt8) : Option Sequence :=
  if 0xc2 ≤ b ∧ b ≤ 0xdf then some ⟨1, 0x80, b.toNat &&& 0x1f⟩
  else if 0xe0 ≤ b ∧ b ≤ 0xef then some ⟨2, 0x800, b.toNat &&& 0x0f⟩
  else if 0xf0 ≤ b ∧ b ≤ 0xf4 then some ⟨3, 0x10000, b.toNat &&& 0x07⟩
  else none

/-- The code point with the bits of the following bytes, `none` when one of them is no such byte. -/
def codePoint (cp : ℕ) : List UInt8 → Option ℕ
  | [] => some cp
  | c :: rest => if c < 0x80 ∨ 0xbf < c then none else codePoint (cp <<< 6 ||| (c.toNat &&& 0x3f)) rest

/-- The scan from the next byte on that does not belong to the sequence before. -/
def scan : ℕ → List UInt8 → Bool
  | _, [] => true
  | skip + 1, _ :: rest => scan skip rest
  | 0, b :: rest =>
    if b < 0x80 then scan 0 rest
    else match sequenceOf b with
      | none => false
      | some s =>
        -- A truncated final sequence is not a failure.
        if rest.length < s.extra then true
        else match codePoint s.cp (rest.take s.extra) with
          | none => false
          | some cp =>
            if cp < s.min then false
            else if 0xd800 ≤ cp ∧ cp ≤ 0xdfff then false
            else if 0x10ffff < cp then false
            else scan s.extra rest

def isValidUtf8 (buf : List UInt8) : Bool := scan 0 buf

/-! ### What the scan accepts -/

variable {b lead : UInt8} {rest buf : List UInt8} {n : ℕ}

theorem scan_drop (skip : ℕ) (buf : List UInt8) : scan skip buf = scan 0 (buf.drop skip) := by
  induction skip generalizing buf with
  | zero => rfl
  | succ skip ih =>
    cases buf with
    | nil => rfl
    | cons b rest => rw [scan, ih, List.drop_succ_cons]

theorem bits_append (cp : ℕ) (c : UInt8) : cp <<< 6 ||| (c.toNat &&& 0x3f) = cp * 64 + c.toNat % 64 := by
  have hand : c.toNat &&& 0x3f = c.toNat % 64 := Nat.and_two_pow_sub_one_eq_mod c.toNat 6
  rw [hand, ← Nat.shiftLeft_add_eq_or_of_lt (Nat.mod_lt _ (by decide)), Nat.shiftLeft_eq]

theorem codePoint_eq_some {cp v : ℕ} : codePoint cp rest = some v ↔
    rest.all isTail = true ∧ v = rest.foldl (fun cp c => cp * 64 + c.toNat % 64) cp := by
  induction rest generalizing cp with
  | nil => exact ⟨fun h => ⟨rfl, (Option.some.inj h).symm⟩, fun h => congrArg some h.2.symm⟩
  | cons c rest ih =>
    have htail : (c < 0x80 ∨ 0xbf < c) ↔ ¬ isTail c = true := by
      rw [isTail_iff, UInt8.lt_iff_toNat_lt, UInt8.lt_iff_toNat_lt]
      simp only [UInt8.reduceToNat]
      omega
    rw [codePoint, List.all_cons, List.foldl_cons, ← bits_append, Bool.and_eq_true]
    by_cases hc : isTail c = true
    · rw [if_neg (by rwa [htail, not_not]), ih]
      simp [hc]
    · rw [if_pos (htail.2 hc)]
      simp [hc]

theorem trailing_eq (b : UInt8) :
    trailing b = if b < 0x80 then some 0 else (sequenceOf b).map (·.extra) := by
  unfold trailing sequenceOf
  split_ifs <;> rfl

/-- The three ways a sequence can start, with the bits of its lead byte. -/
theorem sequenceOf_cases {s : Sequence} (h : sequenceOf b = some s) :
    s = ⟨1, 0x80, b.toNat % 32⟩ ∧ 0xc2 ≤ b.toNat ∧ b.toNat ≤ 0xdf ∨
      s = ⟨2, 0x800, b.toNat % 16⟩ ∧ 0xe0 ≤ b.toNat ∧ b.toNat ≤ 0xef ∨
      s = ⟨3, 0x10000, b.toNat % 8⟩ ∧ 0xf0 ≤ b.toNat ∧ b.toNat ≤ 0xf4 := by
  have h5 : b.toNat &&& 0x1f = b.toNat % 32 := Nat.and_two_pow_sub_one_eq_mod _ 5
  have h4 : b.toNat &&& 0x0f = b.toNat % 16 := Nat.and_two_pow_sub_one_eq_mod _ 4
  have h3 : b.toNat &&& 0x07 = b.toNat % 8 := Nat.and_two_pow_sub_one_eq_mod _ 3
  unfold sequenceOf at h
  rw [h5, h4, h3] at h
  simp only [UInt8.le_iff_toNat_le, UInt8.reduceToNat] at h
  split_ifs at h with hone htwo hthree <;> cases h
  · exact .inl ⟨rfl, hone⟩
  · exact .inr (.inl ⟨rfl, htwo⟩)
  · exact .inr (.inr ⟨rfl, hthree⟩)

theorem checks_iff {s : Sequence} (hs : sequenceOf b = some s) (hlength : rest.length = s.extra) :
    (∃ cp, codePoint s.cp rest = some cp ∧ s.min ≤ cp ∧ ¬ (0xd800 ≤ cp ∧ cp ≤ 0xdfff) ∧
      cp ≤ 0x10ffff) ↔ mayFollow b rest = true := by
  have harith : (∃ cp, codePoint s.cp rest = some cp ∧ s.min ≤ cp ∧ ¬ (0xd800 ≤ cp ∧ cp ≤ 0xdfff) ∧
      cp ≤ 0x10ffff) ↔ rest.all isTail = true ∧
        s.min ≤ rest.foldl (fun cp c => cp * 64 + c.toNat % 64) s.cp ∧
        ¬ (0xd800 ≤ rest.foldl (fun cp c => cp * 64 + c.toNat % 64) s.cp ∧
          rest.foldl (fun cp c => cp * 64 + c.toNat % 64) s.cp ≤ 0xdfff) ∧
        rest.foldl (fun cp c => cp * 64 + c.toNat % 64) s.cp ≤ 0x10ffff := by
    simp only [codePoint_eq_some, and_assoc, exists_and_left, exists_eq_left]
  rw [harith]
  rcases sequenceOf_cases hs with ⟨rfl, hlow, hhigh⟩ | ⟨rfl, hlow, hhigh⟩ | ⟨rfl, hlow, hhigh⟩
  · obtain ⟨c, rfl⟩ := List.length_eq_one_iff.1 hlength
    simp only [mayFollow, List.all_cons, List.all_nil, Bool.and_true, maySecond_iff, isTail_iff,
      List.foldl_cons, List.foldl_nil]
    omega
  · obtain ⟨c, d, rfl⟩ := List.length_eq_two.1 hlength
    simp only [mayFollow, List.all_cons, List.all_nil, Bool.and_true, Bool.and_eq_true, maySecond_iff,
      isTail_iff, List.foldl_cons, List.foldl_nil]
    omega
  · obtain ⟨c, d, e, rfl⟩ := List.length_eq_three.1 hlength
    simp only [mayFollow, List.all_cons, List.all_nil, Bool.and_true, Bool.and_eq_true, maySecond_iff,
      isTail_iff, List.foldl_cons, List.foldl_nil]
    omega

theorem scan_cons (b : UInt8) (rest : List UInt8) : scan 0 (b :: rest) = true ↔
    ∃ n, trailing b = some n ∧
      (rest.length < n ∨ mayFollow b (rest.take n) = true ∧ scan 0 (rest.drop n) = true) := by
  rw [scan, trailing_eq]
  by_cases hascii : b < 0x80
  · simp [hascii, mayFollow]
  · rw [if_neg hascii, if_neg hascii]
    cases hs : sequenceOf b with
    | none => simp
    | some s =>
      have hchecks (hlength : (rest.take s.extra).length = s.extra) := checks_iff hs hlength
      simp only [Option.map_some, Option.some_inj, exists_eq_left']
      by_cases hcut : rest.length < s.extra
      · simp [hcut]
      · rw [if_neg hcut, ← hchecks (List.length_take_of_le (not_lt.1 hcut)), scan_drop]
        cases codePoint s.cp (rest.take s.extra) with
        | none => simp [hcut]
        | some cp =>
          simp only [Option.some_inj, exists_eq_left', hcut, false_or]
          split_ifs with hmin hsurrogate hmax
          · simp [not_le.2 hmin]
          · simp [hsurrogate]
          · simp [not_le.2 hmax]
          · simp [not_lt.1 hmin, hsurrogate, not_lt.1 hmax]

/-- The bytes end, after whole characters, in a lead byte with fewer bytes than it calls for. -/
def EndsCut (buf : List UInt8) : Prop :=
  ∃ whole lead rest n, WellFormed whole ∧ buf = whole ++ lead :: rest ∧ trailing lead = some n ∧
    rest.length < n

theorem EndsCut.append {whole : List UInt8} (hwhole : WellFormed whole) (h : EndsCut rest) :
    EndsCut (whole ++ rest) := by
  obtain ⟨whole', lead, tail, n, hwhole', rfl, htrailing, hn⟩ := h
  exact ⟨whole ++ whole', lead, tail, n, hwhole.append hwhole', (List.append_assoc ..).symm, htrailing, hn⟩

theorem wellFormed_or_endsCut (h : isValidUtf8 buf = true) : WellFormed buf ∨ EndsCut buf := by
  induction hlength : buf.length using Nat.strong_induction_on generalizing buf with
  | _ length ih =>
    subst hlength
    cases buf with
    | nil => exact .inl wellFormed_nil
    | cons b rest =>
      obtain ⟨n, htrailing, hcut | ⟨hfollow, hrest⟩⟩ := (scan_cons b rest).1 h
      · exact .inr ⟨[], b, rest, n, wellFormed_nil, rfl, htrailing, hcut⟩
      · by_cases hn : n ≤ rest.length
        · have hchar : WellFormed (b :: rest.take n) := by
            rw [wellFormed_cons]
            refine ⟨n, htrailing, (List.length_take_of_le hn).ge, ?_, ?_⟩
            · rwa [List.take_take, min_self]
            · rw [List.drop_eq_nil_of_le (List.length_take_le _ _)]
              exact wellFormed_nil
          have hsplit : b :: rest = b :: rest.take n ++ rest.drop n := by
            rw [List.cons_append, List.take_append_drop]
          rw [hsplit]
          refine (ih _ ?_ hrest rfl).imp hchar.append (EndsCut.append hchar)
          rw [List.length_drop, List.length_cons]
          omega
        · exact .inr ⟨[], b, rest, n, wellFormed_nil, rfl, htrailing, not_le.1 hn⟩

theorem isValidUtf8_append {whole : List UInt8} (hwhole : WellFormed whole)
    (h : isValidUtf8 rest = true) : isValidUtf8 (whole ++ rest) = true := by
  obtain ⟨text, rfl⟩ := hwhole
  induction text with
  | nil => exact h
  | cons c text ih =>
    obtain ⟨lead, tail, hc, htrailing, hfollow⟩ := utf8EncodeChar_eq c
    rw [encode_cons, hc, List.append_assoc, List.cons_append, isValidUtf8, scan_cons]
    refine ⟨tail.length, htrailing, .inr ⟨?_, ?_⟩⟩
    · rwa [List.take_left]
    · rw [List.drop_left]
      exact ih

theorem isValidUtf8_of_endsCut (h : EndsCut buf) : isValidUtf8 buf = true := by
  obtain ⟨whole, lead, rest, n, hwhole, rfl, htrailing, hn⟩ := h
  exact isValidUtf8_append hwhole ((scan_cons lead rest).2 ⟨n, htrailing, .inl hn⟩)

/-- What begins a well-formed sequence is well-formed or cut. -/
theorem isValidUtf8_of_prefix {more : List UInt8} (h : WellFormed (buf ++ more)) :
    isValidUtf8 buf = true := by
  obtain ⟨text, htext⟩ := h
  induction text generalizing buf with
  | nil =>
    rw [(List.append_eq_nil_iff.1 htext.symm).1]
    rfl
  | cons c text ih =>
    obtain ⟨lead, tail, hc, htrailing, hfollow⟩ := utf8EncodeChar_eq c
    rw [encode_cons, hc, List.cons_append] at htext
    cases buf with
    | nil => rfl
    | cons b rest =>
      rw [List.cons_append, List.cons.injEq] at htext
      obtain ⟨rfl, htext⟩ := htext
      refine (scan_cons lead rest).2 ⟨tail.length, htrailing, ?_⟩
      by_cases hcut : rest.length < tail.length
      · exact .inl hcut
      · have htake := congrArg (List.take tail.length) htext
        have hdrop := congrArg (List.drop tail.length) htext
        rw [List.take_left, List.take_append_of_le_length (not_lt.1 hcut)] at htake
        rw [List.drop_left, List.drop_append_of_le_length (not_lt.1 hcut)] at hdrop
        exact .inr ⟨htake ▸ hfollow, ih hdrop⟩

/-- The answer is right exactly when a sequence that the end of the buffer cuts is cut among bytes
that may follow its lead byte: those are not looked at. -/
theorem isValidUtf8_exact (buf : List UInt8) :
    (isValidUtf8 buf = true ↔ ∃ more, WellFormed (buf ++ more)) ↔
      ∀ whole lead rest n, WellFormed whole → buf = whole ++ lead :: rest → trailing lead = some n →
        rest.length < n → mayFollow lead rest = true := by
  constructor
  · rintro hexact whole lead rest n hwhole rfl htrailing hn
    obtain ⟨more, hmore⟩ := hexact.1 (isValidUtf8_of_endsCut ⟨whole, lead, rest, n, hwhole, rfl, htrailing, hn⟩)
    rw [List.append_assoc] at hmore
    exact (cut_iff htrailing hn.le).1 ⟨more, wellFormed_of_append hwhole hmore⟩
  · intro htails
    refine ⟨fun h => ?_, fun ⟨more, hmore⟩ => isValidUtf8_of_prefix hmore⟩
    rcases wellFormed_or_endsCut h with hwhole | ⟨whole, lead, rest, n, hwhole, rfl, htrailing, hn⟩
    · exact ⟨[], by rwa [List.append_nil]⟩
    · have hfollow := htails whole lead rest n hwhole rfl htrailing hn
      obtain ⟨more, hmore⟩ := (cut_iff htrailing hn.le).2 hfollow
      exact ⟨more, by rw [List.append_assoc]; exact hwhole.append hmore⟩

/-- A lead byte of three with a letter behind it, at the end of the buffer. -/
def latinTail : List UInt8 := [0xe9, 0x74]

theorem latinTail_accepted :
    ¬ (isValidUtf8 latinTail = true ↔ ∃ more, WellFormed (latinTail ++ more)) := by
  intro h
  have hfollow : mayFollow 0xe9 [0x74] = true := (cut_iff (n := 2) (by decide) (by decide)).1
    (h.1 (show isValidUtf8 latinTail = true by decide))
  exact absurd hfollow (by decide)

end UltraTorrent.Files.PreviewText
