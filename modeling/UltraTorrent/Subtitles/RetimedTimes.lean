import Mathlib.Algebra.Order.Round
import Mathlib.Data.Rat.Floor
import UltraTorrent.Subtitles.SubtitleValidator

/-! The retiming of a subtitle text: whatever looks like a time of its format is moved by an offset and
a drift. -/
namespace UltraTorrent.Subtitles.Retime

open Library.Replacement Timestamp

/-- A time before zero is zero. -/
def applyTiming (ms offsetMs driftFactor : ℚ) : ℕ := (round (ms * driftFactor + offsetMs)).toNat

def msToClock (ms : ℚ) (sep : Char) : List Char :=
  let v := (round ms).toNat
  let h := v / 3600000
  let m := v % 3600000 / 60000
  let s := v % 60000 / 1000
  let frac := v % 1000
  pad h 2 ++ ':' :: (pad m 2 ++ ':' :: (pad s 2 ++ sep :: pad frac 3))

def msToAss (ms : ℚ) : List Char :=
  let v := (round ms).toNat
  let h := v / 3600000
  let m := v % 3600000 / 60000
  let s := v % 60000 / 1000
  let cs := v % 1000 / 10
  Nat.toDigits 10 h ++ ':' :: (pad m 2 ++ ':' :: (pad s 2 ++ '.' :: pad cs 2))

example : msToClock 3661500 ',' = "01:01:01,500".toList ∧ msToAss 3661500 = "1:01:01.50".toList ∧
    applyTiming 1000 (-2000) 1 = 0 ∧ applyTiming 1000 0 (11 / 10) = 1100 := by decide +kernel

/-- `(\d{1,2}):(\d{2}):(\d{2})\.(\d{2})` -/
def assClock : Matcher Char Clock := clock ['.'] 2 2

/-- `(\d{1,2}):(\d{2}):(\d{2})([,.])(\d{1,3})` -/
def srtVttClock : Matcher Char Clock := clock [',', '.'] 1 3

def assMs (c : Clock) : ℕ :=
  ((number c.hours * 60 + number c.minutes) * 60 + number c.seconds) * 1000 + number c.fraction * 10

def srtVttMs (c : Clock) : ℕ :=
  ((number c.hours * 60 + number c.minutes) * 60 + number c.seconds) * 1000 +
    number ((c.fraction.rightpad 3 '0').take 3)

def retimedAss (offsetMs driftFactor : ℚ) (c : Clock) : List Char :=
  msToAss (applyTiming (assMs c) offsetMs driftFactor)

def retimedSrtVtt (offsetMs driftFactor : ℚ) (c : Clock) : List Char :=
  msToClock (applyTiming (srtVttMs c) offsetMs driftFactor) (if c.mark = '.' then '.' else ',')

/-- `format.toLowerCase().replace(/^\./, '')` -/
def bareFormat (format : String) : List Char :=
  let lower := format.toList.map Char.toLower
  if lower.head? = some '.' then lower.tail else lower

def shiftTimestamps (content : List Char) (format : String) (offsetMs driftFactor : ℚ) : List Char :=
  let f := bareFormat format
  if f = "ass".toList ∨ f = "ssa".toList then replaceAll assClock (retimedAss offsetMs driftFactor) content
  else replaceAll srtVttClock (retimedSrtVtt offsetMs driftFactor) content

example : shiftTimestamps "00:00:01,000 --> 00:00:04,000".toList "srt" 2000 1 =
    "00:00:03,000 --> 00:00:06,000".toList := by decide +kernel

end UltraTorrent.Subtitles.Retime

/-! A time that was moved, and what the validator reads in its place. -/
namespace UltraTorrent.Subtitles.RetimedTimes

open Library Library.Replacement Library.RunRewriting Library.WhiteSpace Timestamp Retime SubtitleValidator

/-- Clocks have two digits for the hours. -/
def hundredHours : ℕ := 360000000

/-! ### Digits -/

theorem isDigit_pad {n width : ℕ} : ∀ c ∈ pad n width, c.isDigit = true := by
  intro c hc
  rcases List.mem_append.1 hc with hc | hc
  · rw [List.eq_of_mem_replicate hc]
    rfl
  · exact Nat.isDigit_of_mem_toDigits (by decide) (by decide) hc

theorem number_pad (n width : ℕ) : number (pad n width) = n := by
  rw [pad, List.leftpad, number, Nat.ofDigitChars_append, Nat.ofDigitChars_replicate_zero, Nat.mul_zero,
    Nat.ofDigitChars_ten_toDigits]

theorem digits_pad {n w : ℕ} (hw : 0 < w) (hn : n < 10 ^ w) : Digits w w (pad n w) := by
  have hlength := (Nat.length_toDigits_le_iff (by decide) hw).2 hn
  have hpad : (pad n w).length = w := by rw [pad, List.length_leftpad, max_eq_left hlength]
  exact ⟨isDigit_pad, hpad.ge, hpad.le⟩

theorem digits_toDigits {n : ℕ} (hn : n < 100) : Digits 1 2 (Nat.toDigits 10 n) :=
  ⟨fun _ hc => Nat.isDigit_of_mem_toDigits (by decide) (by decide) hc, Nat.length_toDigits_pos,
    (Nat.length_toDigits_le_iff (by decide) (by decide)).2 hn⟩

theorem length_toDigits {n : ℕ} (hn : 100 ≤ n) : 3 ≤ (Nat.toDigits 10 n).length := by
  by_contra h
  have hle : (Nat.toDigits 10 n).length ≤ 2 := by omega
  have hlt := (Nat.length_toDigits_le_iff (by decide) (by decide)).1 hle
  omega

theorem pad_ne_nil (n width : ℕ) : pad n width ≠ [] :=
  List.append_ne_nil_of_right_ne_nil _ Nat.toDigits_ne_nil

/-! ### Clocks -/

def srtVttClockOf (v : ℕ) (sep : Char) : Clock :=
  ⟨pad (v / 3600000) 2, pad (v % 3600000 / 60000) 2, pad (v % 60000 / 1000) 2, sep, pad (v % 1000) 3⟩

def assClockOf (v : ℕ) : Clock :=
  ⟨Nat.toDigits 10 (v / 3600000), pad (v % 3600000 / 60000) 2, pad (v % 60000 / 1000) 2, '.', pad (v % 1000 / 10) 2⟩

theorem msToClock_natCast (v : ℕ) (sep : Char) : msToClock v sep = (srtVttClockOf v sep).text := by
  simp [msToClock, srtVttClockOf, Clock.text]

theorem msToAss_natCast (v : ℕ) : msToAss v = (assClockOf v).text := by
  simp [msToAss, assClockOf, Clock.text]

theorem spelled_srtVttClockOf {v : ℕ} {sep : Char} (hv : v < hundredHours) (hsep : sep ∈ [',', '.']) :
    (srtVttClockOf v sep).Spelled [',', '.'] 1 3 where
  hours := (digits_pad Nat.two_pos (by rw [hundredHours] at hv; omega)).mono (by decide) le_rfl
  minutes := digits_pad Nat.two_pos (by omega)
  seconds := digits_pad Nat.two_pos (by omega)
  mark := hsep
  fraction := (digits_pad (w := 3) (by decide) (by omega)).mono (by decide) le_rfl

theorem srtVttMs_clockOf (v : ℕ) (sep : Char) : srtVttMs (srtVttClockOf v sep) = v := by
  obtain ⟨-, hle, hge⟩ := digits_pad (n := v % 1000) (w := 3) (by decide) (by omega)
  have hfraction : ((pad (v % 1000) 3).rightpad 3 '0').take 3 = pad (v % 1000) 3 := by
    rw [List.rightpad, Nat.sub_eq_zero_of_le hle, List.replicate_zero, List.append_nil, List.take_of_length_le hge]
  simp only [srtVttMs, srtVttClockOf, number_pad, hfraction]
  omega

/-! ### What the validator reads -/

variable {raw raw' text hours rest : List Char} {c : Clock}

theorem foreign_comma_dot : ∀ d ∈ [',', '.'], d.isDigit = false := by simp

theorem parseSrtVttTime_congr (h : trimmed raw = trimmed raw') : parseSrtVttTime raw = parseSrtVttTime raw' := by
  simp only [parseSrtVttTime, h]

theorem srtVttClock_text (h : c.Spelled [',', '.'] 1 3) : srtVttClock c.text = some (c, []) :=
  (clock_eq_some foreign_comma_dot).2 ⟨(List.append_nil _).symm, h, .inr nofun⟩

theorem parseSrtVttTime_text (hraw : trimmed raw = c.text) (h : c.Spelled [',', '.'] 1 3) :
    parseSrtVttTime raw = some (srtVttMs c) := by
  have hclock : clock [',', '.'] 1 3 c.text = some (c, []) := srtVttClock_text h
  simp only [parseSrtVttTime, hraw, hclock]
  rfl

theorem shortClock_spec {minutes seconds fraction : List Char}
    (h : shortClock text = some ((minutes, seconds, fraction), rest)) :
    ∃ mark, text = minutes ++ ':' :: (seconds ++ mark :: (fraction ++ rest)) ∧ Digits 2 2 minutes ∧
      Digits 2 2 seconds ∧ mark ∈ [',', '.'] ∧ Digits 1 3 fraction := by
  simp only [shortClock, Matcher.andThen_eq_some, digits_eq_some, colon_eq_some, Matcher.item_eq_some,
    Matcher.done, Option.some_inj, Prod.mk.injEq] at h
  obtain ⟨_, _, ⟨rfl, hminutes, -⟩, _, _, ⟨rfl, -⟩, _, _, ⟨rfl, hseconds, -⟩, mark, _, ⟨rfl, hmark⟩, _, _,
    ⟨rfl, hfraction, -⟩, ⟨rfl, rfl, rfl⟩, rfl⟩ := h
  exact ⟨mark, rfl, hminutes, hseconds, by simpa using hmark, hfraction⟩

/-- The digits before the first colon are told by the text. -/
theorem hours_unique {ds rest' : List Char} (hdigits : ∀ d ∈ hours, d.isDigit = true)
    (hds : ∀ d ∈ ds, d.isDigit = true) (h : hours ++ ':' :: rest = ds ++ ':' :: rest') : hours = ds := by
  have hfree : ∀ {l : List Char}, (∀ d ∈ l, d.isDigit = true) → Segments.Free (fun d => decide (d = ':')) l := by
    intro l hl d hd
    refine decide_eq_false ?_
    rintro rfl
    exact absurd (hl _ hd) (by decide)
  have hfollows : ∀ u, Segments.Follows (fun d => decide (d = ':')) (':' :: u) := by
    rintro u d ⟨⟩
    rfl
  exact (Segments.segment_unique (hfree hdigits) (hfree hds) (hfollows _) (hfollows _) h).1

theorem parseSrtVttTime_long (hraw : trimmed raw = hours ++ ':' :: rest) (hdigits : ∀ d ∈ hours, d.isDigit = true)
    (hlength : 3 ≤ hours.length) : parseSrtVttTime raw = none := by
  have hclock : clock [',', '.'] 1 3 (trimmed raw) = none := by
    rw [Option.eq_none_iff_forall_ne_some]
    rintro ⟨c, rest'⟩ hfound
    obtain ⟨htext, hspelled, -⟩ := (clock_eq_some foreign_comma_dot).1 hfound
    rw [hraw, Clock.text, List.append_assoc, List.cons_append] at htext
    have hle := hspelled.hours.2.2
    rw [← hours_unique hdigits hspelled.hours.1 htext] at hle
    omega
  have hshort : shortClock (trimmed raw) = none := by
    rw [Option.eq_none_iff_forall_ne_some]
    rintro ⟨⟨minutes, seconds, fraction⟩, rest'⟩ hfound
    obtain ⟨mark, htext, hminutes, -⟩ := shortClock_spec hfound
    have hle := hminutes.2.2
    rw [hraw] at htext
    rw [← hours_unique hdigits hminutes.1 htext] at hle
    omega
  simp only [parseSrtVttTime, hclock, hshort]

/-! ### What the shift does to a time -/

variable {offsetMs driftFactor : ℚ} {ms : ℕ}

def srtVttShift (offsetMs driftFactor : ℚ) : List Char → List Char :=
  replaceAll srtVttClock (retimedSrtVtt offsetMs driftFactor)

def assShift (offsetMs driftFactor : ℚ) : List Char → List Char :=
  replaceAll assClock (retimedAss offsetMs driftFactor)

theorem foreign_of_isWhiteSpace {marks : List Char} (hmarks : marks.all (!isWhiteSpace ·) = true) {d : Char}
    (hd : isWhiteSpace d = true) : foreign marks d = true := by
  rw [foreign, Bool.not_eq_true', Bool.or_eq_false_iff, Bool.or_eq_false_iff]
  refine ⟨⟨?_, decide_eq_false ?_⟩, ?_⟩
  · by_contra hdigit
    rw [isWhiteSpace_of_isDigit (by simpa using hdigit)] at hd
    cases hd
  · rintro rfl
    exact absurd hd (by decide)
  · by_contra hmark
    have hnot := List.all_eq_true.1 hmarks d (by simpa using hmark)
    rw [hd] at hnot
    cases hnot

theorem free_text {marks : List Char} (hmark : c.mark ∈ marks)
    (hdigits : ∀ d ∈ c.hours ++ c.minutes ++ c.seconds ++ c.fraction, d.isDigit = true) :
    Segments.Free (foreign marks) c.text := by
  intro d hd
  have hd : d ∈ c.hours ++ c.minutes ++ c.seconds ++ c.fraction ∨ d = ':' ∨ d = c.mark := by
    simp only [Clock.text, List.mem_append, List.mem_cons] at hd ⊢
    tauto
  rw [foreign, Bool.not_eq_false']
  rcases hd with hd | rfl | rfl
  · rw [hdigits d hd, Bool.true_or, Bool.true_or]
  · simp
  · simp [hmark]

theorem runWise_srtVttShift (offsetMs driftFactor : ℚ) :
    RunWise (foreign [',', '.']) (srtVttShift offsetMs driftFactor) := by
  refine runWise_replaceAll (consumes_clock foreign_comma_dot) closes_clock fun c => ?_
  rw [retimedSrtVtt, msToClock_natCast]
  refine ⟨List.append_ne_nil_of_left_ne_nil (pad_ne_nil _ _) _, free_text ?_ ?_⟩
  · rw [srtVttClockOf]
    split_ifs <;> simp
  · simp only [srtVttClockOf, List.forall_mem_append]
    exact ⟨⟨⟨isDigit_pad, isDigit_pad⟩, isDigit_pad⟩, isDigit_pad⟩

theorem foreign_dot : ∀ d ∈ ['.'], d.isDigit = false := by simp

theorem runWise_assShift (offsetMs driftFactor : ℚ) : RunWise (foreign ['.']) (assShift offsetMs driftFactor) := by
  refine runWise_replaceAll (consumes_clock foreign_dot) closes_clock fun c => ?_
  rw [retimedAss, msToAss_natCast]
  refine ⟨List.append_ne_nil_of_left_ne_nil Nat.toDigits_ne_nil _, free_text List.mem_cons_self ?_⟩
  simp only [assClockOf, List.forall_mem_append]
  exact ⟨⟨⟨fun _ hd => Nat.isDigit_of_mem_toDigits (by decide) (by decide) hd, isDigit_pad⟩, isDigit_pad⟩, isDigit_pad⟩

theorem trimmed_srtVttShift (raw : List Char) :
    trimmed (srtVttShift offsetMs driftFactor raw) = srtVttShift offsetMs driftFactor (trimmed raw) :=
  (runWise_srtVttShift offsetMs driftFactor).trimmed (fun _ => foreign_of_isWhiteSpace (by decide)) raw

theorem trimmed_assShift (raw : List Char) :
    trimmed (assShift offsetMs driftFactor raw) = assShift offsetMs driftFactor (trimmed raw) :=
  (runWise_assShift offsetMs driftFactor).trimmed (fun _ => foreign_of_isWhiteSpace (by decide)) raw

theorem srtVttShift_text (h : c.Spelled [',', '.'] 1 3) : srtVttShift offsetMs driftFactor c.text =
    (srtVttClockOf (applyTiming (srtVttMs c) offsetMs driftFactor) c.mark).text := by
  have hmark : (if c.mark = '.' then '.' else ',') = c.mark := by
    have := h.mark
    split_ifs with hdot
    · exact hdot.symm
    · simp_all
  have hreplaced : srtVttShift offsetMs driftFactor c.text = retimedSrtVtt offsetMs driftFactor c ++ [] :=
    replaceAll_match (consumes_clock foreign_comma_dot) (srtVttClock_text h)
  rw [hreplaced, List.append_nil, retimedSrtVtt, hmark, msToClock_natCast]

theorem shift_eq_self {m : Matcher Char Clock} {f : Clock → List Char} (h : ∀ u, u <:+ text → m u = none) :
    replaceAll m f text = text := by
  have happend : replaceAll m f (text ++ []) = text ++ replaceAll m f [] := replaceAll_append fun u _ hu => by
    rw [List.append_nil]
    exact h u hu
  rw [List.append_nil] at happend
  rw [happend]
  exact List.append_nil _

theorem two_le_count (c : Clock) : 2 ≤ c.text.count ':' := by
  simp only [Clock.text, List.count_append, List.count_cons_self]
  omega

theorem srtVttShift_eq_self (h : text.count ':' < 2) : srtVttShift offsetMs driftFactor text = text := by
  refine shift_eq_self fun u hu => ?_
  rw [Option.eq_none_iff_forall_ne_some]
  rintro ⟨c, rest⟩ hfound
  obtain ⟨rfl, -, -⟩ := (clock_eq_some foreign_comma_dot).1 hfound
  have hcount := hu.sublist.count_le ':'
  have htwo := two_le_count c
  rw [List.count_append] at hcount
  omega

/-- The time is written with its hours. -/
def WithHours (raw : List Char) : Prop := ∃ c, srtVttClock (trimmed raw) = some (c, [])

/-- A time with its hours has to stay below a hundred of them; one without is not moved at all. -/
def SrtVttKept (offsetMs driftFactor : ℚ) (raw : List Char) (ms : ℕ) : Prop :=
  (WithHours raw → applyTiming ms offsetMs driftFactor < hundredHours) ∧
    (¬WithHours raw → applyTiming ms offsetMs driftFactor = ms)

theorem spelled_of_srtVttClock (h : srtVttClock text = some (c, [])) : text = c.text ∧ c.Spelled [',', '.'] 1 3 := by
  obtain ⟨htext, hspelled, -⟩ := (clock_eq_some foreign_comma_dot).1 h
  rw [List.append_nil] at htext
  exact ⟨htext, hspelled⟩

theorem count_digits {l : List Char} (h : ∀ d ∈ l, d.isDigit = true) : l.count ':' = 0 :=
  List.count_eq_zero.2 fun hmem => absurd (h _ hmem) (by decide)

theorem count_lt_of_short (h : ¬WithHours raw) (hread : parseSrtVttTime raw = some ms) :
    (trimmed raw).count ':' < 2 := by
  unfold parseSrtVttTime at hread
  split at hread
  · rename_i c hc
    exact absurd ⟨c, hc⟩ h
  · split at hread
    · rename_i minutes seconds fraction hshort
      obtain ⟨mark, htext, hminutes, hseconds, hmark, hfraction⟩ := shortClock_spec hshort
      have hmark : mark ≠ ':' := by
        rintro rfl
        revert hmark
        decide
      rw [htext, List.append_nil]
      simp [List.count_append, count_digits hminutes.1, count_digits hseconds.1,
        count_digits hfraction.1, hmark]
    · cases hread

/-- What is read in place of a time is the moved one exactly where it is kept. -/
theorem parseSrtVttTime_shift (hread : parseSrtVttTime raw = some ms) :
    parseSrtVttTime (srtVttShift offsetMs driftFactor raw) = some (applyTiming ms offsetMs driftFactor) ↔
      SrtVttKept offsetMs driftFactor raw ms := by
  by_cases hwith : WithHours raw
  · obtain ⟨c, hc⟩ := hwith
    obtain ⟨htext, hspelled⟩ := spelled_of_srtVttClock hc
    have hms : srtVttMs c = ms := by
      rw [parseSrtVttTime_text htext hspelled] at hread
      exact Option.some.inj hread
    have hshifted : trimmed (srtVttShift offsetMs driftFactor raw) =
        (srtVttClockOf (applyTiming ms offsetMs driftFactor) c.mark).text := by
      rw [trimmed_srtVttShift, htext, srtVttShift_text hspelled, hms]
    have hkept : SrtVttKept offsetMs driftFactor raw ms ↔ applyTiming ms offsetMs driftFactor < hundredHours :=
      ⟨fun h => h.1 ⟨c, hc⟩, fun h => ⟨fun _ => h, fun hnot => absurd ⟨c, hc⟩ hnot⟩⟩
    rw [hkept]
    constructor
    · intro h
      by_contra hlong
      have hhours : 100 ≤ applyTiming ms offsetMs driftFactor / 3600000 := by
        rw [hundredHours] at hlong
        omega
      have hlength : 3 ≤ (pad (applyTiming ms offsetMs driftFactor / 3600000) 2).length := by
        rw [pad, List.length_leftpad]
        exact (length_toDigits hhours).trans (le_max_right _ _)
      rw [parseSrtVttTime_long hshifted isDigit_pad hlength] at h
      cases h
    · intro hlt
      rw [parseSrtVttTime_text hshifted (spelled_srtVttClockOf hlt hspelled.mark), srtVttMs_clockOf]
  · have hsame : trimmed (srtVttShift offsetMs driftFactor raw) = trimmed raw := by
      rw [trimmed_srtVttShift, srtVttShift_eq_self (count_lt_of_short hwith hread)]
    rw [parseSrtVttTime_congr hsame, hread, Option.some_inj]
    exact ⟨fun h => ⟨fun hw => absurd hw hwith, fun _ => h.symm⟩, fun h => (h.2 hwith).symm⟩

/-! ### Centiseconds -/

/-- Centiseconds with a zero in front are read ten times too large. -/
def misread (ms : ℕ) : ℕ :=
  ms / 1000 * 1000 + (if ms % 1000 / 10 < 10 then ms % 1000 / 10 * 100 else ms % 1000 / 10 * 10)

theorem number_lt {ds : List Char} (h : ∀ d ∈ ds, d.isDigit = true) : number ds < 10 ^ ds.length := by
  induction ds with
  | nil => exact Nat.one_pos
  | cons d ds ih =>
    rw [List.forall_mem_cons] at h
    have hrest := ih h.2
    have hdigit : d.toNat - '0'.toNat ≤ 9 := by
      have hle : d.toNat ≤ 57 := of_decide_eq_true (Bool.and_eq_true_iff.1 h.1).2
      have hzero : '0'.toNat = 48 := rfl
      omega
    have hle := Nat.mul_le_mul_left (10 ^ ds.length) hdigit
    rw [number, Nat.ofDigitChars_cons, Nat.ofDigitChars_eq_ofDigitChars_zero, ← number, List.length_cons,
      Nat.pow_succ, Nat.mul_zero, Nat.zero_add]
    omega

theorem number_hundredths {cs : ℕ} (h : cs < 100) :
    number (((Nat.toDigits 10 (cs * 10)).rightpad 3 '0').take 3) = if cs < 10 then cs * 100 else cs * 10 := by
  have hall : ∀ cs : Fin 100, number (((Nat.toDigits 10 (cs * 10)).rightpad 3 '0').take 3) =
      if cs.val < 10 then cs.val * 100 else cs.val * 10 := by decide +kernel
  exact hall ⟨cs, h⟩

theorem foreign_dot_colon : ∀ d ∈ ['.', ':'], d.isDigit = false := by simp

theorem parseAssTime_text (hraw : trimmed raw = c.text) (h : c.Spelled ['.', ':'] 1 2) :
    parseAssTime raw = some (misread (assMs c)) := by
  have hclock : clock ['.', ':'] 1 2 c.text = some (c, []) :=
    (clock_eq_some foreign_dot_colon).2 ⟨(List.append_nil _).symm, h, .inr nofun⟩
  have hlt : number c.fraction < 100 := (number_lt h.fraction.1).trans_le
    (Nat.pow_le_pow_right (by decide) h.fraction.2.2)
  have hseconds : assMs c / 1000 = (number c.hours * 60 + number c.minutes) * 60 + number c.seconds := by
    rw [assMs]
    omega
  have hcentiseconds : assMs c % 1000 / 10 = number c.fraction := by
    rw [assMs]
    omega
  simp only [parseAssTime, hraw, hclock, toMs, number_hundredths hlt, misread, hseconds, hcentiseconds]

theorem parseAssTime_long (hraw : trimmed raw = hours ++ ':' :: rest) (hdigits : ∀ d ∈ hours, d.isDigit = true)
    (hlength : 3 ≤ hours.length) : parseAssTime raw = none := by
  have hclock : clock ['.', ':'] 1 2 (trimmed raw) = none := by
    rw [Option.eq_none_iff_forall_ne_some]
    rintro ⟨c, rest'⟩ hfound
    obtain ⟨htext, hspelled, -⟩ := (clock_eq_some foreign_dot_colon).1 hfound
    rw [hraw, Clock.text, List.append_assoc, List.cons_append] at htext
    have hle := hspelled.hours.2.2
    rw [← hours_unique hdigits hspelled.hours.1 htext] at hle
    omega
  simp only [parseAssTime, hclock]

theorem spelled_assClockOf {v : ℕ} (hv : v < hundredHours) : (assClockOf v).Spelled ['.', ':'] 1 2 where
  hours := digits_toDigits (by rw [hundredHours] at hv; omega)
  minutes := digits_pad Nat.two_pos (by omega)
  seconds := digits_pad Nat.two_pos (by omega)
  mark := List.mem_cons_self
  fraction := (digits_pad Nat.two_pos (by omega)).mono (by decide) le_rfl

theorem misread_assClockOf (v : ℕ) : misread (assMs (assClockOf v)) = misread v := by
  have hms : assMs (assClockOf v) = v / 10 * 10 := by
    simp only [assMs, assClockOf, number_pad]
    rw [number, Nat.ofDigitChars_ten_toDigits]
    omega
  have hseconds : v / 10 * 10 / 1000 = v / 1000 := by omega
  have hcentiseconds : v / 10 * 10 % 1000 / 10 = v % 1000 / 10 := by omega
  rw [hms, misread, hseconds, hcentiseconds, misread]

/-- The shift knows a time by its point and its two digits behind it. -/
def Shifted (c : Clock) : Prop := c.mark = '.' ∧ c.fraction.length = 2

instance (c : Clock) : Decidable (Shifted c) := inferInstanceAs (Decidable (_ ∧ _))

theorem assShift_text (h : c.Spelled ['.', ':'] 1 2) (hshifted : Shifted c) :
    assShift offsetMs driftFactor c.text = (assClockOf (applyTiming (assMs c) offsetMs driftFactor)).text := by
  have hspelled : c.Spelled ['.'] 2 2 := ⟨h.hours, h.minutes, h.seconds, List.mem_singleton.2 hshifted.1,
    ⟨h.fraction.1, hshifted.2.ge, hshifted.2.le⟩⟩
  have hclock : assClock c.text = some (c, []) :=
    (clock_eq_some foreign_dot).2 ⟨(List.append_nil _).symm, hspelled, .inr nofun⟩
  have hreplaced : assShift offsetMs driftFactor c.text = retimedAss offsetMs driftFactor c ++ [] :=
    replaceAll_match (consumes_clock foreign_dot) hclock
  rw [hreplaced, List.append_nil, retimedAss, msToAss_natCast]

/-- What stands before the mark. -/
def front (c : Clock) : List Char := c.hours ++ ':' :: (c.minutes ++ ':' :: c.seconds)

theorem text_eq_front (c : Clock) : c.text = front c ++ c.mark :: c.fraction := by
  simp [Clock.text, front]

theorem count_front {marks : List Char} {least most : ℕ} (h : c.Spelled marks least most) : (front c).count '.' = 0 := by
  have hdigits : ∀ {l : List Char}, (∀ d ∈ l, d.isDigit = true) → l.count '.' = 0 := fun hl =>
    List.count_eq_zero.2 fun hmem => absurd (hl _ hmem) (by decide)
  simp [front, List.count_append, hdigits h.hours.1, hdigits h.minutes.1, hdigits h.seconds.1]

theorem assShift_eq_self (h : c.Spelled ['.', ':'] 1 2) (hshifted : ¬Shifted c) :
    assShift offsetMs driftFactor c.text = c.text := by
  refine shift_eq_self fun u ⟨p, hu⟩ => ?_
  rw [Option.eq_none_iff_forall_ne_some]
  rintro ⟨found, rest⟩ hfound
  obtain ⟨rfl, hspelled, -⟩ := (clock_eq_some foreign_dot).1 hfound
  have hmark := List.mem_singleton.1 hspelled.mark
  have hfraction : c.fraction.count '.' = 0 :=
    List.count_eq_zero.2 fun hmem => absurd (h.fraction.1 _ hmem) (by decide)
  rw [text_eq_front, text_eq_front, hmark, List.append_assoc, List.cons_append, ← List.append_assoc] at hu
  -- The mark of what is found is the only point there is, and one digit follows it.
  have hcount := congrArg (List.count '.') hu
  rw [List.count_append, List.count_append, List.count_append, List.count_cons_self, count_front h,
    count_front hspelled, List.count_cons, hfraction] at hcount
  have hdot : c.mark = '.' := by
    by_contra hne
    simp [hne] at hcount
  have hp : p.count '.' = 0 := by
    simp [hdot] at hcount
    omega
  have hfree : ∀ {l : List Char}, l.count '.' = 0 → Segments.Free (fun d => decide (d = '.')) l := by
    intro l hl d hd
    refine decide_eq_false ?_
    rintro rfl
    exact List.count_eq_zero.1 hl hd
  have hfollows : ∀ v, Segments.Follows (fun d => decide (d = '.')) ('.' :: v) := by
    rintro v d ⟨⟩
    rfl
  rw [hdot] at hu
  have hrest := (Segments.segment_unique
    (hfree (by rw [List.count_append, hp, count_front hspelled])) (hfree (count_front h)) (hfollows _) (hfollows _)
    hu).2
  have hlength := congrArg List.length (List.cons.inj hrest).2
  rw [List.length_append] at hlength
  exact hshifted ⟨hdot, le_antisymm h.fraction.2.2 (by have := hspelled.fraction.2.1; omega)⟩

/-- A time that is moved has to stay below a hundred hours and to be misread as its old one was; one that
is not has to be its own moved one. -/
def AssKept (offsetMs driftFactor : ℚ) (raw : List Char) : Prop :=
  ∀ c, clock ['.', ':'] 1 2 (trimmed raw) = some (c, []) →
    if Shifted c then
      applyTiming (assMs c) offsetMs driftFactor < hundredHours ∧
        misread (applyTiming (assMs c) offsetMs driftFactor) =
          applyTiming (misread (assMs c)) offsetMs driftFactor / 10 * 10
    else misread (assMs c) = applyTiming (misread (assMs c)) offsetMs driftFactor / 10 * 10

/-- What is read in place of a time is the moved one, to a centisecond, exactly where it is kept. -/
theorem parseAssTime_shift (hread : parseAssTime raw = some ms) :
    parseAssTime (assShift offsetMs driftFactor raw) = some (applyTiming ms offsetMs driftFactor / 10 * 10) ↔
      AssKept offsetMs driftFactor raw := by
  obtain ⟨c, hc⟩ : ∃ c, clock ['.', ':'] 1 2 (trimmed raw) = some (c, []) := by
    unfold parseAssTime at hread
    split at hread
    · exact ⟨_, ‹_›⟩
    · cases hread
  obtain ⟨htext, hspelled, -⟩ := (clock_eq_some foreign_dot_colon).1 hc
  rw [List.append_nil] at htext
  obtain rfl : misread (assMs c) = ms := by
    rw [parseAssTime_text htext hspelled] at hread
    exact Option.some.inj hread
  have hkept : AssKept offsetMs driftFactor raw ↔ _ := ⟨fun h => h c hc, fun h d hd => by
    rw [hc] at hd
    cases hd
    exact h⟩
  rw [hkept]
  by_cases hshifted : Shifted c
  · have hmoved : trimmed (assShift offsetMs driftFactor raw) =
        (assClockOf (applyTiming (assMs c) offsetMs driftFactor)).text := by
      rw [trimmed_assShift, htext, assShift_text hspelled hshifted]
    rw [if_pos hshifted]
    by_cases hlt : applyTiming (assMs c) offsetMs driftFactor < hundredHours
    · rw [parseAssTime_text hmoved (spelled_assClockOf hlt), misread_assClockOf, Option.some_inj]
      exact (and_iff_right hlt).symm
    · have hhours : 100 ≤ applyTiming (assMs c) offsetMs driftFactor / 3600000 := by
        rw [hundredHours] at hlt
        omega
      rw [parseAssTime_long hmoved
        (fun _ hd => Nat.isDigit_of_mem_toDigits (by decide) (by decide) hd) (length_toDigits hhours)]
      exact ⟨nofun, fun h => absurd h.1 hlt⟩
  · have hsame : trimmed (assShift offsetMs driftFactor raw) = c.text := by
      rw [trimmed_assShift, htext, assShift_eq_self hspelled hshifted]
    rw [if_neg hshifted, parseAssTime_text hsame hspelled, Option.some_inj]

/-! ### Times in a text -/

theorem text_eq_of_prefix {marks v : List Char} {least most : ℕ} {b : Clock}
    (hhours : ∀ d ∈ c.hours, d.isDigit = true) (hminutes : Digits 2 2 c.minutes) (hseconds : Digits 2 2 c.seconds)
    (hfraction : Digits most most c.fraction) (hb : b.Spelled marks least most)
    (hend : b.fraction.length = most ∨ ∀ d ∈ rest.head?, d.isDigit = false) (h : c.text ++ v = b.text ++ rest) :
    c.text = b.text := by
  simp only [Clock.text, List.append_assoc, List.cons_append] at h
  have hsame := hours_unique hhours hb.hours.1 h
  rw [hsame, List.append_cancel_left_eq, List.cons.injEq] at h
  have hlength : ∀ {l l' : List Char}, Digits 2 2 l → Digits 2 2 l' → l.length = l'.length := fun hl hl' =>
    (le_antisymm hl.2.2 hl.2.1).trans (le_antisymm hl'.2.1 hl'.2.2)
  obtain ⟨hsameMinutes, h⟩ := List.append_inj h.2 (hlength hminutes hb.minutes)
  rw [List.cons.injEq] at h
  obtain ⟨hsameSeconds, h⟩ := List.append_inj h.2 (hlength hseconds hb.seconds)
  rw [List.cons.injEq] at h
  obtain ⟨hsameMark, h⟩ := h
  have hsameFraction : c.fraction = b.fraction := by
    rcases List.append_eq_append_iff.1 h with ⟨more, hmore, -⟩ | ⟨more, hmore, hrest⟩
    · have hle := hb.fraction.2.2
      have hge := hfraction.2.1
      rw [hmore, List.length_append] at hle
      rw [hmore, List.eq_nil_of_length_eq_zero (by omega : more.length = 0), List.append_nil]
    · cases more with
      | nil => rw [hmore, List.append_nil]
      | cons e more =>
        have hdigit : e.isDigit = true :=
          hfraction.1 e (hmore ▸ List.mem_append_right _ List.mem_cons_self)
        have hle := hfraction.2.2
        rw [hmore, List.length_append, List.length_cons] at hle
        rcases hend with hmost | hother
        · omega
        · rw [hrest] at hother
          rw [hother e rfl] at hdigit
          cases hdigit
  rw [Clock.text, Clock.text, hsame, hsameMinutes, hsameSeconds, hsameMark, hsameFraction]

theorem srtVttShift_eq_self_iff (text : List Char) : srtVttShift offsetMs driftFactor text = text ↔
    ∀ c ∈ found srtVttClock text, retimedSrtVtt offsetMs driftFactor c = c.text := by
  refine replaceAll_eq_self_iff (consumes_clock foreign_comma_dot)
    (fun text b rest h => ((clock_eq_some foreign_comma_dot).1 h).1) (fun text b rest h v hv => ?_) text
  obtain ⟨htext, hspelled, hend⟩ := (clock_eq_some foreign_comma_dot).1 h
  rw [retimedSrtVtt, msToClock_natCast, htext] at hv
  rw [retimedSrtVtt, msToClock_natCast]
  exact text_eq_of_prefix isDigit_pad (digits_pad Nat.two_pos (by omega)) (digits_pad Nat.two_pos (by omega))
    (digits_pad (by decide) (by omega)) hspelled hend hv

theorem assShift_eq_self_iff (text : List Char) : assShift offsetMs driftFactor text = text ↔
    ∀ c ∈ found assClock text, retimedAss offsetMs driftFactor c = c.text := by
  refine replaceAll_eq_self_iff (consumes_clock foreign_dot)
    (fun text b rest h => ((clock_eq_some foreign_dot).1 h).1) (fun text b rest h v hv => ?_) text
  obtain ⟨htext, hspelled, hend⟩ := (clock_eq_some foreign_dot).1 h
  rw [retimedAss, msToAss_natCast, htext] at hv
  rw [retimedAss, msToAss_natCast]
  exact text_eq_of_prefix (fun _ hd => Nat.isDigit_of_mem_toDigits (by decide) (by decide) hd)
    (digits_pad Nat.two_pos (by omega)) (digits_pad Nat.two_pos (by omega)) (digits_pad Nat.two_pos (by omega))
    hspelled hend hv

end UltraTorrent.Subtitles.RetimedTimes
