import UltraTorrent.Library.BitGroups
import UltraTorrent.Library.UriComponent

/-! The info-hash of a magnet link. Texts are the characters they are made of. The hash is twenty
bytes, written in hexadecimal or, shorter, in base32; the result is the hexadecimal form. -/
namespace UltraTorrent.Torrents.Magnet

open Library.BitGroups Library.UriComponent Library.InternetAddress

/-! ### Reading -/

/-- A regular expression's front, without regard to case. -/
def startsWith (word text : List Char) : Bool := (text.take word.length).map Char.toLower = word

/-- The leftmost match. -/
def exec {α : Type} (pattern : List Char → Option α) (uri : List Char) : Option α :=
  uri.tails.findSome? pattern

def v1Topic : List Char := "xt=urn:btih:".toList

def v2Topic : List Char := "xt=urn:btmh:1220".toList

/-- `/xt=urn:btih:([a-z0-9]+)/i` at the front of a text. -/
def btih (text : List Char) : Option (List Char) :=
  let raw := (text.drop v1Topic.length).takeWhile Char.isAlphanum
  if startsWith v1Topic text ∧ raw ≠ [] then some raw else none

def isHex (c : Char) : Bool := (hexDigit c).isSome

/-- `/xt=urn:btmh:1220([0-9a-f]{64})/i` at the front of a text. -/
def btmh (text : List Char) : Option (List Char) :=
  let hash := (text.drop v2Topic.length).take 64
  if startsWith v2Topic text ∧ hash.length = 64 ∧ hash.all isHex then some hash else none

/-- A text that cannot be decoded is read as it is. -/
def decode (input : List Char) : List Char :=
  if '%' ∈ input then (decodeURIComponent input).getD input else input

def alphabet : List Char := "ABCDEFGHIJKLMNOPQRSTUVWXYZ234567".toList

/-- Characters outside the alphabet are passed over. -/
def digitBits (c : Char) : List Bool :=
  match alphabet.idxOf? c with
  | none => []
  | some idx => toBits 5 idx

def base32ToHex (input : List Char) : List Char :=
  (groups 4 ((input.map Char.toUpper).flatMap digitBits)).map fun group => (ofBits group).digitChar

def infoHashFromMagnet (magnet : List Char) : Option (List Char) :=
  let uri := decode magnet
  match exec btih uri with
  | some raw =>
    if raw.length = 40 ∧ raw.all isHex then some (raw.map Char.toLower)
    else if raw.length = 32 then some ((base32ToHex raw).map Char.toLower)
    else none
  | none => (exec btmh uri).map fun hash => (hash.take 40).map Char.toLower

/-! ### What a hash is, and how a magnet carries it -/

def IsHash (hash : List Char) : Prop :=
  hash.length = 40 ∧ ∀ c ∈ hash, '0' ≤ c ∧ c ≤ '9' ∨ 'a' ≤ c ∧ c ≤ 'f'

def hex (value : List UInt8) : List Char :=
  value.flatMap fun b => [(b.toNat / 16).digitChar, (b.toNat % 16).digitChar]

def base32 (value : List UInt8) : List Char :=
  (groups 5 (value.flatMap fun b => toBits 8 b.toNat)).map fun group => alphabet.getD (ofBits group) 'A'

/-- The characters base32 does without. -/
def foreign : List Char := ['0', '1', '8', '9']

/-- A link whose first v1 topic is a hash. -/
structure Link (hash : List Char) where
  before : List Char
  topic : List Char
  after : List Char
  topic_eq : topic.map Char.toLower = v1Topic
  ends : ∀ c ∈ after.head?, c.isAlphanum = false
  first : ∀ x y, before = x ++ y → y ≠ [] → btih (y ++ (topic ++ (hash ++ after))) = none

def Link.uri {hash : List Char} (link : Link hash) : List Char :=
  link.before ++ (link.topic ++ (hash ++ link.after))

/-- A link is written with escapes or without; one that no escapes account for stands as it is. -/
def Written (uri magnet : List Char) : Prop :=
  Escapes uri magnet ∨ magnet = uri ∧ decodeURIComponent magnet = none

/-! ### Characters -/

/-- What a character is as a digit of either base. -/
def charFacts (c : Char) : Bool :=
  (!isHex c || c.isAlphanum) &&
    decide (c.toUpper ∈ alphabet) = (c.isAlphanum && decide (c ∉ foreign))

/-- Every ASCII character is checked. -/
theorem charFacts_ascii {c : Char} (hc : c.toNat < 128) : charFacts c = true := by
  have h : (List.range 128).all (fun n => charFacts (Char.ofNat n)) = true := by decide +kernel
  rw [List.all_eq_true] at h
  rw [← Char.ofNat_toNat c]
  exact h c.toNat (List.mem_range.2 hc)

theorem ascii_spec {c : Char} (hc : c.toNat < 128) : (isHex c = true → c.isAlphanum = true) ∧
    (c.toUpper ∈ alphabet ↔ c.isAlphanum = true ∧ c ∉ foreign) := by
  have h := charFacts_ascii hc
  rw [charFacts, Bool.and_eq_true, Bool.or_eq_true, Bool.not_eq_true'] at h
  refine ⟨fun hhex => h.1.resolve_left (by rw [hhex]; exact nofun), ?_⟩
  have hiff := of_decide_eq_true h.2
  rw [← decide_eq_true_iff (p := c.toUpper ∈ alphabet), hiff, Bool.and_eq_true, decide_eq_true_iff]

theorem isAlphanum_of_isHex {c : Char} (h : isHex c = true) : c.isAlphanum = true := by
  obtain ⟨d, hd⟩ := Option.isSome_iff_exists.1 h
  exact (ascii_spec (lt_of_hexDigit hd)).1 h

theorem toUpper_of_le {c : Char} (hc : 128 ≤ c.toNat) : c.toUpper = c := by
  unfold Char.toUpper
  rw [dif_neg]
  rintro ⟨-, h⟩
  exact absurd (lt_of_le_char h (by decide)) (not_lt.2 hc)

theorem lt_of_isAlphanum {c : Char} (h : c.isAlphanum = true) : c.toNat < 128 := by
  have hranges : ((decide ('A' ≤ c ∧ c ≤ 'Z') || decide ('a' ≤ c) && decide (c ≤ 'z')) ||
      decide ('0' ≤ c) && decide (c ≤ '9')) = true := h
  simp only [Bool.or_eq_true, Bool.and_eq_true, decide_eq_true_eq] at hranges
  rcases hranges with (⟨-, h⟩ | ⟨-, h⟩) | ⟨-, h⟩ <;> exact lt_of_le_char h (by decide)

theorem toUpper_mem_alphabet {c : Char} :
    c.toUpper ∈ alphabet ↔ c.isAlphanum = true ∧ c ∉ foreign := by
  by_cases hc : c.toNat < 128
  · exact (ascii_spec hc).2
  · refine iff_of_false (fun hmem => hc ?_) fun h => hc (lt_of_isAlphanum h.1)
    rw [toUpper_of_le (not_lt.1 hc)] at hmem
    have hall : alphabet.all (fun x => decide (x.toNat < 128)) = true := by rfl
    exact of_decide_eq_true (List.all_eq_true.1 hall c hmem)

theorem digitChar_spec {d : ℕ} (hd : d < 16) : hexDigit d.digitChar = some d ∧
    d.digitChar.toLower = d.digitChar ∧
    ('0' ≤ d.digitChar ∧ d.digitChar ≤ '9' ∨ 'a' ≤ d.digitChar ∧ d.digitChar ≤ 'f') := by
  have hall : ∀ d < 16, hexDigit d.digitChar = some d ∧ d.digitChar.toLower = d.digitChar ∧
    ('0' ≤ d.digitChar ∧ d.digitChar ≤ '9' ∨ 'a' ≤ d.digitChar ∧ d.digitChar ≤ 'f') := by decide
  exact hall d hd

/-! ### Finding the hash -/

theorem exec_eq_some {α : Type} {pattern : List Char → Option α} {uri : List Char} {a : α}
    (h : exec pattern uri = some a) : ∃ text, pattern text = some a := by
  obtain ⟨text, -, htext⟩ := List.exists_of_findSome?_eq_some h
  exact ⟨text, htext⟩

theorem exec_append {α : Type} {pattern : List Char → Option α} {before rest : List Char} {a : α}
    (hfirst : ∀ x y, before = x ++ y → y ≠ [] → pattern (y ++ rest) = none)
    (h : pattern rest = some a) : exec pattern (before ++ rest) = some a := by
  induction before with
  | nil =>
    cases rest with
    | nil => simp [exec, h]
    | cons c rest => rw [List.nil_append, exec, List.tails_cons, List.findSome?_cons, h]
  | cons c before ih =>
    have hhere := hfirst [] (c :: before) rfl (List.cons_ne_nil _ _)
    rw [List.cons_append] at hhere ⊢
    rw [exec, List.tails_cons, List.findSome?_cons, hhere]
    exact ih fun x y hxy => hfirst (c :: x) y (by rw [hxy, List.cons_append])

theorem alphanum_of_btih {text raw : List Char} (h : btih text = some raw) :
    ∀ c ∈ raw, c.isAlphanum = true := by
  unfold btih at h
  dsimp only at h
  split_ifs at h
  cases h
  exact fun c hc => List.mem_takeWhile_imp hc

theorem hex_of_btmh {text hash : List Char} (h : btmh text = some hash) :
    hash.length = 64 ∧ ∀ c ∈ hash, isHex c = true := by
  unfold btmh at h
  dsimp only at h
  split_ifs at h with hmatch
  cases h
  exact ⟨hmatch.2.1, List.all_eq_true.1 hmatch.2.2⟩

theorem takeWhile_append_of_ends {hash after : List Char} (hall : ∀ c ∈ hash, c.isAlphanum = true)
    (hends : ∀ c ∈ after.head?, c.isAlphanum = false) :
    (hash ++ after).takeWhile Char.isAlphanum = hash := by
  rw [List.takeWhile_append_of_pos hall]
  cases after with
  | nil => simp
  | cons c after =>
    rw [List.takeWhile_cons_of_neg (by simp [hends c rfl]), List.append_nil]

theorem btih_topic {topic hash after : List Char} (htopic : topic.map Char.toLower = v1Topic)
    (hne : hash ≠ []) (hall : ∀ c ∈ hash, c.isAlphanum = true)
    (hends : ∀ c ∈ after.head?, c.isAlphanum = false) :
    btih (topic ++ (hash ++ after)) = some hash := by
  have hlength : v1Topic.length = topic.length := by rw [← htopic, List.length_map]
  have hstarts : startsWith v1Topic (topic ++ (hash ++ after)) = true := by
    rw [startsWith, hlength, List.take_left, htopic, decide_eq_true rfl]
  rw [btih, hlength, List.drop_left, takeWhile_append_of_ends hall hends]
  exact if_pos ⟨hstarts, hne⟩

theorem decode_of_written {uri magnet : List Char} (h : Written uri magnet) :
    decode magnet = uri := by
  unfold decode
  rcases h with hescapes | ⟨rfl, hnone⟩
  · split_ifs with hpercent
    · rw [decodeURIComponent_escapes hescapes, Option.getD_some]
    · exact eq_of_escapes hescapes hpercent
  · rw [hnone, Option.getD_none, ite_self]

theorem exec_link {hash magnet : List Char} (link : Link hash) (hwritten : Written link.uri magnet)
    (hne : hash ≠ []) (hall : ∀ c ∈ hash, c.isAlphanum = true) :
    exec btih (decode magnet) = some hash := by
  rw [decode_of_written hwritten]
  exact exec_append link.first (btih_topic link.topic_eq hne hall link.ends)

/-! ### Base 32 -/

theorem digitBits_of_notMem {c : Char} (h : c ∉ alphabet) : digitBits c = [] := by
  rw [digitBits, List.idxOf?_eq_none_iff.2 h]

theorem length_digitBits {c : Char} (h : c ∈ alphabet) : (digitBits c).length = 5 := by
  unfold digitBits
  split
  · rename_i hnone
    exact absurd h (List.idxOf?_eq_none_iff.1 hnone)
  · exact length_toBits 5 _

theorem length_bits (input : List Char) :
    (input.flatMap digitBits).length = 5 * input.countP fun c => decide (c ∈ alphabet) := by
  induction input with
  | nil => rfl
  | cons c input ih =>
    rw [List.flatMap_cons, List.length_append, ih, List.countP_cons]
    by_cases h : c ∈ alphabet
    · rw [length_digitBits h, decide_eq_true h, if_pos rfl]
      omega
    · rw [digitBits_of_notMem h, decide_eq_false h, if_neg nofun, List.length_nil]
      omega

theorem mem_base32ToHex {input : List Char} {c : Char} (h : c ∈ base32ToHex input) :
    ∃ d < (16 : ℕ), c = d.digitChar := by
  obtain ⟨group, hgroup, rfl⟩ := List.mem_map.1 h
  have hlt := ofBits_lt group
  rw [length_of_mem_groups hgroup] at hlt
  exact ⟨ofBits group, hlt, rfl⟩

theorem length_base32ToHex {input : List Char} (h : input.length = 32) :
    (base32ToHex input).length = 40 ↔ ∀ c ∈ input, c.toUpper ∈ alphabet := by
  have hle := List.countP_le_length (p := fun c => decide (c ∈ alphabet)) (l := input.map Char.toUpper)
  have hall : (input.map Char.toUpper).countP (fun c => decide (c ∈ alphabet)) = 32 ↔
      ∀ c ∈ input, c.toUpper ∈ alphabet := by
    rw [← h, ← List.length_map (f := Char.toUpper), List.countP_eq_length]
    simp only [List.mem_map, forall_exists_index, and_imp, forall_apply_eq_imp_iff₂,
      decide_eq_true_eq]
  rw [List.length_map, h] at hle
  rw [base32ToHex, List.length_map, length_groups, length_bits, ← hall]
  omega

theorem digitBits_getD {n : ℕ} (hn : n < 32) : digitBits (alphabet.getD n 'A') = toBits 5 n := by
  have hall : ∀ n < 32, alphabet.idxOf? (alphabet.getD n 'A') = some n := by decide
  rw [digitBits, hall n hn]

theorem length_bytes (value : List UInt8) :
    (value.flatMap fun b => toBits 8 b.toNat).length = 8 * value.length := by
  rw [List.length_flatMap]
  simp [Nat.mul_comm]

theorem bits_base32 {value : List UInt8} (h : value.length = 20) :
    (base32 value).flatMap digitBits = value.flatMap fun b => toBits 8 b.toNat := by
  have hlength : (value.flatMap fun b => toBits 8 b.toNat).length = 5 * 32 := by
    rw [length_bytes, h]
  have hgroups : ∀ group ∈ groups 5 (value.flatMap fun b => toBits 8 b.toNat),
      digitBits (alphabet.getD (ofBits group) 'A') = group := by
    intro group hgroup
    have hfive := length_of_mem_groups hgroup
    have hlt := ofBits_lt group
    rw [hfive] at hlt
    have hbits := toBits_ofBits group
    rwa [hfive, ← digitBits_getD hlt] at hbits
  rw [base32, List.flatMap_map, List.flatMap_congr hgroups, List.flatMap_id',
    flatten_groups (by decide) hlength]

theorem toBits_byte (n : ℕ) : toBits 8 n = toBits 4 (n / 16) ++ toBits 4 (n % 16) := by
  have hlow : toBits 4 (n % 16) = toBits 4 n := toBits_mod (w := 4) le_rfl n
  rw [hlow]
  exact toBits_add 4 4 n

theorem digits_bytes (value : List UInt8) :
    (groups 4 (value.flatMap fun b => toBits 8 b.toNat)).map (fun group => (ofBits group).digitChar) =
      hex value := by
  have hflatten : (value.flatMap fun b => toBits 8 b.toNat) =
      (value.flatMap fun b => [toBits 4 (b.toNat / 16), toBits 4 (b.toNat % 16)]).flatten := by
    induction value with
    | nil => rfl
    | cons b value ih =>
      rw [List.flatMap_cons, ih, List.flatMap_cons, List.flatten_append, toBits_byte]
      simp
  rw [hflatten, groups_flatten (by decide), hex, List.map_flatMap]
  · refine List.flatMap_congr fun b _ => ?_
    have := b.toNat_lt
    rw [List.map_cons, List.map_singleton, ofBits_toBits (by omega), ofBits_toBits (by omega)]
  · intro digit hdigit
    obtain ⟨b, -, hb⟩ := List.mem_flatMap.1 hdigit
    rcases List.mem_pair.1 hb with rfl | rfl <;> exact length_toBits 4 _

theorem base32ToHex_base32 {value : List UInt8} {text : List Char} (h : value.length = 20)
    (htext : text.map Char.toUpper = base32 value) : base32ToHex text = hex value := by
  rw [base32ToHex, htext, bits_base32 h, digits_bytes]

/-! ### The result -/

theorem mem_hex {value : List UInt8} {c : Char} (h : c ∈ hex value) : ∃ d < (16 : ℕ), c = d.digitChar := by
  obtain ⟨b, -, hb⟩ := List.mem_flatMap.1 h
  have := b.toNat_lt
  rcases List.mem_pair.1 hb with rfl | rfl
  · exact ⟨_, by omega, rfl⟩
  · exact ⟨_, by omega, rfl⟩

theorem map_toLower {text : List Char} (h : ∀ c ∈ text, ∃ d < (16 : ℕ), c = d.digitChar) :
    text.map Char.toLower = text := by
  refine (List.map_congr_left fun c hc => ?_).trans (List.map_id text)
  obtain ⟨d, hd, rfl⟩ := h c hc
  exact (digitChar_spec hd).2.1

theorem isHash_of_digits {hash : List Char} (hlength : hash.length = 40)
    (h : ∀ c ∈ hash, ∃ d < (16 : ℕ), c = d.digitChar) : IsHash hash := by
  refine ⟨hlength, fun c hc => ?_⟩
  obtain ⟨d, hd, rfl⟩ := h c hc
  exact (digitChar_spec hd).2.2

theorem isHash_toLower {text : List Char} (hlength : text.length = 40)
    (h : ∀ c ∈ text, isHex c = true) : IsHash (text.map Char.toLower) := by
  refine isHash_of_digits (by rw [List.length_map, hlength]) fun x hx => ?_
  obtain ⟨c, hc, rfl⟩ := List.mem_map.1 hx
  obtain ⟨d, hd⟩ := Option.isSome_iff_exists.1 (h c hc)
  exact ⟨d, (hexDigit_spec hd).1, (hexDigit_spec hd).2.1⟩

theorem isHash_base32ToHex {raw : List Char} (hlength : raw.length = 32)
    (hall : ∀ c ∈ raw, c.isAlphanum = true) :
    IsHash ((base32ToHex raw).map Char.toLower) ↔ ∀ c ∈ raw, c ∉ foreign := by
  have hdigits : ∀ c ∈ base32ToHex raw, ∃ d < (16 : ℕ), c = d.digitChar := fun c => mem_base32ToHex
  have hknown : (∀ c ∈ raw, c.toUpper ∈ alphabet) ↔ ∀ c ∈ raw, c ∉ foreign :=
    forall₂_congr fun c hc => toUpper_mem_alphabet.trans (and_iff_right (hall c hc))
  rw [map_toLower hdigits, ← hknown, ← length_base32ToHex hlength]
  exact ⟨fun h => h.1, fun h => isHash_of_digits h hdigits⟩

theorem isHash_iff (magnet : List Char) :
    (∀ hash, infoHashFromMagnet magnet = some hash → IsHash hash) ↔
      ∀ raw, exec btih (decode magnet) = some raw → raw.length = 32 → ∀ c ∈ raw, c ∉ foreign := by
  cases hraw : exec btih (decode magnet) with
  | none =>
    refine iff_of_true (fun hash h => ?_) nofun
    unfold infoHashFromMagnet at h
    dsimp only at h
    rw [hraw] at h
    obtain ⟨v2, hv2, rfl⟩ := Option.map_eq_some_iff.1 h
    obtain ⟨text, htext⟩ := exec_eq_some hv2
    obtain ⟨hlength, hhex⟩ := hex_of_btmh htext
    refine isHash_toLower ?_ fun c hc => hhex c (List.mem_of_mem_take hc)
    rw [List.length_take, hlength]
    rfl
  | some raw =>
    obtain ⟨text, htext⟩ := exec_eq_some hraw
    have hall := alphanum_of_btih htext
    have hresult : infoHashFromMagnet magnet =
        if raw.length = 40 ∧ raw.all isHex then some (raw.map Char.toLower)
        else if raw.length = 32 then some ((base32ToHex raw).map Char.toLower) else none := by
      unfold infoHashFromMagnet
      dsimp only
      rw [hraw]
    rw [hresult]
    split_ifs with hhex hbase
    · refine iff_of_true ?_ ?_
      · rintro hash ⟨⟩
        exact isHash_toLower hhex.1 (List.all_eq_true.1 hhex.2)
      · rintro raw' ⟨⟩ hlength
        rw [hhex.1] at hlength
        cases hlength
    · simp only [Option.some.injEq, forall_eq', hbase, true_imp_iff]
      exact isHash_base32ToHex hbase hall
    · refine iff_of_true nofun ?_
      rintro raw' ⟨⟩ hlength
      exact absurd hlength hbase

/-- The value that a hash in hexadecimal or in base32 stands for, in any case. -/
def Encodes (hash : List Char) (value : List UInt8) : Prop :=
  hash.map Char.toLower = hex value ∨ hash.map Char.toUpper = base32 value

theorem infoHash_hex {value : List UInt8} {hash magnet : List Char} (hvalue : value.length = 20)
    (hhash : hash.map Char.toLower = hex value) (link : Link hash) (hwritten : Written link.uri magnet) :
    infoHashFromMagnet magnet = some (hex value) := by
  have hlength : hash.length = 40 := by
    rw [← List.length_map (f := Char.toLower), hhash, hex, List.length_flatMap]
    simp [hvalue]
  have hall : ∀ c ∈ hash, isHex c = true := by
    intro c hc
    obtain ⟨d, hd, heq⟩ := mem_hex (hhash ▸ List.mem_map_of_mem (f := Char.toLower) hc)
    rw [isHex, ← hexDigit_toLower, heq, (digitChar_spec hd).1]
    rfl
  have hne : hash ≠ [] := by
    rintro rfl
    cases hlength
  have hexec := exec_link link hwritten hne fun c hc => isAlphanum_of_isHex (hall c hc)
  unfold infoHashFromMagnet
  dsimp only
  rw [hexec]
  dsimp only
  rw [if_pos ⟨hlength, List.all_eq_true.2 hall⟩, hhash]

theorem infoHash_base32 {value : List UInt8} {hash magnet : List Char} (hvalue : value.length = 20)
    (hhash : hash.map Char.toUpper = base32 value) (link : Link hash)
    (hwritten : Written link.uri magnet) : infoHashFromMagnet magnet = some (hex value) := by
  have hlength : hash.length = 32 := by
    rw [← List.length_map (f := Char.toUpper), hhash, base32, List.length_map, length_groups,
      length_bytes, hvalue]
  have hall : ∀ c ∈ hash, c.isAlphanum = true := by
    intro c hc
    refine (toUpper_mem_alphabet.1 ?_).1
    have hmem := hhash ▸ List.mem_map_of_mem (f := Char.toUpper) hc
    obtain ⟨group, hgroup, heq⟩ := List.mem_map.1 hmem
    have hlt := ofBits_lt group
    rw [length_of_mem_groups hgroup] at hlt
    have hget : ∀ n < 2 ^ 5, alphabet.getD n 'A' ∈ alphabet := by decide
    exact heq ▸ hget _ hlt
  have hne : hash ≠ [] := by
    rintro rfl
    cases hlength
  have hexec := exec_link link hwritten hne hall
  have hlong : ¬ (hash.length = 40 ∧ hash.all isHex = true) := fun h => by omega
  unfold infoHashFromMagnet
  dsimp only
  rw [hexec]
  dsimp only
  rw [if_neg hlong, if_pos hlength, base32ToHex_base32 hvalue hhash,
    map_toLower fun c => mem_hex]

/-- What is returned is a hash unless thirty-two characters with a foreign one among them are taken
for base32; and a link is read for the value it carries. -/
theorem infoHash_spec (magnet : List Char) :
    ((∀ hash, infoHashFromMagnet magnet = some hash → IsHash hash) ↔
      ∀ raw, exec btih (decode magnet) = some raw → raw.length = 32 → ∀ c ∈ raw, c ∉ foreign) ∧
    ∀ value hash, value.length = 20 → Encodes hash value → ∀ link : Link hash,
      Written link.uri magnet → infoHashFromMagnet magnet = some (hex value) := by
  refine ⟨isHash_iff magnet, fun value hash hvalue hencodes link hwritten => ?_⟩
  rcases hencodes with hhash | hhash
  · exact infoHash_hex hvalue hhash link hwritten
  · exact infoHash_base32 hvalue hhash link hwritten

theorem btih_eq_none {c : Char} (h : c.toLower ≠ 'x') (rest : List Char) : btih (c :: rest) = none := by
  have hstarts : startsWith v1Topic (c :: rest) = false := by
    refine decide_eq_false fun heq => h ?_
    exact (List.cons.inj heq).1
  rw [btih, hstarts]
  exact if_neg (by simp)

/-- The usual link: there is no topic in what stands before it, and nothing behind it. -/
def usualLink (hash : List Char) : Link hash where
  before := "magnet:?".toList
  topic := v1Topic
  after := []
  topic_eq := rfl
  ends := nofun
  first := by
    intro x y hbefore hne
    obtain ⟨c, y, rfl⟩ := List.exists_cons_of_ne_nil hne
    have hall : "magnet:?".toList.all (fun c => c.toLower ≠ 'x') = true := by rfl
    have hmem : c ∈ "magnet:?".toList := by
      rw [hbefore]
      exact List.mem_append_right _ List.mem_cons_self
    exact btih_eq_none (of_decide_eq_true (List.all_eq_true.1 hall c hmem)) _

def sampleValue : List UInt8 :=
  [0x44, 0xf0, 0xab, 0x56, 0xd6, 0x95, 0xf4, 0x6e, 0xb9, 0x1b, 0x5d, 0x50, 0x1b, 0x1b, 0x54, 0x83,
    0x83, 0x97, 0xe8, 0x13]

def sampleText : List Char := "itykwvwwsx2g5oi3lvibwg2uqobzp2at".toList

theorem escapedLink_written : Written (usualLink sampleText).uri
    ("magnet:?xt=urn%3Abtih%3a".toList ++ sampleText) := by
  have hspells {digit : Char} (h : hexDigit digit = some 10) :
      Spells (String.utf8EncodeChar ':') ['%', '3', digit] := .cons rfl h .nil
  have hcolon {digit : Char} (h : hexDigit digit = some 10) : Escapes [':'] ['%', '3', digit] :=
    .escaped (hspells h) .nil
  have htopic : Escapes ("magnet:?xt=urn".toList ++ ([':'] ++ ("btih".toList ++ ([':'] ++ sampleText))))
      ("magnet:?xt=urn".toList ++ (['%', '3', 'A'] ++ ("btih".toList ++ (['%', '3', 'a'] ++ sampleText)))) :=
    (escapes_plain (by decide)).append ((hcolon rfl).append ((escapes_plain (by decide)).append
      ((hcolon rfl).append (escapes_plain (by decide)))))
  exact .inl htopic

set_option maxRecDepth 4000 in
theorem escapedLink_read : infoHashFromMagnet ("magnet:?xt=urn%3Abtih%3a".toList ++ sampleText) =
    some "44f0ab56d695f46eb91b5d501b1b54838397e813".toList := by
  have hhash : Encodes sampleText sampleValue := .inr (by rfl)
  exact (infoHash_spec _).2 sampleValue sampleText rfl hhash (usualLink sampleText) escapedLink_written

/-- A zero for an O. -/
def mistyped : List Char := "itykwvwwsx2g5oi3lvibwg2uq0bzp2at".toList

theorem mistyped_noHash : ¬ ∀ magnet hash, infoHashFromMagnet magnet = some hash → IsHash hash := by
  intro h
  have hplain : '%' ∉ (usualLink mistyped).uri := by decide
  have hall : mistyped.all Char.isAlphanum = true := by rfl
  have hexec := exec_link (usualLink mistyped) (.inl (escapes_plain hplain)) (List.cons_ne_nil _ _)
    (List.all_eq_true.1 hall)
  have hknown := (isHash_iff _).1 (h _) _ hexec rfl '0' (by decide)
  exact hknown (by decide)

end UltraTorrent.Torrents.Magnet
