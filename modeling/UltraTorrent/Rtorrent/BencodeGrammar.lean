import Mathlib.Data.List.TakeWhile
import Mathlib.Tactic.IntervalCases
import UltraTorrent.Rtorrent.BencodeProgress

/-! Bencoding itself: the values there are and the one text each of them has. The reader comes back
from the text of a value with the range of it, whatever follows in the buffer. -/
namespace UltraTorrent.Rtorrent.BencodeGrammar

open Library.Fuel Bencode BencodeProgress

inductive Value where
  | int (n : ℤ)
  | bytes (content : Buffer)
  | list (items : List Value)
  | dict (entries : List (Buffer × Value))

def chr (c : Char) : UInt8 := UInt8.ofNat c.toNat

/-- A number is written without zeros before its digits, and zero without a sign. -/
def numeral : ℤ → List Char
  | .ofNat n => Nat.toDigits 10 n
  | .negSucc n => '-' :: Nat.toDigits 10 (n + 1)

def decimal (n : ℤ) : Buffer := (numeral n).map chr

def encodeInt (n : ℤ) : Buffer := chr 'i' :: (decimal n ++ [chr 'e'])

def encodeString (content : Buffer) : Buffer := decimal content.length ++ chr ':' :: content

mutual

def encode : Value → Buffer
  | .int n => encodeInt n
  | .bytes content => encodeString content
  | .list items => chr 'l' :: (encodeItems items ++ [chr 'e'])
  | .dict entries => chr 'd' :: (encodeEntries entries ++ [chr 'e'])

def encodeItems : List Value → Buffer
  | [] => []
  | item :: items => encode item ++ encodeItems items

def encodeEntries : List (Buffer × Value) → Buffer
  | [] => []
  | (key, value) :: entries => encodeString key ++ encode value ++ encodeEntries entries

end

variable {buf : Buffer} {pos : ℕ} {word rest content : Buffer} {b : UInt8}

/-! ### Places in a buffer -/

theorem drop_add (h : buf.drop pos = word ++ rest) : buf.drop (pos + word.length) = rest := by
  rw [← List.drop_drop, h, List.drop_left]

theorem drop_succ (h : buf.drop pos = b :: rest) : buf.drop (pos + 1) = rest := by
  rw [← List.drop_drop, h, List.drop_one, List.tail_cons]

theorem slice_eq (h : buf.drop pos = word ++ rest) :
    (buf.take (pos + word.length)).drop pos = word := by
  rw [List.drop_take, Nat.add_sub_cancel_left, h, List.take_left]

theorem length_le (h : buf.drop pos = word ++ rest) (hne : word ≠ []) :
    pos + word.length ≤ buf.length := by
  have hlength := congrArg List.length h
  rw [List.length_drop, List.length_append] at hlength
  have := List.length_pos_of_ne_nil hne
  omega

theorem byte_eq (h : buf.drop pos = b :: rest) : byte buf pos = Char.ofNat b.toNat := by
  have hget : buf[pos]? = some b := by
    rw [← Nat.add_zero pos, ← List.getElem?_drop, h, List.getElem?_cons_zero]
  rw [byte, hget, Option.getD_some]

theorem toNat_ofNat (b : UInt8) : (Char.ofNat b.toNat).toNat = b.toNat := by
  have hvalid : b.toNat.isValidChar := .inl (b.toNat_lt.trans (by decide))
  rw [Char.ofNat, dif_pos hvalid]
  rfl

/-- The byte that reads as a character other than the null one is there. -/
theorem drop_of_byte {c : Char} (h : byte buf pos = c) (hc : c ≠ Char.ofNat 0) :
    buf.drop pos = chr c :: buf.drop (pos + 1) := by
  have hlt := lt_length_of_byte (h ▸ hc)
  rw [List.drop_eq_getElem_cons hlt]
  have hbyte : byte buf pos = Char.ofNat buf[pos].toNat := byte_eq (List.drop_eq_getElem_cons hlt)
  rw [chr, ← h, hbyte, toNat_ofNat, UInt8.ofNat_toNat]

theorem idxOf?_append (hb : b ∉ word) : (word ++ b :: rest).idxOf? b = some word.length := by
  induction word with
  | nil => simp [List.idxOf?_cons]
  | cons a word ih =>
    rw [List.mem_cons, not_or] at hb
    rw [List.cons_append, List.idxOf?_cons, if_neg (by simpa using Ne.symm hb.1), ih hb.2,
      Option.map_some, List.length_cons]

theorem indexOf_eq (h : buf.drop pos = word ++ b :: rest) (hb : b ∉ word) :
    indexOf buf b pos = some (pos + word.length) := by
  rw [indexOf, h, idxOf?_append hb, Option.map_some]

/-! ### Numbers -/

theorem toNat_chr {c : Char} (h : c.toNat < 128) : (chr c).toNat = c.toNat := by
  rw [chr, UInt8.toNat_ofNat']
  exact Nat.mod_eq_of_lt (by omega)

theorem map_chr {text : List Char} (h : ∀ c ∈ text, c.toNat < 128) :
    (text.map chr).map (fun b => Char.ofNat (b.toNat % 128)) = text := by
  rw [List.map_map]
  refine (List.map_congr_left fun c hc => ?_).trans (List.map_id text)
  rw [Function.comp_apply, toNat_chr (h c hc), Nat.mod_eq_of_lt (h c hc), Char.ofNat_toNat, id]

theorem isDigit_of_mem {n : ℕ} {c : Char} (h : c ∈ Nat.toDigits 10 n) : c.isDigit = true :=
  Nat.isDigit_of_mem_toDigits (by decide) (by decide) h

theorem isDigit_iff {c : Char} : c.isDigit = true ↔ '0' ≤ c ∧ c ≤ '9' := by
  rw [Char.isDigit, Bool.and_eq_true, decide_eq_true_eq, decide_eq_true_eq]
  rfl

theorem toNat_of_isDigit {c : Char} (h : c.isDigit = true) : 48 ≤ c.toNat ∧ c.toNat ≤ 57 := by
  simp only [Char.isDigit, ge_iff_le, Bool.and_eq_true, decide_eq_true_eq,
    UInt32.le_iff_toNat_le] at h
  exact h

theorem foldl_digits (run : List Char) (n : ℕ) :
    run.foldl (fun (n : ℤ) c => 10 * n + (c.toNat - '0'.toNat : ℕ)) (n : ℤ) =
      (Nat.ofDigitChars 10 run n : ℕ) := by
  induction run generalizing n with
  | nil => simp
  | cons c run ih =>
    rw [List.foldl_cons, Nat.ofDigitChars_cons, ← ih]
    push_cast
    rfl

theorem foldl_toDigits (n : ℕ) : (Nat.toDigits 10 n).foldl
    (fun (n : ℤ) c => 10 * n + (c.toNat - '0'.toNat : ℕ)) 0 = n := by
  have h := foldl_digits (Nat.toDigits 10 n) 0
  rwa [Nat.ofDigitChars_ten_toDigits] at h

theorem takeWhile_toDigits (n : ℕ) : (Nat.toDigits 10 n).takeWhile Char.isDigit = Nat.toDigits 10 n :=
  List.takeWhile_eq_self_iff.2 fun _ => isDigit_of_mem

/-- What is left of `parseInt` once blanks and sign are off. -/
def parseDigits (negative : Bool) (digits : List Char) : Option ℤ :=
  match digits.takeWhile Char.isDigit with
  | [] => none
  | run =>
    let magnitude : ℤ := run.foldl (fun n c => 10 * n + (c.toNat - '0'.toNat : ℕ)) 0
    some (if negative then -magnitude else magnitude)

theorem parseDigits_toDigits (negative : Bool) (n : ℕ) :
    parseDigits negative (Nat.toDigits 10 n) = some (if negative then -(n : ℤ) else n) := by
  have hfold := foldl_toDigits n
  unfold parseDigits
  rw [takeWhile_toDigits]
  cases hdigits : Nat.toDigits 10 n with
  | nil => exact absurd hdigits Nat.toDigits_ne_nil
  | cons c run =>
    rw [hdigits] at hfold
    dsimp only
    rw [hfold]

/-- Neither a blank nor a sign is taken off before a digit. -/
theorem parseInt_of_isDigit {c : Char} (h : c.isDigit = true) (run : List Char) :
    parseInt (c :: run) = parseDigits false (c :: run) := by
  obtain ⟨hlow, hhigh⟩ := toNat_of_isDigit h
  rw [← Char.ofNat_toNat c]
  interval_cases c.toNat <;> rfl

theorem parseInt_toDigits (n : ℕ) : parseInt (Nat.toDigits 10 n) = some (n : ℤ) := by
  refine Eq.trans ?_ (parseDigits_toDigits false n)
  cases hdigits : Nat.toDigits 10 n with
  | nil => exact absurd hdigits Nat.toDigits_ne_nil
  | cons c run => exact parseInt_of_isDigit (isDigit_of_mem (hdigits ▸ List.mem_cons_self)) run

theorem parseInt_numeral (n : ℤ) : parseInt (numeral n) = some n := by
  cases n with
  | ofNat n => exact parseInt_toDigits n
  | negSucc n =>
    have hsign : parseInt (numeral (.negSucc n)) = parseDigits true (Nat.toDigits 10 (n + 1)) := by
      unfold parseInt numeral
      rw [List.dropWhile_cons_of_neg (by decide)]
      rfl
    rw [hsign, parseDigits_toDigits, Int.negSucc_eq]
    simp

theorem mem_numeral {n : ℤ} {c : Char} (h : c ∈ numeral n) : c = '-' ∨ c.isDigit = true := by
  cases n with
  | ofNat n => exact .inr (isDigit_of_mem h)
  | negSucc n => exact (List.mem_cons.1 h).imp_right isDigit_of_mem

theorem toNat_of_mem_numeral {n : ℤ} {c : Char} (h : c ∈ numeral n) : c.toNat < 128 := by
  rcases mem_numeral h with rfl | hc
  · decide
  · have := toNat_of_isDigit hc
    omega

theorem chr_notMem_decimal {n : ℤ} {c : Char} (hlt : c.toNat < 128) (hminus : c ≠ '-')
    (hc : c.isDigit = false) : chr c ∉ decimal n := by
  intro hmem
  obtain ⟨d, hd, heq⟩ := List.mem_map.1 hmem
  have htoNat := congrArg UInt8.toNat heq
  rw [toNat_chr (toNat_of_mem_numeral hd), toNat_chr hlt] at htoNat
  obtain rfl : d = c := Char.toNat_inj.1 htoNat
  rcases mem_numeral hd with heq | hdigit
  · exact hminus heq
  · rw [hdigit] at hc
    cases hc

/-! ### Tokens -/

theorem ascii_decimal {n : ℤ} (h : buf.drop pos = decimal n ++ rest) :
    ascii buf pos (pos + (decimal n).length) = numeral n := by
  rw [ascii, slice_eq h]
  exact map_chr fun c => toNat_of_mem_numeral

theorem readInt_encodeInt {n : ℤ} (h : buf.drop pos = encodeInt n ++ rest) :
    readInt buf pos = (.int (some n), pos + (encodeInt n).length) := by
  have hnext : buf.drop (pos + 1) = decimal n ++ chr 'e' :: rest := by
    have hcons : buf.drop pos = [chr 'i'] ++ (decimal n ++ chr 'e' :: rest) := by
      rw [h, encodeInt]
      simp
    exact drop_add hcons
  have hindex : indexOf buf (UInt8.ofNat 'e'.toNat) (pos + 1) = some (pos + 1 + (decimal n).length) :=
    indexOf_eq hnext (chr_notMem_decimal (by decide) (by decide) (by decide))
  rw [readInt, hindex]
  dsimp only
  rw [ascii_decimal hnext, parseInt_numeral]
  simp [encodeInt]
  omega

theorem readString_encodeString (h : buf.drop pos = encodeString content ++ rest) :
    readString buf pos = .ok (content, pos + (encodeString content).length) := by
  have hsplit : buf.drop pos = decimal content.length ++ chr ':' :: (content ++ rest) := by
    rw [h, encodeString, List.append_assoc, List.cons_append]
  have hindex : indexOf buf (UInt8.ofNat ':'.toNat) pos =
      some (pos + (decimal content.length).length) :=
    indexOf_eq hsplit (chr_notMem_decimal (by decide) (by decide) (by decide))
  have hstart : buf.drop (pos + (decimal content.length).length + 1) = content ++ rest := by
    rw [← List.drop_drop, drop_add hsplit, List.drop_one, List.tail_cons]
  have hbound := length_le h (by simp [encodeString])
  have hlength : (encodeString content).length =
      (decimal content.length).length + 1 + content.length := by
    rw [encodeString, List.length_append, List.length_cons]
    omega
  rw [readString, hindex]
  dsimp only
  rw [ascii_decimal hsplit, parseInt_numeral]
  dsimp only
  rw [if_neg (by omega), Int.toNat_natCast, slice_eq hstart, hlength]
  congr 2
  omega

/-! ### More budget -/

/-- What is read on this budget is read on the next. -/
structure Lasts (buf : Buffer) (fuel : ℕ) : Prop where
  decode : ∀ pos r, Bencode.decode buf fuel pos = .ok r → Bencode.decode buf (fuel + 1) pos = .ok r
  readList : ∀ pos r, Bencode.readList buf fuel pos = .ok r →
    Bencode.readList buf (fuel + 1) pos = .ok r
  listLoop : ∀ pos out r, Bencode.listLoop buf fuel pos out = .ok r →
    Bencode.listLoop buf (fuel + 1) pos out = .ok r
  readDict : ∀ pos r, Bencode.readDict buf fuel pos = .ok r →
    Bencode.readDict buf (fuel + 1) pos = .ok r
  dictLoop : ∀ pos out r, Bencode.dictLoop buf fuel pos out = .ok r →
    Bencode.dictLoop buf (fuel + 1) pos out = .ok r

variable (buf) in
theorem lasts (fuel : ℕ) : Lasts buf fuel := by
  induction fuel with
  | zero =>
    exact
      { decode := fun _ _ h => by simp [Bencode.decode] at h
        readList := fun _ _ h => by simp [Bencode.readList] at h
        listLoop := fun _ _ _ h => by simp [Bencode.listLoop] at h
        readDict := fun _ _ h => by simp [Bencode.readDict] at h
        dictLoop := fun _ _ _ h => by simp [Bencode.dictLoop] at h }
  | succ fuel ih =>
    refine ⟨fun pos r h => ?_, fun pos r h => ?_, fun pos out r h => ?_, fun pos r h => ?_,
      fun pos out r h => ?_⟩
    · rw [Bencode.decode] at h ⊢
      dsimp only at h ⊢
      split_ifs at h ⊢
      · exact h
      · obtain ⟨list, hlist, hok⟩ := Outcome.bind_eq_ok.1 h
        exact Outcome.bind_eq_ok.2 ⟨list, ih.readList _ _ hlist, hok⟩
      · obtain ⟨dict, hdict, hok⟩ := Outcome.bind_eq_ok.1 h
        exact Outcome.bind_eq_ok.2 ⟨dict, ih.readDict _ _ hdict, hok⟩
      · exact h
    · rw [Bencode.readList] at h ⊢
      obtain ⟨out, hloop, hok⟩ := Outcome.bind_eq_ok.1 h
      exact Outcome.bind_eq_ok.2 ⟨out, ih.listLoop _ _ _ hloop, hok⟩
    · rw [Bencode.listLoop] at h ⊢
      split_ifs at h ⊢
      · exact h
      · obtain ⟨item, hitem, hloop⟩ := Outcome.bind_eq_ok.1 h
        exact Outcome.bind_eq_ok.2 ⟨item, ih.decode _ _ hitem, ih.listLoop _ _ _ hloop⟩
    · rw [Bencode.readDict] at h ⊢
      obtain ⟨out, hloop, hok⟩ := Outcome.bind_eq_ok.1 h
      exact Outcome.bind_eq_ok.2 ⟨out, ih.dictLoop _ _ _ hloop, hok⟩
    · rw [Bencode.dictLoop] at h ⊢
      split_ifs at h ⊢
      · exact h
      · obtain ⟨key, hkey, h⟩ := Outcome.bind_eq_ok.1 h
        obtain ⟨value, hvalue, hloop⟩ := Outcome.bind_eq_ok.1 h
        exact Outcome.bind_eq_ok.2 ⟨key, hkey,
          Outcome.bind_eq_ok.2 ⟨value, ih.decode _ _ hvalue, ih.dictLoop _ _ _ hloop⟩⟩

theorem decode_mono {fuel more : ℕ} (hle : fuel ≤ more) {r : Node × ℕ}
    (h : decode buf fuel pos = .ok r) : decode buf more pos = .ok r := by
  induction more, hle using Nat.le_induction with
  | base => exact h
  | succ more _ ih => exact (lasts buf more).decode _ _ ih

theorem listLoop_mono {fuel more : ℕ} (hle : fuel ≤ more) {out : List Node} {r : List Node × ℕ}
    (h : listLoop buf fuel pos out = .ok r) : listLoop buf more pos out = .ok r := by
  induction more, hle using Nat.le_induction with
  | base => exact h
  | succ more _ ih => exact (lasts buf more).listLoop _ _ _ ih

theorem dictLoop_mono {fuel more : ℕ} (hle : fuel ≤ more) {out : List (Buffer × Node × ℕ × ℕ)}
    {r : List (Buffer × Node × ℕ × ℕ) × ℕ} (h : dictLoop buf fuel pos out = .ok r) :
    dictLoop buf more pos out = .ok r := by
  induction more, hle using Nat.le_induction with
  | base => exact h
  | succ more _ ih => exact (lasts buf more).dictLoop _ _ _ ih

/-! ### Texts of values -/

theorem byte_chr {c : Char} (hc : c.toNat < 128) (h : buf.drop pos = chr c :: rest) :
    byte buf pos = c := by
  rw [byte_eq h, toNat_chr hc, Char.ofNat_toNat]

theorem isDigit_byte (h : buf.drop pos = encodeString content ++ rest) :
    (byte buf pos).isDigit = true := by
  have hnumeral : numeral content.length = Nat.toDigits 10 content.length := rfl
  cases hdigits : Nat.toDigits 10 content.length with
  | nil => exact absurd hdigits Nat.toDigits_ne_nil
  | cons c run =>
    have hc : c.isDigit = true := isDigit_of_mem (hdigits ▸ List.mem_cons_self)
    have := toNat_of_isDigit hc
    rw [encodeString, decimal, hnumeral, hdigits] at h
    rwa [byte_chr (by omega) h]

/-- The characters that the text of a value opens with. -/
def Opens (c : Char) : Value → Prop
  | .int _ => c = 'i'
  | .bytes _ => c.isDigit = true
  | .list _ => c = 'l'
  | .dict _ => c = 'd'

theorem opens (v : Value) (h : buf.drop pos = encode v ++ rest) : Opens (byte buf pos) v := by
  cases v with
  | int n =>
    rw [encode, encodeInt] at h
    exact byte_chr (by decide) h
  | bytes content =>
    rw [encode] at h
    exact isDigit_byte h
  | list items =>
    rw [encode] at h
    exact byte_chr (by decide) h
  | dict entries =>
    rw [encode] at h
    exact byte_chr (by decide) h

/-- No value starts like the end of a list or of a dictionary. -/
theorem byte_ne (v : Value) (h : buf.drop pos = encode v ++ rest) : byte buf pos ≠ 'e' := by
  intro he
  have hopens := opens v h
  rw [he] at hopens
  cases v <;> exact absurd hopens (by simp [Opens])

theorem decode_of_digit {fuel : ℕ} (h : (byte buf pos).isDigit = true) :
    decode buf (fuel + 1) pos = (do
      let (content, next) ← readString buf pos
      .ok (.bytes content, next)) := by
  have hrange := isDigit_iff.1 h
  have hne {c : Char} (hc : c.isDigit = false) : byte buf pos ≠ c := by
    rintro rfl
    rw [h] at hc
    cases hc
  rw [decode]
  dsimp only
  rw [if_neg (hne rfl), if_neg (hne rfl), if_neg (hne rfl), if_pos hrange]

/-- The keys of the entries read, each with the bytes of its value. -/
def ranges (buf : Buffer) (out : List (Buffer × Node × ℕ × ℕ)) : List (Buffer × Buffer) :=
  out.map fun (key, _, start, stop) => (key, (buf.take stop).drop start)

def texts (entries : List (Buffer × Value)) : List (Buffer × Buffer) :=
  entries.map fun (key, v) => (key, encode v)

theorem ranges_cons (key : Buffer) (value : Node) (start stop : ℕ)
    (out : List (Buffer × Node × ℕ × ℕ)) : ranges buf ((key, value, start, stop) :: out) =
      (key, (buf.take stop).drop start) :: ranges buf out :=
  rfl

theorem texts_cons (key : Buffer) (v : Value) (entries : List (Buffer × Value)) :
    texts ((key, v) :: entries) = (key, encode v) :: texts entries :=
  rfl

mutual

theorem decode_encode : ∀ (v : Value) {pos : ℕ} {rest : Buffer}, buf.drop pos = encode v ++ rest →
    ∃ fuel value, decode buf fuel pos = .ok (value, pos + (encode v).length)
  | .int n, pos, rest, h => by
    have hi : byte buf pos = 'i' := opens (.int n) h
    rw [encode] at h ⊢
    refine ⟨1, .int (some n), ?_⟩
    rw [decode, ← readInt_encodeInt h]
    exact if_pos hi
  | .bytes content, pos, rest, h => by
    rw [encode] at h ⊢
    refine ⟨1, .bytes content, ?_⟩
    rw [decode_of_digit (isDigit_byte h), readString_encodeString h]
    rfl
  | .list items, pos, rest, h => by
    have hl : byte buf pos = 'l' := opens (.list items) h
    rw [encode] at h ⊢
    have hnext : buf.drop (pos + 1) = encodeItems items ++ chr 'e' :: rest := by
      rw [List.cons_append, List.append_assoc, List.singleton_append] at h
      exact drop_succ h
    obtain ⟨fuel, out, hloop⟩ := listLoop_encode items [] hnext
    refine ⟨fuel + 2, .list out, ?_⟩
    simp only [decode, hl, readList, hloop]
    simp [bind, Outcome.bind]
    omega
  | .dict entries, pos, rest, h => by
    have hd : byte buf pos = 'd' := opens (.dict entries) h
    rw [encode] at h ⊢
    have hnext : buf.drop (pos + 1) = encodeEntries entries ++ chr 'e' :: rest := by
      rw [List.cons_append, List.append_assoc, List.singleton_append] at h
      exact drop_succ h
    obtain ⟨fuel, out, hloop, -⟩ := dictLoop_encode entries [] hnext
    refine ⟨fuel + 2, .dict out, ?_⟩
    simp only [decode, hd, readDict, hloop]
    simp [bind, Outcome.bind]
    omega

theorem listLoop_encode : ∀ (items : List Value) {pos : ℕ} {rest : Buffer} (out : List Node),
    buf.drop pos = encodeItems items ++ chr 'e' :: rest →
    ∃ fuel out', listLoop buf fuel pos out = .ok (out', pos + (encodeItems items).length)
  | [], pos, rest, out, h => by
    have he : byte buf pos = 'e' := byte_chr (by decide) h
    exact ⟨1, out, if_pos he⟩
  | item :: items, pos, rest, out, h => by
    rw [encodeItems, List.append_assoc] at h
    obtain ⟨fuel, value, hitem⟩ := decode_encode item h
    obtain ⟨more, out', hloop⟩ := listLoop_encode items (out ++ [value]) (drop_add h)
    refine ⟨fuel + more + 1, out', ?_⟩
    rw [listLoop, if_neg (byte_ne item h), encodeItems, List.length_append, ← Nat.add_assoc]
    exact Outcome.bind_eq_ok.2 ⟨_, decode_mono (by omega) hitem, listLoop_mono (by omega) hloop⟩

theorem dictLoop_encode : ∀ (entries : List (Buffer × Value)) {pos : ℕ} {rest : Buffer}
    (out : List (Buffer × Node × ℕ × ℕ)), buf.drop pos = encodeEntries entries ++ chr 'e' :: rest →
    ∃ fuel out', dictLoop buf fuel pos out = .ok (out', pos + (encodeEntries entries).length) ∧
      ranges buf out' = (texts entries).reverse ++ ranges buf out
  | [], pos, rest, out, h => by
    have he : byte buf pos = 'e' := byte_chr (by decide) h
    exact ⟨1, out, if_pos he, rfl⟩
  | (key, v) :: entries, pos, rest, out, h => by
    rw [encodeEntries, List.append_assoc, List.append_assoc] at h
    have hvalue := drop_add h
    have hkey := readString_encodeString h
    have hne : byte buf pos ≠ 'e' := by
      intro he
      have hdigit := isDigit_byte h
      rw [he] at hdigit
      cases hdigit
    obtain ⟨fuel, value, hdecode⟩ := decode_encode v hvalue
    obtain ⟨more, out', hloop, hranges⟩ := dictLoop_encode entries
      ((key, value, pos + (encodeString key).length,
        pos + (encodeString key).length + (encode v).length) :: out) (drop_add hvalue)
    refine ⟨fuel + more + 1, out', ?_, ?_⟩
    · rw [dictLoop, if_neg hne, encodeEntries, List.length_append, List.length_append,
        ← Nat.add_assoc, ← Nat.add_assoc]
      exact Outcome.bind_eq_ok.2 ⟨_, hkey, Outcome.bind_eq_ok.2
        ⟨_, decode_mono (by omega) hdecode, dictLoop_mono (by omega) hloop⟩⟩
    · rw [hranges, ranges_cons, slice_eq hvalue, texts_cons, List.reverse_cons, List.append_assoc,
        List.singleton_append]

end

end UltraTorrent.Rtorrent.BencodeGrammar
