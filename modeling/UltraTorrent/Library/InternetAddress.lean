import Mathlib.Data.List.Forall2
import Mathlib.Data.List.TakeWhile
import Mathlib.Tactic.IntervalCases
import UltraTorrent.Library.Segments
import UltraTorrent.Library.Text

/-! Internet addresses and how they are written: dotted quads, and the groups of an IPv6 address,
of which a gap may stand for zeros and a dotted quad for the last two. -/
namespace UltraTorrent.Library.InternetAddress

open Text

structure IPv4 where
  a : Fin 256
  b : Fin 256
  c : Fin 256
  d : Fin 256
  deriving DecidableEq

/-- Eight groups of sixteen bits. -/
@[ext]
structure IPv6 where
  groups : List ℕ
  length_groups : groups.length = 8
  lt_of_mem : ∀ g ∈ groups, g < 65536
  deriving DecidableEq

def IPv6.ofGroups (groups : List ℕ) : Option IPv6 :=
  if h : groups.length = 8 ∧ ∀ g ∈ groups, g < 65536 then some ⟨groups, h.1, h.2⟩ else none

theorem IPv6.ofGroups_eq_some {groups : List ℕ} {a : IPv6} : ofGroups groups = some a ↔ groups = a.groups := by
  unfold ofGroups
  constructor
  · intro h
    split_ifs at h
    cases h
    rfl
  · rintro rfl
    rw [dif_pos ⟨a.length_groups, a.lt_of_mem⟩]

/-- The two groups a dotted quad stands for. -/
def IPv4.groups (q : IPv4) : List ℕ := [q.a * 256 + q.b, q.c * 256 + q.d]

theorem IPv4.groups_injective {q r : IPv4} (h : q.groups = r.groups) : q = r := by
  obtain ⟨a, b, c, d⟩ := q
  obtain ⟨a', b', c', d'⟩ := r
  simp only [groups, List.cons.injEq, and_true] at h
  rw [IPv4.mk.injEq]
  omega

/-! ### Reading -/

def hexDigit (c : Char) : Option ℕ :=
  if '0' ≤ c ∧ c ≤ '9' then some (c.toNat - 48)
  else if 'a' ≤ c ∧ c ≤ 'f' then some (c.toNat - 87)
  else if 'A' ≤ c ∧ c ≤ 'F' then some (c.toNat - 55)
  else none

/-- One to four hexadecimal digits. -/
def hextet (p : List Char) : Option ℕ :=
  if p.length = 0 ∨ 4 < p.length then none
  else (p.mapM hexDigit).map (List.foldl (fun n d => 16 * n + d) 0)

def decimalDigit (c : Char) : Option ℕ := if c.isDigit then some (c.toNat - 48) else none

def decimal (p : List Char) : Option ℕ :=
  if p = [] then none else (p.mapM decimalDigit).map (List.foldl (fun n d => 10 * n + d) 0)

/-- A decimal byte, without leading zeros. -/
def byte (p : List Char) : Option (Fin 256) :=
  if p.head? = some '0' ∧ p ≠ ['0'] then none
  else (decimal p).bind fun n => if h : n < 256 then some ⟨n, h⟩ else none

def parseIPv4 (text : List Char) : Option IPv4 :=
  match text.splitOn '.' with
  | [a, b, c, d] => do some ⟨← byte a, ← byte b, ← byte c, ← byte d⟩
  | _ => none

/-- What stands between the colons; the last piece may be a dotted quad. -/
def pieces : List (List Char) → Option (List ℕ)
  | [] => some []
  | [p] => ((hextet p).map fun g => [g]).or ((parseIPv4 p).map IPv4.groups)
  | p :: q :: rest => (hextet p).bind fun g => (pieces (q :: rest)).map (g :: ·)

def gap : List Char := [':', ':']

def before (text : List Char) : Option (List ℕ) :=
  if text = [] then some [] else (text.splitOn ':').mapM hextet

def after (text : List Char) : Option (List ℕ) :=
  if text = [] then some [] else pieces (text.splitOn ':')

/-- A gap stands for one group at least. -/
def parseGroups (text : List Char) : Option (List ℕ) :=
  match splitOnce gap text with
  | none => pieces (text.splitOn ':')
  | some (l, r) => do
    let left ← before l
    let right ← after r
    if left.length + right.length < 8 then
      some (left ++ List.replicate (8 - left.length - right.length) 0 ++ right)
    else none

def parseIPv6 (text : List Char) : Option IPv6 := (parseGroups text).bind IPv6.ofGroups

def isZoneChar (c : Char) : Bool := c.isAlphanum || c = '-' || c = '.' || c = ':'

/-- `isIP`: the version of the address a text is. An IPv6 address may be followed by a zone. -/
def isIP (text : String) : ℕ :=
  let address := text.toList.takeWhile (· ≠ '%')
  let zone := text.toList.dropWhile (· ≠ '%')
  if (parseIPv4 text.toList).isSome then 4
  else if (parseIPv6 address).isSome ∧ (zone = [] ∨ zone.length ≠ 1 ∧ zone.tail.all isZoneChar) then 6
  else 0

example : (parseIPv6 "::ffff:127.0.0.1".toList).map (·.groups) = some [0, 0, 0, 0, 0, 65535, 32512, 1] := by
  decide +kernel

example : ["1:2:3:4:5:6:7::", "::", "1::2::3", ":::", "1:2:3:4:5:6:7", "::00000", "fe80::1%eth0",
    "127.0.0.1", "127.0.0.01"].map isIP = [6, 6, 0, 0, 0, 0, 6, 4, 0] := by decide +kernel

/-! ### Characters -/

/-- What its case is, and what it is as a digit. -/
def charFacts (c : Char) : Bool :=
  (c.toLower = c || c.toLower.isLower) && (!c.isDigit || !c.isLower && c.toLower = c) &&
    decide (hexDigit c.toLower = hexDigit c) && (hexDigit c).all fun d =>
      decide (d < 16 ∧ c.toLower = Nat.digitChar d ∧ c ≠ ':' ∧ c ≠ '.' ∧ c ≠ '%')

/-- Every ASCII character is checked. -/
theorem charFacts_ascii {c : Char} (hc : c.toNat < 128) : charFacts c = true := by
  have h : (List.range 128).all (fun n => charFacts (Char.ofNat n)) = true := by decide +kernel
  rw [List.all_eq_true] at h
  rw [← Char.ofNat_toNat c]
  exact h c.toNat (List.mem_range.2 hc)

theorem ascii_spec {c : Char} (hc : c.toNat < 128) :
    (c.toLower = c ∨ c.toLower.isLower = true) ∧
      (c.isDigit = true → c.isLower = false ∧ c.toLower = c) ∧ hexDigit c.toLower = hexDigit c ∧
      ∀ d, hexDigit c = some d →
        d < 16 ∧ c.toLower = Nat.digitChar d ∧ c ≠ ':' ∧ c ≠ '.' ∧ c ≠ '%' := by
  have h := charFacts_ascii hc
  rw [charFacts] at h
  obtain ⟨h, hhex⟩ := Bool.and_eq_true_iff.1 h
  obtain ⟨h, hsame⟩ := Bool.and_eq_true_iff.1 h
  obtain ⟨hcase, hdigit⟩ := Bool.and_eq_true_iff.1 h
  refine ⟨by simpa using hcase, fun hd => by simpa [hd] using hdigit, of_decide_eq_true hsame,
    fun d hd => ?_⟩
  rw [hd] at hhex
  exact of_decide_eq_true hhex

theorem lt_of_le_char {c x : Char} (h : c ≤ x) (hx : x.toNat < 128) : c.toNat < 128 :=
  lt_of_le_of_lt (UInt32.le_iff_toNat_le.1 h) hx

theorem toLower_of_le {c : Char} (hc : 128 ≤ c.toNat) : c.toLower = c := by
  unfold Char.toLower
  rw [dif_neg]
  rintro ⟨-, h⟩
  exact absurd (lt_of_le_char h (by decide)) (not_lt.2 hc)

theorem toLower_cases (c : Char) : c.toLower = c ∨ c.toLower.isLower = true := by
  by_cases hc : c.toNat < 128
  · exact (ascii_spec hc).1
  · exact .inl (toLower_of_le (not_lt.1 hc))

theorem eq_of_toLower {c x : Char} (h : c.toLower = x) (hx : x.isLower = false) : c = x := by
  rcases toLower_cases c with hc | hc
  · exact hc.symm.trans h
  · rw [h, hx] at hc
    cases hc

theorem eq_of_map_toLower {text lower : List Char} (h : text.map Char.toLower = lower)
    (hlower : ∀ c ∈ lower, c.isLower = false) : text = lower := by
  subst h
  induction text with
  | nil => rfl
  | cons c text ih =>
    rw [List.map_cons, ← ih fun x hx => hlower x (List.mem_cons_of_mem _ hx),
      ← eq_of_toLower rfl (hlower c.toLower List.mem_cons_self)]

theorem caseless_of_all {text : List Char} (h : text.all (fun c => !c.isLower) = true) :
    ∀ c ∈ text, c.isLower = false := by
  simpa only [List.all_eq_true, Bool.not_eq_true'] using h

theorem case_of_isDigit {c : Char} (h : c = '.' ∨ c.isDigit = true) : c.isLower = false ∧ c.toLower = c := by
  rcases h with rfl | h
  · exact ⟨rfl, rfl⟩
  · have hle : c ≤ '9' := of_decide_eq_true (Bool.and_eq_true_iff.1 h).2
    exact (ascii_spec (lt_of_le_char hle (by decide))).2.1 h

theorem lt_of_hexDigit {c : Char} {d : ℕ} (h : hexDigit c = some d) : c.toNat < 128 := by
  unfold hexDigit at h
  split_ifs at h with hdigit hlower hupper
  · exact lt_of_le_char hdigit.2 (by decide)
  · exact lt_of_le_char hlower.2 (by decide)
  · exact lt_of_le_char hupper.2 (by decide)

theorem hexDigit_spec {c : Char} {d : ℕ} (h : hexDigit c = some d) :
    d < 16 ∧ c.toLower = Nat.digitChar d ∧ c ≠ ':' ∧ c ≠ '.' ∧ c ≠ '%' :=
  (ascii_spec (lt_of_hexDigit h)).2.2.2 d h

theorem hexDigit_toLower (c : Char) : hexDigit c.toLower = hexDigit c := by
  by_cases hc : c.toNat < 128
  · exact (ascii_spec hc).2.2.1
  · rw [toLower_of_le (not_lt.1 hc)]

theorem hextet_map_toLower (p : List Char) : hextet (p.map Char.toLower) = hextet p := by
  simp only [hextet, List.length_map, List.mapM_map, hexDigit_toLower, Function.comp_def]

/-! ### Pieces -/

theorem mapM_eq_some {α β : Type*} {f : α → Option β} {l : List α} {r : List β} :
    l.mapM f = some r ↔ List.Forall₂ (fun a b => f a = some b) l r := by
  induction l generalizing r with
  | nil => simp [eq_comm, List.forall₂_nil_left_iff]
  | cons a l ih =>
    rw [List.mapM_cons, List.forall₂_cons_left_iff]
    simp only [Option.bind_eq_bind, Option.pure_def, Option.bind_eq_some_iff, Option.some.injEq, ih]
    constructor
    · rintro ⟨b, hb, bs, hbs, rfl⟩
      exact ⟨b, bs, hb, hbs, rfl⟩
    · rintro ⟨b, bs, hb, hbs, rfl⟩
      exact ⟨b, hb, bs, hbs, rfl⟩

theorem hextet_eq_some {p : List Char} {g : ℕ} : hextet p = some g ↔ (0 < p.length ∧ p.length ≤ 4) ∧
    ∃ ds, List.Forall₂ (fun c d => hexDigit c = some d) p ds ∧ ds.foldl (fun n d => 16 * n + d) 0 = g := by
  unfold hextet
  split_ifs with hlength
  · refine ⟨by rintro ⟨⟩, ?_⟩
    rintro ⟨_, -⟩
    omega
  · rw [Option.map_eq_some_iff]
    simp only [mapM_eq_some]
    constructor
    · rintro ⟨ds, hds, rfl⟩
      exact ⟨by omega, ds, hds, rfl⟩
    · rintro ⟨-, ds, hds, rfl⟩
      exact ⟨ds, hds, rfl⟩

theorem Forall₂.exists_of_mem {α β : Type*} {R : α → β → Prop} {l : List α} {r : List β}
    (h : List.Forall₂ R l r) {a : α} (ha : a ∈ l) : ∃ b, R a b := by
  induction h with
  | nil => cases ha
  | cons hab _ ih =>
    rcases List.mem_cons.1 ha with rfl | ha
    · exact ⟨_, hab⟩
    · exact ih ha

theorem hextet_chars {p : List Char} {g : ℕ} (h : hextet p = some g) :
    p ≠ [] ∧ ∀ c ∈ p, c ≠ ':' ∧ c ≠ '.' ∧ c ≠ '%' := by
  obtain ⟨hlength, ds, hds, -⟩ := hextet_eq_some.1 h
  refine ⟨List.ne_nil_of_length_pos hlength.1, fun c hc => ?_⟩
  obtain ⟨d, hd⟩ := Forall₂.exists_of_mem hds hc
  exact (hexDigit_spec hd).2.2

theorem decimal_chars {p : List Char} {n : ℕ} (h : decimal p = some n) :
    p ≠ [] ∧ ∀ c ∈ p, c.isDigit = true := by
  unfold decimal at h
  split_ifs at h with hne
  obtain ⟨ds, hds, -⟩ := Option.map_eq_some_iff.1 h
  refine ⟨hne, fun c hc => ?_⟩
  obtain ⟨d, hd⟩ := Forall₂.exists_of_mem (mapM_eq_some.1 hds) hc
  unfold decimalDigit at hd
  split_ifs at hd with hdigit
  exact hdigit

theorem decimal_of_byte {p : List Char} {n : Fin 256} (h : byte p = some n) : decimal p = some n.val := by
  unfold byte at h
  split_ifs at h
  obtain ⟨m, hm, hn⟩ := Option.bind_eq_some_iff.1 h
  split_ifs at hn
  cases hn
  exact hm

theorem byte_chars {p : List Char} {n : Fin 256} (h : byte p = some n) : ∀ c ∈ p, c.isDigit = true :=
  (decimal_chars (decimal_of_byte h)).2

theorem parseIPv4_eq_some {text : List Char} {q : IPv4} : parseIPv4 text = some q ↔
    ∃ a b c d, text.splitOn '.' = [a, b, c, d] ∧ byte a = some q.a ∧ byte b = some q.b ∧
      byte c = some q.c ∧ byte d = some q.d := by
  unfold parseIPv4
  constructor
  · intro h
    split at h
    · rename_i a b c d hsplit
      simp only [Option.bind_eq_bind, Option.bind_eq_some_iff, Option.some.injEq] at h
      obtain ⟨_, ha, _, hb, _, hc, _, hd, rfl⟩ := h
      exact ⟨a, b, c, d, hsplit, ha, hb, hc, hd⟩
    · cases h
  · rintro ⟨a, b, c, d, hsplit, ha, hb, hc, hd⟩
    rw [hsplit]
    simp [ha, hb, hc, hd]

theorem parseIPv4_chars {text : List Char} {q : IPv4} (h : parseIPv4 text = some q) :
    '.' ∈ text ∧ ∀ c ∈ text, c = '.' ∨ c.isDigit = true := by
  obtain ⟨a, b, c, d, hsplit, ha, hb, hc, hd⟩ := parseIPv4_eq_some.1 h
  constructor
  · by_contra hdot
    rw [List.splitOn_eq_singleton hdot] at hsplit
    cases hsplit
  · intro x hx
    refine (Segments.mem_of_mem_splitOn '.' hx).imp_right ?_
    rintro ⟨p, hp, hxp⟩
    rw [hsplit] at hp
    rcases List.mem_cons.1 hp with rfl | hp
    · exact byte_chars ha x hxp
    rcases List.mem_cons.1 hp with rfl | hp
    · exact byte_chars hb x hxp
    rcases List.mem_cons.1 hp with rfl | hp
    · exact byte_chars hc x hxp
    · cases List.mem_singleton.1 hp
      exact byte_chars hd x hxp

theorem pieces_chars {ps : List (List Char)} {gs : List ℕ} (h : pieces ps = some gs) :
    ∀ p ∈ ps, p ≠ [] ∧ '%' ∉ p := by
  induction ps using pieces.induct generalizing gs with
  | case1 => rintro p ⟨⟩
  | case2 p =>
    rintro _ hp
    cases List.mem_singleton.1 hp
    rw [pieces, Option.or_eq_some_iff] at h
    rcases h with h | ⟨-, h⟩
    · obtain ⟨g, hg, -⟩ := Option.map_eq_some_iff.1 h
      exact ⟨(hextet_chars hg).1, fun hc => ((hextet_chars hg).2 _ hc).2.2 rfl⟩
    · obtain ⟨q, hq, -⟩ := Option.map_eq_some_iff.1 h
      obtain ⟨hdot, hchars⟩ := parseIPv4_chars hq
      refine ⟨List.ne_nil_of_mem hdot, fun hc => ?_⟩
      rcases hchars _ hc with hc | hc <;> revert hc <;> decide
  | case3 p q rest ih =>
    rw [pieces, Option.bind_eq_some_iff] at h
    obtain ⟨g, hg, h⟩ := h
    obtain ⟨rest, hrest, -⟩ := Option.map_eq_some_iff.1 h
    intro x hx
    rcases List.mem_cons.1 hx with rfl | hx
    · exact ⟨(hextet_chars hg).1, fun hc => ((hextet_chars hg).2 _ hc).2.2 rfl⟩
    · exact ih hrest x hx

/-! ### Gaps -/

theorem nil_mem_splitOn_cons (r : List Char) : [] ∈ (':' :: r).splitOn ':' := by
  rw [← List.nil_append (':' :: r), List.splitOn_append_cons_self, List.splitOn_nil]
  exact List.mem_append_left _ (List.mem_singleton_self _)

theorem nil_mem_splitOn_gap (l r : List Char) : [] ∈ (l ++ gap ++ r).splitOn ':' := by
  rw [List.append_assoc, gap, List.cons_append, List.cons_append, List.splitOn_append_cons_self,
    List.nil_append]
  exact List.mem_append_right _ (nil_mem_splitOn_cons r)

theorem splitOnce_gap (l r : List Char) : splitOnce gap (l ++ gap ++ r) = some (l, r) ∨
    ∃ l' r', splitOnce gap (l ++ gap ++ r) = some (l', r') ∧
      (l ≠ [] ∧ [] ∈ l.splitOn ':') ∧ r' ≠ [] ∧ [] ∈ r'.splitOn ':' := by
  obtain ⟨l', x, r', hparts, rfl⟩ := splitOnce_append gap l r
  have htext := eq_of_splitOnce hparts
  rw [List.append_assoc, List.append_assoc, List.append_assoc, List.append_right_inj] at htext
  rcases x with _ | ⟨c, _ | ⟨d, x⟩⟩
  · left
    have hr : r = r' := List.append_cancel_left htext
    rw [hparts, List.append_nil, hr]
  · right
    cases htext
    refine ⟨l', _, hparts, ⟨by simp, ?_⟩, by simp, ?_⟩
    · rw [List.splitOn_append_cons_self]
      simp
    · exact nil_mem_splitOn_cons r
  · right
    cases htext
    refine ⟨l', _, hparts, ⟨by simp, ?_⟩, by simp [gap], ?_⟩
    · have h := nil_mem_splitOn_gap l' x
      rwa [List.append_assoc] at h
    · have h := nil_mem_splitOn_gap x r
      rwa [List.append_assoc] at h

/-! ### Addresses -/

theorem parseIPv6_of_gap {text l r : List Char} {a : IPv6} (hparts : splitOnce gap text = some (l, r)) :
    parseIPv6 text = some a ↔ ∃ left right, before l = some left ∧ after r = some right ∧
      left.length + right.length < 8 ∧
      left ++ List.replicate (8 - left.length - right.length) 0 ++ right = a.groups := by
  simp only [parseIPv6, parseGroups, hparts, Option.bind_eq_bind, Option.bind_eq_some_iff,
    Option.ite_none_right_eq_some, Option.some.injEq, IPv6.ofGroups_eq_some]
  constructor
  · rintro ⟨_, ⟨left, hleft, right, hright, hlength, rfl⟩, hgroups⟩
    exact ⟨left, right, hleft, hright, hlength, hgroups⟩
  · rintro ⟨left, right, hleft, hright, hlength, hgroups⟩
    exact ⟨_, ⟨left, hleft, right, hright, hlength, rfl⟩, hgroups⟩

theorem parseIPv6_of_none {text : List Char} {a : IPv6} (hparts : splitOnce gap text = none) :
    parseIPv6 text = some a ↔ pieces (text.splitOn ':') = some a.groups := by
  simp only [parseIPv6, parseGroups, hparts, Option.bind_eq_some_iff, IPv6.ofGroups_eq_some,
    exists_eq_right]

theorem before_chars {l : List Char} {left : List ℕ} (h : before l = some left) : '%' ∉ l := by
  unfold before at h
  split_ifs at h with hl
  · rw [hl]
    exact List.not_mem_nil
  · intro hc
    rcases Segments.mem_of_mem_splitOn ':' hc with hc | ⟨p, hp, hcp⟩
    · cases hc
    · obtain ⟨g, hg⟩ := Forall₂.exists_of_mem (mapM_eq_some.1 h) hp
      exact ((hextet_chars hg).2 _ hcp).2.2 rfl

theorem pieces_splitOn_chars {text : List Char} {gs : List ℕ} (h : pieces (text.splitOn ':') = some gs) :
    '%' ∉ text := by
  intro hc
  rcases Segments.mem_of_mem_splitOn ':' hc with hc | ⟨p, hp, hcp⟩
  · cases hc
  · exact (pieces_chars h p hp).2 hcp

theorem after_chars {r : List Char} {right : List ℕ} (h : after r = some right) : '%' ∉ r := by
  unfold after at h
  split_ifs at h with hr
  · rw [hr]
    exact List.not_mem_nil
  · exact pieces_splitOn_chars h

theorem length_pieces_singleton {p : List Char} {gs : List ℕ} (h : pieces [p] = some gs) :
    gs.length ≤ 2 := by
  rw [pieces, Option.or_eq_some_iff] at h
  rcases h with h | ⟨-, h⟩
  · obtain ⟨g, -, rfl⟩ := Option.map_eq_some_iff.1 h
    exact Nat.le_succ _
  · obtain ⟨q, -, rfl⟩ := Option.map_eq_some_iff.1 h
    exact le_rfl

theorem parseIPv6_chars {text : List Char} {a : IPv6} (h : parseIPv6 text = some a) :
    ':' ∈ text ∧ '%' ∉ text := by
  cases hparts : splitOnce gap text with
  | none =>
    have hpieces := (parseIPv6_of_none hparts).1 h
    refine ⟨?_, pieces_splitOn_chars hpieces⟩
    by_contra hcolon
    rw [List.splitOn_eq_singleton hcolon] at hpieces
    have hlength := length_pieces_singleton hpieces
    rw [a.length_groups] at hlength
    omega
  | some parts =>
    obtain ⟨l, r⟩ := parts
    obtain ⟨left, right, hleft, hright, -⟩ := (parseIPv6_of_gap hparts).1 h
    rw [eq_of_splitOnce hparts]
    refine ⟨by simp [gap], ?_⟩
    simp only [List.mem_append, not_or]
    exact ⟨⟨before_chars hleft, by decide⟩, after_chars hright⟩

theorem isIP_of_parseIPv6 {text : String} {a : IPv6} (h : parseIPv6 text.toList = some a) :
    isIP text = 6 := by
  obtain ⟨hcolon, hzone⟩ := parseIPv6_chars h
  have hv4 : parseIPv4 text.toList = none := by
    rw [Option.eq_none_iff_forall_ne_some]
    intro q hq
    rcases (parseIPv4_chars hq).2 _ hcolon with hc | hc <;> revert hc <;> decide
  have hplain : ∀ c ∈ text.toList, decide (c ≠ '%') = true := by
    intro c hc
    rw [decide_eq_true_eq]
    rintro rfl
    exact hzone hc
  have haddress : text.toList.takeWhile (· ≠ '%') = text.toList := List.takeWhile_eq_self_iff.2 hplain
  have hrest : text.toList.dropWhile (· ≠ '%') = [] := List.dropWhile_eq_nil_iff.2 hplain
  simp only [isIP, hv4, haddress, hrest, h, Option.isSome_none, Option.isSome_some, Bool.false_eq_true,
    if_false, true_or, and_self, if_true]

theorem splitOn_head {text p : List Char} {rest : List (List Char)} (h : text.splitOn ':' = p :: rest) :
    rest = [] ∧ text = p ∨ ∃ r, text = p ++ ':' :: r := by
  have hjoin : [':'].intercalate (text.splitOn ':') = text := List.intercalate_splitOn ':'
  rw [h] at hjoin
  cases rest with
  | nil => exact .inl ⟨rfl, by rw [← hjoin, List.intercalate_singleton]⟩
  | cons q rest =>
    refine .inr ⟨[':'].intercalate (q :: rest), ?_⟩
    rw [← hjoin, List.intercalate_cons_cons, List.append_assoc]
    rfl

def IPv6.first (a : IPv6) : ℕ := a.groups.headD 0

theorem parseIPv6_head {text : List Char} {a : IPv6} (h : parseIPv6 text = some a) :
    (a.first = 0 ∧ ∃ r, text = ':' :: r) ∨ ∃ p r, text = p ++ ':' :: r ∧ hextet p = some a.first := by
  cases hparts : splitOnce gap text with
  | none =>
    have hpieces := (parseIPv6_of_none hparts).1 h
    obtain ⟨p, rest, hsplit⟩ := List.exists_cons_of_ne_nil (List.splitOn_ne_nil ':' text)
    rw [hsplit] at hpieces
    cases rest with
    | nil =>
      have hlength := length_pieces_singleton hpieces
      rw [a.length_groups] at hlength
      omega
    | cons q rest =>
      rcases splitOn_head hsplit with ⟨hnil, -⟩ | ⟨r, hr⟩
      · cases hnil
      · rw [pieces, Option.bind_eq_some_iff] at hpieces
        obtain ⟨g, hg, hpieces⟩ := hpieces
        obtain ⟨gs, -, hgroups⟩ := Option.map_eq_some_iff.1 hpieces
        refine .inr ⟨p, r, hr, ?_⟩
        rw [hg, IPv6.first, ← hgroups]
        rfl
  | some parts =>
    obtain ⟨l, r⟩ := parts
    obtain ⟨left, right, hleft, hright, hlength, hgroups⟩ := (parseIPv6_of_gap hparts).1 h
    have htext := eq_of_splitOnce hparts
    unfold before at hleft
    split_ifs at hleft with hl
    · cases hleft
      refine .inl ⟨?_, ':' :: r, by rw [htext, hl]; rfl⟩
      obtain ⟨k, hk⟩ : ∃ k, 8 - right.length = k + 1 := ⟨7 - right.length, by simp at hlength; omega⟩
      rw [IPv6.first, ← hgroups, List.length_nil, Nat.sub_zero, hk, List.replicate_succ]
      rfl
    · obtain ⟨p, rest, hsplit⟩ := List.exists_cons_of_ne_nil (List.splitOn_ne_nil ':' l)
      rw [hsplit] at hleft
      obtain ⟨g, gs, hg, -, hcons⟩ := List.forall₂_cons_left_iff.1 (mapM_eq_some.1 hleft)
      have hfirst : hextet p = some a.first := by
        rw [hg, IPv6.first, ← hgroups, hcons]
        rfl
      rcases splitOn_head hsplit with ⟨-, rfl⟩ | ⟨l', rfl⟩
      · exact .inr ⟨l, ':' :: r, by rw [htext, List.append_assoc]; rfl, hfirst⟩
      · refine .inr ⟨p, l' ++ gap ++ r, ?_, hfirst⟩
        rw [htext, List.append_assoc, List.append_assoc, List.append_assoc]
        rfl

theorem after_quad {f q : List Char} (hf : ':' ∉ f) (hq : ':' ∉ q) (hdot : '.' ∈ q) :
    after (f ++ ':' :: q) = (hextet f).bind fun g => (parseIPv4 q).map fun v => g :: v.groups := by
  have hnone : hextet q = none := by
    rw [Option.eq_none_iff_forall_ne_some]
    intro g hg
    exact ((hextet_chars hg).2 _ hdot).2.1 rfl
  rw [after, if_neg (by simp), List.splitOn_append_cons_self_of_not_mem hf, List.splitOn_eq_singleton hq,
    pieces, pieces, hnone, Option.map_none, Option.none_or]
  simp only [Option.map_map, Function.comp_def]

theorem parseIPv6_quad {l f q : List Char} {a : IPv6} (h : parseIPv6 (l ++ gap ++ (f ++ ':' :: q)) = some a)
    (hf : ':' ∉ f) (hq : ':' ∉ q) (hdot : '.' ∈ q) :
    ∃ g v, hextet f = some g ∧ parseIPv4 q = some v ∧ a.groups.drop 4 = 0 :: g :: v.groups := by
  rcases splitOnce_gap l (f ++ ':' :: q) with hparts | ⟨l', r', hparts, -, hr, hnil⟩
  · obtain ⟨left, right, -, hright, hlength, hgroups⟩ := (parseIPv6_of_gap hparts).1 h
    simp only [after_quad hf hq hdot, Option.bind_eq_some_iff, Option.map_eq_some_iff] at hright
    obtain ⟨g, hg, v, hv, rfl⟩ := hright
    refine ⟨g, v, hg, hv, ?_⟩
    have hthree : (g :: v.groups).length = 3 := rfl
    rw [hthree] at hlength hgroups
    obtain ⟨k, hk⟩ : ∃ k, 8 - left.length - 3 = k + 1 := ⟨4 - left.length, by omega⟩
    rw [← hgroups, hk, List.replicate_succ', ← List.append_assoc, List.append_assoc]
    exact List.drop_left' (by rw [List.length_append, List.length_replicate]; omega)
  · obtain ⟨left, right, -, hright, -⟩ := (parseIPv6_of_gap hparts).1 h
    rw [after, if_neg hr] at hright
    exact absurd rfl (pieces_chars hright _ hnil).1

/-! ### Writing -/

section Writing

variable {ps : List (List Char)} {gs : List ℕ} (h : List.Forall₂ (fun p g => hextet p = some g) ps gs)
include h

theorem pieces_of_hextets : pieces ps = some gs := by
  induction h with
  | nil => rfl
  | @cons p g ps gs hp hrest ih =>
    cases ps with
    | nil =>
      cases hrest
      rw [pieces, hp]
      rfl
    | cons q ps =>
      rw [pieces, hp, Option.bind_some, ih]
      rfl

theorem splitOn_join (hne : ps ≠ []) : ([':'].intercalate ps).splitOn ':' = ps := by
  refine List.splitOn_intercalate ':' (fun p hp hc => ?_) hne
  obtain ⟨g, hg⟩ := Forall₂.exists_of_mem h hp
  exact ((hextet_chars hg).2 _ hc).1 rfl

theorem nil_notMem_join : [] ∉ ps := by
  intro hnil
  obtain ⟨g, hg⟩ := Forall₂.exists_of_mem h hnil
  cases hg

theorem splitOnce_join (hne : ps ≠ []) : splitOnce gap ([':'].intercalate ps) = none := by
  rw [Option.eq_none_iff_forall_ne_some]
  rintro ⟨l, r⟩ hparts
  have hnil := nil_mem_splitOn_gap l r
  rw [← eq_of_splitOnce hparts, splitOn_join h hne] at hnil
  exact nil_notMem_join h hnil

theorem parseIPv6_join {a : IPv6} (hne : ps ≠ []) (hgroups : gs = a.groups) :
    parseIPv6 ([':'].intercalate ps) = some a := by
  rw [parseIPv6_of_none (splitOnce_join h hne), splitOn_join h hne, pieces_of_hextets h, hgroups]

theorem parseIPv6_join_gap {r : List Char} {right : List ℕ} {a : IPv6} (hne : ps ≠ [])
    (hright : after r = some right) (hlength : gs.length + right.length < 8)
    (hgroups : gs ++ List.replicate (8 - gs.length - right.length) 0 ++ right = a.groups) :
    parseIPv6 ([':'].intercalate ps ++ gap ++ r) = some a := by
  have hsplit := splitOn_join h hne
  rcases splitOnce_gap ([':'].intercalate ps) r with hparts | ⟨_, _, -, ⟨-, hnil⟩, -⟩
  · refine (parseIPv6_of_gap hparts).2 ⟨gs, right, ?_, hright, hlength, hgroups⟩
    rw [before, if_neg, hsplit]
    · exact mapM_eq_some.2 h
    · intro hempty
      rw [hempty, List.splitOn_nil] at hsplit
      exact nil_notMem_join h (hsplit ▸ List.mem_singleton_self _)
  · rw [hsplit] at hnil
    exact absurd hnil (nil_notMem_join h)

end Writing

theorem hexDigit_digitChar {d : ℕ} (hd : d < 16) : hexDigit (Nat.digitChar d) = some d := by
  interval_cases d <;> rfl

theorem hextet_digits {ds : List ℕ} (hpos : 0 < ds.length) (hle : ds.length ≤ 4) (hds : ∀ d ∈ ds, d < 16) :
    hextet (ds.map Nat.digitChar) = some (ds.foldl (fun n d => 16 * n + d) 0) := by
  refine hextet_eq_some.2 ⟨by rw [List.length_map]; exact ⟨hpos, hle⟩, ds, ?_, rfl⟩
  rw [List.forall₂_map_left_iff, List.forall₂_same]
  exact fun d hd => hexDigit_digitChar (hds d hd)

theorem exists_digits {p : List Char} {g : ℕ} (h : hextet p = some g) : ∃ ds : List ℕ,
    p.map Char.toLower = ds.map Nat.digitChar ∧ (0 < ds.length ∧ ds.length ≤ 4) ∧ (∀ d ∈ ds, d < 16) ∧
      ds.foldl (fun n d => 16 * n + d) 0 = g := by
  obtain ⟨hlength, ds, hds, hg⟩ := hextet_eq_some.1 h
  rw [hds.length_eq] at hlength
  refine ⟨ds, ?_, hlength, ?_, hg⟩ <;> clear hlength hg h
  · induction hds with
    | nil => rfl
    | cons hd _ ih => rw [List.map_cons, List.map_cons, ih, (hexDigit_spec hd).2.1]
  · induction hds with
    | nil => rintro _ ⟨⟩
    | cons hd _ ih =>
      intro x hx
      rcases List.mem_cons.1 hx with rfl | hx
      · exact (hexDigit_spec hd).1
      · exact ih x hx

/-- The four digits of a group. -/
def digits (g : ℕ) : List ℕ := [g / 4096, g / 256 % 16, g / 16 % 16, g % 16]

theorem digits_lt {g : ℕ} (hg : g < 65536) : ∀ d ∈ digits g, d < 16 := by
  simp only [digits, List.mem_cons, List.not_mem_nil, or_false]
  rintro d (rfl | rfl | rfl | rfl) <;> omega

theorem foldl_digits (g : ℕ) : (digits g).foldl (fun n d => 16 * n + d) 0 = g := by
  simp only [digits, List.foldl_cons, List.foldl_nil]
  omega

theorem hextet_text {g : ℕ} (hg : g < 65536) : hextet ((digits g).map Nat.digitChar) = some g := by
  have hpos : 0 < (digits g).length := Nat.succ_pos _
  have hle : (digits g).length ≤ 4 := le_rfl
  rw [hextet_digits hpos hle (digits_lt hg), foldl_digits]

theorem hextets_text {gs : List ℕ} (hgs : ∀ g ∈ gs, g < 65536) :
    List.Forall₂ (fun p g => hextet p = some g) (gs.map fun g => (digits g).map Nat.digitChar) gs := by
  rw [List.forall₂_map_left_iff, List.forall₂_same]
  exact fun g hg => hextet_text (hgs g hg)

/-- All groups of an address, with all their digits. -/
def IPv6.text (a : IPv6) : List Char :=
  [':'].intercalate (a.groups.map fun g => (digits g).map Nat.digitChar)

theorem IPv6.exists_cons_cons (a : IPv6) : ∃ g rest, a.groups = a.first :: g :: rest := by
  obtain ⟨groups, hlength, -⟩ := a
  rcases groups with _ | ⟨f, _ | ⟨g, rest⟩⟩
  · cases hlength
  · cases hlength
  · exact ⟨g, rest, rfl⟩

theorem IPv6.map_groups_ne_nil {α : Type*} (a : IPv6) (f : ℕ → α) : a.groups.map f ≠ [] := by
  obtain ⟨g, rest, hgroups⟩ := a.exists_cons_cons
  rw [hgroups]
  exact List.cons_ne_nil _ _

theorem parseIPv6_text (a : IPv6) : parseIPv6 a.text = some a :=
  parseIPv6_join (hextets_text a.lt_of_mem) (a.map_groups_ne_nil _) rfl

theorem splitOnce_text (a : IPv6) : splitOnce gap a.text = none :=
  splitOnce_join (hextets_text a.lt_of_mem) (a.map_groups_ne_nil _)

def IPv4.text (q : IPv4) : List Char :=
  ['.'].intercalate ([q.a, q.b, q.c, q.d].map fun n : Fin 256 => Nat.toDigits 10 n)

theorem byte_toDigits (n : Fin 256) : byte (Nat.toDigits 10 n) = some n := by
  revert n
  decide +kernel

theorem parseIPv4_text (q : IPv4) : parseIPv4 q.text = some q := by
  refine parseIPv4_eq_some.2 ⟨_, _, _, _, List.splitOn_intercalate '.' ?_ (by simp), byte_toDigits q.a,
    byte_toDigits q.b, byte_toDigits q.c, byte_toDigits q.d⟩
  intro p hp hc
  obtain ⟨n, -, rfl⟩ := List.mem_map.1 hp
  exact absurd (byte_chars (byte_toDigits n) '.' hc) (by decide)

end UltraTorrent.Library.InternetAddress
