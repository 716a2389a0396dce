import UltraTorrent.Library.InternetAddress

/-! The guard on outbound requests: which addresses the server must not be sent to. -/
namespace UltraTorrent.Network.OutboundGuard

open Library.InternetAddress

/-- `Number`, of a text of digits; `none` is not a number. -/
def number (p : List Char) : Option ℕ := if p = [] then some 0 else decimal p

/-- The ranges that are blocked: this host, private, loopback, link-local, carrier-grade NAT,
multicast and reserved. -/
def inBlockedRange (a b c : ℕ) : Bool :=
  a = 0 ∨ a = 10 ∨ a = 127 ∨ a = 169 ∧ b = 254 ∨ a = 172 ∧ b ≥ 16 ∧ b ≤ 31 ∨ a = 192 ∧ b = 168 ∨
    a = 100 ∧ b ≥ 64 ∧ b ≤ 127 ∨ a = 192 ∧ b = 0 ∧ c = 0 ∨ a ≥ 224

def ipv4Blocked (ip : List Char) : Bool :=
  match (ip.splitOn '.').map number with
  | [some a, some b, some c, some d] =>
    if a > 255 ∨ b > 255 ∨ c > 255 ∨ d > 255 then true else inBlockedRange a b c
  | _ => true

/-- `\d+\.\d+\.\d+\.\d+` -/
def isDotted (text : List Char) : Bool :=
  match text.splitOn '.' with
  | [a, b, c, d] => [a, b, c, d].all fun p => p ≠ [] ∧ p.all Char.isDigit
  | _ => false

def mappedPrefix : List Char := "::ffff:".toList

/-- `/::ffff:(\d+\.\d+\.\d+\.\d+)$/` -/
def matchMapped (v : List Char) : Option (List Char) :=
  v.tails.findSome? fun rest =>
    let dotted := rest.drop mappedPrefix.length
    if mappedPrefix.isPrefixOf rest ∧ isDotted dotted then some dotted else none

/-- The first digits of link-local, unique-local and multicast addresses. -/
def scopePrefixes : List (List Char) :=
  ["fe8", "fe9", "fea", "feb", "fc", "fd", "ff"].map String.toList

def startsScoped (v : List Char) : Bool := scopePrefixes.any (·.isPrefixOf v)

def ipv6Blocked (ip : List Char) : Bool :=
  let v := ip.map Char.toLower
  if v = "::1".toList ∨ v = "::".toList then true
  else if startsScoped v then true
  else match matchMapped v with
    | some mapped => ipv4Blocked mapped
    | none => false

def isBlockedAddress (ip : String) : Bool :=
  match isIP ip with
  | 4 => ipv4Blocked ip.toList
  | 6 => ipv6Blocked ip.toList
  | _ => true

example : ["127.0.0.1", "8.8.8.8", "::1", "FE80::1", "::FFFF:10.0.0.1", "::ffff:8.8.8.8", "2001:db8::1",
    "localhost"].map isBlockedAddress = [true, false, true, true, true, false, false, true] := by
  decide +kernel

/-! ### Dotted quads -/

def blocks (q : IPv4) : Bool := inBlockedRange q.a q.b q.c

theorem number_of_byte {p : List Char} {n : Fin 256} (h : byte p = some n) : number p = some n.val := by
  have hdecimal := decimal_of_byte h
  rw [number, if_neg (decimal_chars hdecimal).1, hdecimal]

theorem ipv4Blocked_of_parse {text : List Char} {q : IPv4} (h : parseIPv4 text = some q) :
    ipv4Blocked text = blocks q := by
  obtain ⟨a, b, c, d, hsplit, ha, hb, hc, hd⟩ := parseIPv4_eq_some.1 h
  have hrange : ¬ (q.a.val > 255 ∨ q.b.val > 255 ∨ q.c.val > 255 ∨ q.d.val > 255) := by omega
  simp only [ipv4Blocked, hsplit, List.map_cons, List.map_nil, number_of_byte ha, number_of_byte hb,
    number_of_byte hc, number_of_byte hd, if_neg hrange, blocks]

theorem isDotted_of_parse {text : List Char} {q : IPv4} (h : parseIPv4 text = some q) :
    isDotted text = true := by
  obtain ⟨a, b, c, d, hsplit, ha, hb, hc, hd⟩ := parseIPv4_eq_some.1 h
  have hbyte : ∀ {p : List Char} {n : Fin 256}, byte p = some n →
      decide (p ≠ [] ∧ p.all Char.isDigit = true) = true := by
    intro p n hp
    rw [decide_eq_true_eq]
    refine ⟨?_, List.all_eq_true.2 (byte_chars hp)⟩
    rintro rfl
    cases hp
  simp only [isDotted, hsplit, List.all_cons, List.all_nil, Bool.and_true, hbyte ha, hbyte hb, hbyte hc,
    hbyte hd]

theorem isDotted_chars {text : List Char} (h : isDotted text = true) :
    '.' ∈ text ∧ ∀ c ∈ text, c = '.' ∨ c.isDigit = true := by
  unfold isDotted at h
  split at h
  · rename_i a b c d hsplit
    constructor
    · by_contra hdot
      rw [List.splitOn_eq_singleton hdot] at hsplit
      cases hsplit
    · intro x hx
      refine (Library.Segments.mem_of_mem_splitOn '.' hx).imp_right ?_
      rintro ⟨p, hp, hxp⟩
      rw [hsplit] at hp
      have hdigits := of_decide_eq_true (List.all_eq_true.1 h p hp)
      exact List.all_eq_true.1 hdigits.2 x hxp
  · cases h

theorem of_matchMapped {v q : List Char} (h : matchMapped v = some q) :
    isDotted q = true ∧ ∃ l, v = l ++ mappedPrefix ++ q := by
  obtain ⟨rest, hrest, hfound⟩ := List.exists_of_findSome?_eq_some h
  dsimp only at hfound
  split_ifs at hfound with hcond
  cases hfound
  obtain ⟨l, rfl⟩ := (List.mem_tails _ _).1 hrest
  obtain ⟨tail, rfl⟩ := List.isPrefixOf_iff_prefix.1 hcond.1
  exact ⟨hcond.2, l, by rw [List.drop_left, List.append_assoc]⟩

theorem matchMapped_isSome (l : List Char) {q : List Char} (h : isDotted q = true) :
    (matchMapped (l ++ mappedPrefix ++ q)).isSome = true := by
  rw [matchMapped, List.findSome?_isSome_iff]
  refine ⟨mappedPrefix ++ q, (List.mem_tails _ _).2 ⟨l, (List.append_assoc _ _ _).symm⟩, ?_⟩
  rw [List.drop_left, if_pos ⟨List.isPrefixOf_iff_prefix.2 ⟨q, rfl⟩, h⟩]
  rfl

/-! ### Texts of an address -/

/-- A text of an IPv6 address. -/
def Denotes (text : String) (a : IPv6) : Prop := parseIPv6 text.toList = some a

theorem isBlockedAddress_of_denotes {text : String} {a : IPv6} (h : Denotes text a) :
    isBlockedAddress text = ipv6Blocked text.toList := by
  rw [isBlockedAddress, isIP_of_parseIPv6 h]
  rfl

theorem isBlockedAddress_of_parseIPv4 {text : String} {q : IPv4} (h : parseIPv4 text.toList = some q) :
    isBlockedAddress text = blocks q := by
  have hkind : isIP text = 4 := by
    rw [isIP, h]
    rfl
  rw [isBlockedAddress, hkind]
  exact ipv4Blocked_of_parse h

/-- What the pattern finds in a text of an address is the quad in its last two groups. -/
theorem mapped_groups {text q : List Char} {a : IPv6} (h : parseIPv6 text = some a)
    (hmatch : matchMapped (text.map Char.toLower) = some q) :
    ∃ v, parseIPv4 q = some v ∧ a.groups.drop 4 = 0 :: 65535 :: v.groups := by
  obtain ⟨hdotted, l, htext⟩ := of_matchMapped hmatch
  obtain ⟨hdot, hchars⟩ := isDotted_chars hdotted
  obtain ⟨t, q', rfl, ht, rfl⟩ := List.map_eq_append_iff.1 htext
  obtain ⟨l', m, rfl, -, hm⟩ := List.map_eq_append_iff.1 ht
  have hm : m.map Char.toLower = gap ++ ("ffff".toList ++ [':']) := hm
  obtain ⟨g, m, rfl, hg, hm⟩ := List.map_eq_append_iff.1 hm
  obtain ⟨f, c, rfl, hf, hc⟩ := List.map_eq_append_iff.1 hm
  have hplain := fun c hc => (case_of_isDigit (hchars c hc)).1
  obtain rfl := eq_of_map_toLower hg (caseless_of_all (by decide))
  obtain rfl := eq_of_map_toLower hc (caseless_of_all (by decide))
  rw [← eq_of_map_toLower rfl hplain] at hdot hchars ⊢
  have hsix : hextet f = some 65535 := by
    rw [← hextet_map_toLower, hf]
    decide +kernel
  rw [List.append_assoc, List.append_assoc, List.append_assoc, ← List.append_assoc l'] at h
  obtain ⟨g, v, hg, hv, hgroups⟩ := parseIPv6_quad h (fun hc => ((hextet_chars hsix).2 _ hc).1 rfl)
    (fun hc => by rcases hchars _ hc with hc | hc <;> revert hc <;> decide) hdot
  cases hsix.symm.trans hg
  exact ⟨v, hv, hgroups⟩

/-! ### Link-local, unique-local and multicast addresses -/

/-- fe80::/10, fc00::/7 and ff00::/8, by the first group. -/
def isScoped (g : ℕ) : Prop := g / 64 = 0xfe80 / 64 ∨ g / 512 = 0xfc00 / 512 ∨ g / 256 = 0xff

instance (g : ℕ) : Decidable (isScoped g) := inferInstanceAs (Decidable (_ ∨ _))

/-- Shorter groups that start with the same digits. -/
def looksScoped (g : ℕ) : Prop :=
  g = 0xfc ∨ g = 0xfd ∨ g = 0xff ∨ 0xfc0 ≤ g ∧ g ≤ 0xfdf ∨ 0xff0 ≤ g ∧ g ≤ 0xfff ∨ 0xfe8 ≤ g ∧ g ≤ 0xfeb

def scopeDigits : List (List ℕ) :=
  [[15, 14, 8], [15, 14, 9], [15, 14, 10], [15, 14, 11], [15, 12], [15, 13], [15, 15]]

theorem digitChar_injective {d e : ℕ} (hd : d < 16) (he : e < 16) (h : Nat.digitChar d = Nat.digitChar e) :
    d = e := by
  have hdigits := hexDigit_digitChar hd
  rw [h, hexDigit_digitChar he] at hdigits
  exact (Option.some.inj hdigits).symm

theorem digits_prefix {pre ds : List ℕ} {r : List Char} (hpre : ∀ d ∈ pre, d < 16) (hds : ∀ d ∈ ds, d < 16) :
    pre.map Nat.digitChar <+: ds.map Nat.digitChar ++ ':' :: r ↔ pre <+: ds := by
  induction pre generalizing ds with
  | nil => simp
  | cons d pre ih =>
    have hd := hpre d List.mem_cons_self
    cases ds with
    | nil =>
      have hcolon : Nat.digitChar d ≠ ':' := by interval_cases d <;> decide
      simp [List.cons_prefix_cons, hcolon]
    | cons e ds =>
      have he := hds e List.mem_cons_self
      rw [List.map_cons, List.map_cons, List.cons_append, List.cons_prefix_cons, List.cons_prefix_cons,
        ih (fun x hx => hpre x (List.mem_cons_of_mem _ hx)) fun x hx => hds x (List.mem_cons_of_mem _ hx)]
      refine and_congr_left fun _ => ⟨digitChar_injective hd he, ?_⟩
      rintro rfl
      rfl

theorem startsScoped_digits {ds : List ℕ} {r : List Char} (hds : ∀ d ∈ ds, d < 16) :
    startsScoped (ds.map Nat.digitChar ++ ':' :: r) = true ↔ ∃ pre ∈ scopeDigits, pre <+: ds := by
  have hprefixes : scopePrefixes = scopeDigits.map (List.map Nat.digitChar) := by decide +kernel
  have hsmall : ∀ pre ∈ scopeDigits, ∀ d ∈ pre, d < 16 := by decide
  simp only [startsScoped, hprefixes, List.any_map, List.any_eq_true, Function.comp_apply,
    List.isPrefixOf_iff_prefix]
  exact exists_congr fun pre => and_congr_right fun hpre => digits_prefix (hsmall pre hpre) hds

def value (ds : List ℕ) : ℕ := ds.foldl (fun n d => 16 * n + d) 0

theorem exists_prefix_iff {ds : List ℕ} : (∃ pre ∈ scopeDigits, pre <+: ds) ↔
    ds[0]? = some 15 ∧ (ds[1]? = some 12 ∨ ds[1]? = some 13 ∨ ds[1]? = some 15 ∨
      ds[1]? = some 14 ∧ ∃ d, ds[2]? = some d ∧ 8 ≤ d ∧ d ≤ 11) := by
  simp only [scopeDigits, List.mem_cons, List.not_mem_nil, or_false, exists_eq_or_imp, exists_eq_left]
  rcases ds with _ | ⟨d, _ | ⟨e, _ | ⟨f, ds⟩⟩⟩ <;> simp [List.cons_prefix_cons] <;> omega

/-- The digits of a group say what they seem to, unless there are too few of them. -/
theorem isScoped_of_leading {ds : List ℕ} (hds : ∀ d ∈ ds, d < 16) (hle : ds.length ≤ 4)
    (h : ∃ pre ∈ scopeDigits, pre <+: ds) :
    isScoped (value ds) ∨ looksScoped (value ds) ∧ ds.length < 4 := by
  rw [exists_prefix_iff] at h
  rcases ds with _ | ⟨d, _ | ⟨e, _ | ⟨f, _ | ⟨g, _ | ⟨_, ds⟩⟩⟩⟩⟩ <;>
    simp [value, isScoped, looksScoped] at hds hle h ⊢ <;> omega

theorem prefix_of_isScoped {ds : List ℕ} (hds : ∀ d ∈ ds, d < 16) (hle : ds.length ≤ 4)
    (h : isScoped (value ds)) : ∃ pre ∈ scopeDigits, pre <+: ds := by
  rw [exists_prefix_iff]
  rcases ds with _ | ⟨d, _ | ⟨e, _ | ⟨f, _ | ⟨g, _ | ⟨_, ds⟩⟩⟩⟩⟩ <;>
    simp [value, isScoped] at hds hle h ⊢ <;> omega

theorem exists_look {g : ℕ} (h : looksScoped g) : ∃ ds : List ℕ, (0 < ds.length ∧ ds.length ≤ 4) ∧
    (∀ d ∈ ds, d < 16) ∧ value ds = g ∧ ∃ pre ∈ scopeDigits, pre <+: ds := by
  by_cases hshort : g < 256
  · refine ⟨[g / 16, g % 16], by simp, ?_, ?_, exists_prefix_iff.2 ?_⟩ <;>
      simp [value, looksScoped] at h ⊢ <;> omega
  · refine ⟨[g / 256, g / 16 % 16, g % 16], by simp, ?_, ?_, exists_prefix_iff.2 ?_⟩ <;>
      simp [value, looksScoped] at h ⊢ <;> omega

/-! ### Judging an address -/

variable {text : List Char} {a : IPv6}

theorem startsScoped_of_isScoped (h : parseIPv6 text = some a) (hscoped : isScoped a.first) :
    startsScoped (text.map Char.toLower) = true := by
  rcases parseIPv6_head h with ⟨hzero, -⟩ | ⟨p, r, rfl, hp⟩
  · rw [hzero] at hscoped
    simp [isScoped] at hscoped
  · obtain ⟨ds, hlower, hlength, hds, hfirst⟩ := exists_digits hp
    rw [List.map_append, hlower, List.map_cons]
    refine (startsScoped_digits hds).2 (prefix_of_isScoped hds hlength.2 ?_)
    rwa [value, hfirst]

theorem isScoped_of_startsScoped (h : parseIPv6 text = some a)
    (hstarts : startsScoped (text.map Char.toLower) = true) : isScoped a.first ∨ looksScoped a.first := by
  rcases parseIPv6_head h with ⟨-, r, rfl⟩ | ⟨p, r, rfl, hp⟩
  · simp [startsScoped, scopePrefixes] at hstarts
  · obtain ⟨ds, hlower, hlength, hds, hfirst⟩ := exists_digits hp
    rw [List.map_append, hlower, List.map_cons] at hstarts
    rw [← hfirst]
    exact (isScoped_of_leading hds hlength.2 ((startsScoped_digits hds).1 hstarts)).imp_right And.left

theorem ipv6Blocked_of_startsScoped (h : startsScoped (text.map Char.toLower) = true) :
    ipv6Blocked text = true := by
  simp only [ipv6Blocked, h, if_true, ite_self]

theorem ipv6Blocked_of_none (h : Library.Text.splitOnce gap text = none) :
    ipv6Blocked text = startsScoped (text.map Char.toLower) := by
  have hgap : ∀ l r, text.map Char.toLower ≠ l ++ gap ++ r := by
    intro l r htext
    obtain ⟨t, r', rfl, ht, -⟩ := List.map_eq_append_iff.1 htext
    obtain ⟨l', g, rfl, -, hg⟩ := List.map_eq_append_iff.1 ht
    obtain rfl := eq_of_map_toLower hg (caseless_of_all (by decide))
    obtain ⟨_, _, _, hparts, -⟩ := Library.Text.splitOnce_append gap l' r'
    cases h.symm.trans hparts
  have hnone : matchMapped (text.map Char.toLower) = none := by
    rw [Option.eq_none_iff_forall_ne_some]
    intro q hq
    obtain ⟨-, l, htext⟩ := of_matchMapped hq
    refine hgap l ("ffff:".toList ++ q) ?_
    rw [htext, List.append_assoc, List.append_assoc]
    rfl
  have hloopback : ¬ (text.map Char.toLower = "::1".toList ∨ text.map Char.toLower = "::".toList) := by
    rintro (htext | htext)
    · exact hgap [] ['1'] htext
    · exact hgap [] [] htext
  simp only [ipv6Blocked, if_neg hloopback, hnone]
  cases startsScoped (text.map Char.toLower) <;> rfl

def loopback : List ℕ := [0, 0, 0, 0, 0, 0, 0, 1]

def unspecified : List ℕ := [0, 0, 0, 0, 0, 0, 0, 0]

theorem ipv6Blocked_eq_false (h : parseIPv6 text = some a) (hloopback : a.groups ≠ loopback)
    (hunspecified : a.groups ≠ unspecified) (hscoped : ¬ isScoped a.first) (hlooks : ¬ looksScoped a.first)
    (hquad : ∀ q : IPv4, a.groups.drop 4 = 0 :: 65535 :: q.groups → blocks q = false) :
    ipv6Blocked text = false := by
  have hspecial : ∀ {special : String} {groups : List ℕ}, a.groups ≠ groups →
      (parseIPv6 special.toList).map (·.groups) = some groups →
      (∀ c ∈ special.toList, c.isLower = false) → text.map Char.toLower ≠ special.toList := by
    intro special groups hne hparse hplain htext
    rw [← eq_of_map_toLower htext hplain, h] at hparse
    exact hne (Option.some.inj hparse)
  have hone := hspecial hloopback (by decide +kernel : (parseIPv6 "::1".toList).map _ = _)
    (caseless_of_all (by decide))
  have hzero := hspecial hunspecified (by decide +kernel : (parseIPv6 "::".toList).map _ = _)
    (caseless_of_all (by decide))
  have hstarts : ¬ startsScoped (text.map Char.toLower) = true := fun hstarts =>
    (isScoped_of_startsScoped h hstarts).elim hscoped hlooks
  simp only [ipv6Blocked, if_neg (not_or.2 ⟨hone, hzero⟩), if_neg hstarts]
  split
  · rename_i q hq
    obtain ⟨v, hv, hgroups⟩ := mapped_groups h hq
    rw [ipv4Blocked_of_parse hv, hquad v hgroups]
  · rfl

/-! ### Addresses judged by what they are -/

/-- The IPv6 addresses that are blocked for themselves. -/
def Listed (a : IPv6) : Prop := a.groups = loopback ∨ a.groups = unspecified ∨ isScoped a.first

/-- An address is judged by what it is: its texts alike, one that embeds an IPv4 address like that
address, and blocked where it is listed. -/
structure Judged (a : IPv6) : Prop where
  alike : ∀ s t, Denotes s a → Denotes t a → isBlockedAddress s = isBlockedAddress t
  mapped : ∀ q : IPv4, a.groups = [0, 0, 0, 0, 0, 65535] ++ q.groups → ∀ s t, Denotes s a →
    parseIPv4 t.toList = some q → isBlockedAddress s = isBlockedAddress t
  listed : Listed a → ∀ s, Denotes s a → isBlockedAddress s = true

/-- The addresses whose texts the guard cannot be misled by. -/
def Unmistakable (a : IPv6) : Prop :=
  isScoped a.first ∨
    (a.groups ≠ loopback ∧ a.groups ≠ unspecified ∧ ¬ looksScoped a.first ∧
      ∀ q : IPv4, a.groups.drop 4 = 0 :: 65535 :: q.groups → blocks q = false)

theorem not_isScoped_zero : ¬ isScoped 0 := by decide

theorem blocked_of_isScoped {s : String} (h : Denotes s a) (hscoped : isScoped a.first) :
    isBlockedAddress s = true := by
  rw [isBlockedAddress_of_denotes h]
  exact ipv6Blocked_of_startsScoped (startsScoped_of_isScoped h hscoped)

theorem Unmistakable.judged (h : Unmistakable a) : Judged a := by
  by_cases hscoped : isScoped a.first
  · refine ⟨fun s t hs ht => ?_, fun q hgroups => ?_, fun _ s hs => blocked_of_isScoped hs hscoped⟩
    · rw [blocked_of_isScoped hs hscoped, blocked_of_isScoped ht hscoped]
    · rw [IPv6.first, hgroups] at hscoped
      exact absurd hscoped not_isScoped_zero
  · obtain ⟨hloopback, hunspecified, hlooks, hquad⟩ := h.resolve_left hscoped
    have hfalse : ∀ s, Denotes s a → isBlockedAddress s = false := by
      intro s hs
      rw [isBlockedAddress_of_denotes hs]
      exact ipv6Blocked_eq_false hs hloopback hunspecified hscoped hlooks hquad
    refine ⟨fun s t hs ht => ?_, fun q hgroups s t hs ht => ?_, fun hlisted => ?_⟩
    · rw [hfalse s hs, hfalse t ht]
    · rw [hfalse s hs, isBlockedAddress_of_parseIPv4 ht, hquad q (by rw [hgroups]; rfl)]
    · exact absurd hlisted (by simp [Listed, hloopback, hunspecified, hscoped])

theorem startsScoped_join {ds : List ℕ} {p : List Char} {rest : List (List Char)} (hds : ∀ d ∈ ds, d < 16) :
    startsScoped (([':'].intercalate (ds.map Nat.digitChar :: p :: rest)).map Char.toLower) = true ↔
      ∃ pre ∈ scopeDigits, pre <+: ds := by
  have hlower : (ds.map Nat.digitChar).map Char.toLower = ds.map Nat.digitChar := by
    rw [List.map_map]
    exact List.map_congr_left fun d hd => (hexDigit_spec (hexDigit_digitChar (hds d hd))).2.1
  rw [List.intercalate_cons_cons, List.append_assoc, List.map_append, hlower]
  exact startsScoped_digits hds

theorem denotes_ofList {s : List Char} (h : parseIPv6 s = some a) : Denotes (.ofList s) a := by
  rw [Denotes, String.toList_ofList, h]

/-- With all its digits, an address is only blocked for its first group. -/
theorem full_not_blocked (hscoped : ¬ isScoped a.first) : isBlockedAddress (.ofList a.text) = false := by
  rw [isBlockedAddress_of_denotes (denotes_ofList (parseIPv6_text a)), String.toList_ofList,
    ipv6Blocked_of_none (splitOnce_text a), Bool.eq_false_iff]
  intro hstarts
  obtain ⟨g, rest, hgroups⟩ := a.exists_cons_cons
  have hds := digits_lt (a.lt_of_mem a.first (by rw [hgroups]; exact List.mem_cons_self))
  rw [IPv6.text, hgroups, List.map_cons, List.map_cons, startsScoped_join hds] at hstarts
  rcases isScoped_of_leading hds le_rfl hstarts with hfirst | ⟨-, hlength⟩
  · rw [value, foldl_digits] at hfirst
    exact hscoped hfirst
  · exact absurd hlength (lt_irrefl 4)

theorem exists_blocked_of_looksScoped (h : looksScoped a.first) :
    ∃ s, Denotes s a ∧ isBlockedAddress s = true := by
  obtain ⟨ds, ⟨hpos, hle⟩, hds, hvalue, hprefix⟩ := exists_look h
  obtain ⟨g, rest, hgroups⟩ := a.exists_cons_cons
  have hrest := hextets_text fun x hx => a.lt_of_mem x (hgroups ▸ List.mem_cons_of_mem a.first hx)
  have hparse := parseIPv6_join (.cons (hextet_digits hpos hle hds) hrest) (List.cons_ne_nil _ _)
    (show value ds :: g :: rest = a.groups by rw [hvalue, hgroups])
  refine ⟨_, denotes_ofList hparse, ?_⟩
  rw [isBlockedAddress_of_denotes (denotes_ofList hparse), String.toList_ofList]
  exact ipv6Blocked_of_startsScoped ((startsScoped_join hds).2 hprefix)

theorem ipv6Blocked_of_mapped {q : IPv4} (h : parseIPv6 text = some a)
    (hmatch : (matchMapped (text.map Char.toLower)).isSome = true)
    (hquad : a.groups.drop 4 = 0 :: 65535 :: q.groups) (hblocks : blocks q = true) :
    ipv6Blocked text = true := by
  obtain ⟨found, hfound⟩ := Option.isSome_iff_exists.1 hmatch
  obtain ⟨v, hv, hgroups⟩ := mapped_groups h hfound
  rw [hquad, List.cons.injEq, List.cons.injEq] at hgroups
  rw [← IPv4.groups_injective hgroups.2.2] at hv
  simp only [ipv6Blocked, hfound, ipv4Blocked_of_parse hv, hblocks, ite_self]

theorem exists_blocked_of_quad {q : IPv4} (hquad : a.groups.drop 4 = 0 :: 65535 :: q.groups)
    (hblocks : blocks q = true) : ∃ s, Denotes s a ∧ isBlockedAddress s = true := by
  have hfour : (a.groups.take 4).length = 4 := by rw [List.length_take, a.length_groups]; rfl
  obtain ⟨hdot, hchars⟩ := parseIPv4_chars (parseIPv4_text q)
  have hcolon : ':' ∉ q.text := fun hc => by rcases hchars _ hc with hc | hc <;> revert hc <;> decide
  have hright : after ("ffff".toList ++ ':' :: q.text) = some (65535 :: q.groups) := by
    have hsix : hextet "ffff".toList = some 65535 := by decide +kernel
    rw [after_quad (by decide) hcolon hdot, parseIPv4_text, hsix]
    rfl
  have hthree : (65535 :: q.groups).length = 3 := rfl
  have hparse := parseIPv6_join_gap
    (hextets_text fun g hg => a.lt_of_mem g (List.mem_of_mem_take hg)) (a := a)
    (by
      intro hempty
      have hlength := congrArg List.length hempty
      rw [List.length_map, hfour] at hlength
      cases hlength)
    hright (by rw [hfour, hthree]; decide) (by
      rw [hfour, hthree, List.append_assoc]
      exact (congrArg (a.groups.take 4 ++ ·) hquad.symm).trans (List.take_append_drop 4 a.groups))
  refine ⟨_, denotes_ofList hparse, ?_⟩
  rw [isBlockedAddress_of_denotes (denotes_ofList hparse), String.toList_ofList]
  refine ipv6Blocked_of_mapped hparse ?_ hquad hblocks
  have hlower : q.text.map Char.toLower = q.text :=
    (List.map_congr_left fun c hc => (case_of_isDigit (hchars c hc)).2).trans (List.map_id _)
  rw [List.append_assoc, List.map_append]
  have hmatch := matchMapped_isSome
    (([':'].intercalate ((a.groups.take 4).map fun g => (digits g).map Nat.digitChar)).map Char.toLower)
    (isDotted_of_parse (parseIPv4_text q))
  rw [List.append_assoc] at hmatch
  rw [show (gap ++ ("ffff".toList ++ ':' :: q.text)).map Char.toLower =
    mappedPrefix ++ q.text.map Char.toLower from rfl, hlower]
  exact hmatch

theorem Judged.unmistakable (h : Judged a) : Unmistakable a := by
  by_cases hscoped : isScoped a.first
  · exact .inl hscoped
  have hfull := full_not_blocked hscoped
  have hdenotes := denotes_ofList (parseIPv6_text a)
  have hlisted : ¬ Listed a := fun hlisted => by
    rw [h.listed hlisted _ hdenotes] at hfull
    cases hfull
  refine .inr ⟨fun hloopback => hlisted (.inl hloopback),
    fun hunspecified => hlisted (.inr (.inl hunspecified)), fun hlooks => ?_, fun q hquad => ?_⟩
  · obtain ⟨s, hs, hblocked⟩ := exists_blocked_of_looksScoped hlooks
    rw [← h.alike s _ hs hdenotes, hblocked] at hfull
    cases hfull
  · by_contra hblocks
    obtain ⟨s, hs, hblocked⟩ := exists_blocked_of_quad hquad (by simpa using hblocks)
    rw [← h.alike s _ hs hdenotes, hblocked] at hfull
    cases hfull

/-- An address is judged by what it is exactly when its texts cannot mislead the guard. -/
theorem judged_iff (a : IPv6) : Judged a ↔ Unmistakable a := ⟨Judged.unmistakable, Unmistakable.judged⟩

/-- 127.0.0.1 as an IPv6 address. -/
def mappedLoopback : IPv6 := ⟨[0, 0, 0, 0, 0, 65535, 32512, 1], rfl, by decide⟩

/-- The text a URL parser makes of the dotted one is not blocked. -/
theorem mappedLoopback_misjudged : ¬ Judged mappedLoopback := by
  intro h
  have hdotted : Denotes "::ffff:127.0.0.1" mappedLoopback := by
    unfold Denotes
    decide +kernel
  have hhex : Denotes "::ffff:7f00:1" mappedLoopback := by
    unfold Denotes
    decide +kernel
  have halike := h.alike _ _ hdotted hhex
  revert halike
  decide +kernel

/-! ### Requests -/

inductive Refusal where
  | unresolved
  | blocked
  deriving DecidableEq

/-- What `assertSafeOutboundUrl` and `fetchRemoteTorrent` say to the host of a URL, without its
brackets. A lookup that fails finds no addresses. -/
def refusal (lookup : String → Option (List String)) (allowlisted : String → List String → Bool)
    (host : String) : Option Refusal :=
  let addresses := if isIP host ≠ 0 then [host] else (lookup host).getD []
  if addresses = [] then some .unresolved
  else if ¬ allowlisted host addresses ∧ addresses.any isBlockedAddress then some .blocked
  else none

example : refusal (fun _ => none) (fun _ _ => false) "::ffff:7f00:1" = none := by decide +kernel

end UltraTorrent.Network.OutboundGuard
