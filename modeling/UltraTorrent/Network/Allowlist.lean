import UltraTorrent.Library.IPv4Network
import UltraTorrent.Library.NumericLiteral
import UltraTorrent.Network.OutboundGuard

/-! The hosts an operator lets resolve to internal addresses: names, addresses and networks, and
what becomes of a network that is not written as one. -/
namespace UltraTorrent.Network.Allowlist

open Library.EcmaScript Library.InternetAddress Library.IPv4Network Library.NumericLiteral
open Library.WhiteSpace (trimmed)
open OutboundGuard (refusal Refusal)

def isNoByte (n : Numeric) : Bool := n = .nan ∨ n.lt (.fin 0) ∨ (Numeric.fin 255).lt n

def ipv4ToInt (ip : List Char) : Option (BitVec 32) :=
  match (ip.splitOn '.').map number with
  | [a, b, c, d] =>
    if [a, b, c, d].any isNoByte then none
    else some (toInt32 a <<< 24 ||| toInt32 b <<< 16 ||| toInt32 c <<< 8 ||| toInt32 d)
  | _ => none

def isNoLength (n : Numeric) : Bool := ¬isInteger n ∨ n.lt (.fin 0) ∨ (Numeric.fin 32).lt n

/-- Of an entry without a slash the number of bits is `Number(undefined)`; what stands behind a
second slash is not looked at. -/
def ipv4InCidr (ip cidr : List Char) : Bool :=
  let pieces := cidr.splitOn '/'
  let bits := (pieces[1]?.map number).getD .nan
  match ipv4ToInt ip, ipv4ToInt (pieces.headD []) with
  | some ipInt, some netInt =>
    if isNoLength bits then false
    else if bits = .fin 0 then true
    else
      let mask := ~~~((1 : BitVec 32) <<< (32 - (toInt32 bits).toNat) - 1)
      ipInt &&& mask = netInt &&& mask
  | _, _ => false

/-- The entries of `SSRF_ALLOW_HOSTS`. -/
def allowEntries (allowHosts : Option String) : List String :=
  ((((allowHosts.getD "").toList.splitOn ',').map trimmed).filter (· ≠ [])).map .ofList

def isAllowlistedTorrentHost (rt : Runtime) (allowHosts : Option String) (hostname : String)
    (resolvedIps : List String) : Bool :=
  let entries := allowEntries allowHosts
  if entries.length = 0 then false
  else
    let host := rt.toLowerCase hostname
    entries.any fun entry =>
      rt.toLowerCase entry = host ∨ resolvedIps.contains entry ∨
        entry.toList.contains '/' ∧ resolvedIps.any fun ip => isIP ip = 4 ∧ ipv4InCidr ip.toList entry.toList

/-- A host whose letters have a case where they are ASCII. -/
def plainHost : Runtime := { Runtime.ascii with toLowerCase := fun s => .ofList (s.toList.map Char.toLower) }

example : [" Tracker.LAN ", "192.168.1.7", "192.168.0.0/16", "10.0.0.0/8", "192.168.1.7/"].map
    (fun allowHosts => isAllowlistedTorrentHost plainHost (some allowHosts) "tracker.lan" ["192.168.1.7"]) =
      [true, true, true, false, true] := by decide +kernel

/-! ### What is read as a network -/

theorem floor_lt {q : ℚ} {n : ℕ} (h : q ≤ n) : ⌊q⌋₊ < n + 1 :=
  Nat.lt_succ_of_le (Nat.floor_le_of_le h)

/-- The byte a number is cut down to. -/
def looseByte (p : List Char) : Option (Fin 256) :=
  match number p with
  | .fin q => if h : 0 ≤ q ∧ q ≤ 255 then some ⟨⌊q⌋₊, floor_lt h.2⟩ else none
  | _ => none

def looseAddress (text : List Char) : Option IPv4 :=
  match text.splitOn '.' with
  | [a, b, c, d] => do some ⟨← looseByte a, ← looseByte b, ← looseByte c, ← looseByte d⟩
  | _ => none

def looseLength (p : List Char) : Option (Fin 33) :=
  match number p with
  | .fin q => if h : q.den = 1 ∧ 0 ≤ q ∧ q ≤ 32 then some ⟨⌊q⌋₊, floor_lt h.2.2⟩ else none
  | _ => none

/-- Whatever stands around the first slash is an address and a length when `Number` says so. -/
def looseNetwork (text : List Char) : Option Network :=
  match text.splitOn '/' with
  | address :: length :: _ => do some ⟨← looseAddress address, ← looseLength length⟩
  | _ => none

example : ["10.0.0.0/", "10.0.0.0/8/24", ".../0x10", "10.0.0.0/08", "010.0.0.9e0/8", "1.2.3.4.5/8", "1.2.3.4/33",
    "1.2.3.4/-1", "1.2.3.4/1.5"].map (fun text => (looseNetwork text.toList).isSome) =
      [true, true, true, true, true, false, false, false, false] := by decide +kernel

variable {p text : List Char}

theorem isNoByte_of_none (h : looseByte p = none) : isNoByte (number p) = true := by
  unfold looseByte at h
  split at h
  · rename_i q hq
    split_ifs at h with hrange
    rw [hq, isNoByte, Numeric.lt_fin, Numeric.lt_fin]
    simp only [not_and_or, not_le] at hrange
    simpa using hrange
  · rename_i hq
    cases hn : number p with
    | fin q => exact absurd hn (hq q)
    | _ => rfl

theorem of_looseByte {n : Fin 256} (h : looseByte p = some n) :
    isNoByte (number p) = false ∧ toInt32 (number p) = BitVec.ofNat 32 n := by
  unfold looseByte at h
  split at h
  · rename_i q hq
    split_ifs at h with hrange
    cases h
    rw [hq, toInt32_of_nonneg hrange.1, isNoByte]
    simp [hrange]
  · cases h

theorem ipv4ToInt_eq : ipv4ToInt text = (looseAddress text).map word := by
  unfold ipv4ToInt looseAddress
  rcases text.splitOn '.' with _ | ⟨a, _ | ⟨b, _ | ⟨c, _ | ⟨d, _ | ⟨_, _⟩⟩⟩⟩⟩
  case cons.cons.cons.cons.nil =>
    cases ha : looseByte a with
    | none => simp [ha, isNoByte_of_none ha]
    | some a' =>
    cases hb : looseByte b with
    | none => simp [ha, hb, isNoByte_of_none hb]
    | some b' =>
    cases hc : looseByte c with
    | none => simp [ha, hb, hc, isNoByte_of_none hc]
    | some c' =>
    cases hd : looseByte d with
    | none => simp [ha, hb, hc, hd, isNoByte_of_none hd]
    | some d' =>
    simp [ha, hb, hc, hd, of_looseByte ha, of_looseByte hb, of_looseByte hc, of_looseByte hd, word]
  all_goals rfl

theorem isNoLength_of_none (h : looseLength p = none) : isNoLength (number p) = true := by
  unfold looseLength at h
  split at h
  · rename_i q hq
    split_ifs at h with hrange
    rw [hq, isNoLength, Numeric.lt_fin, Numeric.lt_fin, isInteger]
    simp only [not_and_or, not_le] at hrange
    simpa using hrange
  · rename_i hq
    cases hn : number p with
    | fin q => exact absurd hn (hq q)
    | _ => rfl

theorem of_looseLength {n : Fin 33} (h : looseLength p = some n) :
    isNoLength (number p) = false ∧ (number p = .fin 0 ↔ n = 0) ∧ (toInt32 (number p)).toNat = n := by
  unfold looseLength at h
  split at h
  · rename_i q hq
    split_ifs at h with hrange
    cases h
    obtain ⟨hwhole, hpos, hle⟩ := hrange
    obtain ⟨m, hm⟩ := Int.eq_ofNat_of_zero_le (Rat.num_nonneg.2 hpos)
    obtain rfl : q = m := by rw [← Rat.coe_int_num_of_den_eq_one hwhole, hm, Int.cast_natCast]
    have hlt : m < 2 ^ 32 := by
      have : m ≤ 32 := by exact_mod_cast hle
      omega
    rw [hq, toInt32_of_nonneg hpos, isNoLength, isInteger]
    simp only [Nat.floor_natCast, BitVec.toNat_ofNat, Nat.mod_eq_of_lt hlt, Numeric.fin.injEq,
      Nat.cast_eq_zero, Fin.ext_iff]
    exact ⟨by simpa using hle, Iff.rfl, trivial⟩
  · cases h

/-- An address is taken to be in the network that an entry is read as. -/
theorem ipv4InCidr_iff {q : IPv4} {cidr : List Char} (h : looseAddress text = some q) :
    ipv4InCidr text cidr = true ↔ ∃ net, looseNetwork cidr = some net ∧ net.Contains q := by
  unfold ipv4InCidr looseNetwork
  simp only [ipv4ToInt_eq, h, Option.map_some]
  rcases cidr.splitOn '/' with _ | ⟨address, _ | ⟨length, rest⟩⟩
  · cases haddress : looseAddress [] <;> simp [haddress, isNoLength, isInteger]
  · cases haddress : looseAddress address <;> simp [haddress, isNoLength, isInteger]
  · dsimp only [List.headD_cons, List.getElem?_cons_succ, List.getElem?_cons_zero, Option.map_some,
      Option.getD_some]
    cases haddress : looseAddress address with
    | none => simp
    | some a =>
    cases hlength : looseLength length with
    | none => simp [isNoLength_of_none hlength]
    | some n =>
    obtain ⟨hread, hzero, hnat⟩ := of_looseLength hlength
    have hnet : (∃ net, some (Network.mk a n) = some net ∧ net.Contains q) ↔ (Network.mk a n).Contains q := by
      simp
    simp only [Option.map_some, Option.bind_eq_bind, Option.bind_some, hnet]
    by_cases hn : n = 0
    · have hcontains : (Network.mk a n).Contains q := Network.contains_of_length hn q
      have hbits : isNoLength (.fin 0) = false := hzero.2 hn ▸ hread
      simp [hzero.2 hn, hbits, hcontains]
    · have hbits : number length ≠ .fin 0 := fun h => hn (hzero.1 h)
      simp [hread, hbits, hnat, Network.contains_iff, mask]

/-! ### Well-formed networks -/

theorem looseByte_of_byte {n : Fin 256} (h : byte p = some n) : looseByte p = some n := by
  have hnumber := number_of_decimal (decimal_of_byte h) (n.isLt.trans (by decide))
  have hle : (n.val : ℚ) ≤ 255 := by exact_mod_cast Nat.le_of_lt_succ n.isLt
  unfold looseByte
  rw [hnumber]
  simp [hle]

theorem looseLength_of_prefixLength {n : Fin 33} (h : prefixLength p = some n) : looseLength p = some n := by
  unfold prefixLength at h
  obtain ⟨m, hm, hn⟩ := Option.bind_eq_some_iff.1 h
  split_ifs at hn with hlt
  cases hn
  have hnumber := number_of_decimal (decimal_of_byte hm) (m.isLt.trans (by decide))
  have hle : (m.val : ℚ) ≤ 32 := by exact_mod_cast Nat.le_of_lt_succ hlt
  unfold looseLength
  rw [hnumber]
  simp [hle]

theorem looseAddress_of_parse {q : IPv4} (h : parseIPv4 text = some q) : looseAddress text = some q := by
  obtain ⟨a, b, c, d, hsplit, ha, hb, hc, hd⟩ := parseIPv4_eq_some.1 h
  simp [looseAddress, hsplit, looseByte_of_byte ha, looseByte_of_byte hb, looseByte_of_byte hc,
    looseByte_of_byte hd]

theorem looseNetwork_of_parse {net : Network} (h : parseNetwork text = some net) :
    looseNetwork text = some net := by
  obtain ⟨address, length, hsplit, haddress, hlength⟩ := parseNetwork_eq_some.1 h
  simp [looseNetwork, hsplit, looseAddress_of_parse haddress, looseLength_of_prefixLength hlength]

theorem slash_of_looseNetwork {net : Network} (h : looseNetwork text = some net) : '/' ∈ text := by
  by_contra hslash
  rw [looseNetwork, List.splitOn_eq_singleton hslash] at h
  cases h

/-! ### What an entry allows -/

variable {rt : Runtime} {entry hostname : String} {resolvedIps : List String}

/-- One of the resolved addresses is in the network. -/
def Reaches (net : Network) (resolvedIps : List String) : Prop :=
  ∃ ip ∈ resolvedIps, ∃ q, parseIPv4 ip.toList = some q ∧ net.Contains q

/-- An entry is meant to allow the host it names, the address it is and the addresses of the network
it is. -/
def Allows (rt : Runtime) (entry hostname : String) (resolvedIps : List String) : Prop :=
  rt.toLowerCase entry = rt.toLowerCase hostname ∨ entry ∈ resolvedIps ∨
    ∃ net, parseNetwork entry.toList = some net ∧ Reaches net resolvedIps

/-- An entry that is no network is read as one. -/
def Overreaches (entry : String) (resolvedIps : List String) : Prop :=
  parseNetwork entry.toList = none ∧ ∃ net, looseNetwork entry.toList = some net ∧ Reaches net resolvedIps

theorem isIP_eq_four {ip : String} : isIP ip = 4 ↔ ∃ q, parseIPv4 ip.toList = some q := by
  rw [← Option.isSome_iff_exists]
  unfold isIP
  constructor
  · intro h
    dsimp only at h
    split_ifs at h with hsome
    · exact hsome
    · cases h
  · intro h
    simp [h]

theorem inCidr_iff : (∃ ip ∈ resolvedIps, isIP ip = 4 ∧ ipv4InCidr ip.toList text = true) ↔
    ∃ net, looseNetwork text = some net ∧ Reaches net resolvedIps := by
  simp only [isIP_eq_four]
  constructor
  · rintro ⟨ip, hip, ⟨q, hq⟩, hcidr⟩
    obtain ⟨net, hnet, hcontains⟩ := (ipv4InCidr_iff (looseAddress_of_parse hq)).1 hcidr
    exact ⟨net, hnet, ip, hip, q, hq, hcontains⟩
  · rintro ⟨net, hnet, ip, hip, q, hq, hcontains⟩
    exact ⟨ip, hip, ⟨q, hq⟩, (ipv4InCidr_iff (looseAddress_of_parse hq)).2 ⟨net, hnet, hcontains⟩⟩

/-- A network that reaches an address is one that is written as such, or an entry that overreaches. -/
theorem exists_looseNetwork_iff : (∃ net, looseNetwork entry.toList = some net ∧ Reaches net resolvedIps) ↔
    (∃ net, parseNetwork entry.toList = some net ∧ Reaches net resolvedIps) ∨ Overreaches entry resolvedIps := by
  cases hparse : parseNetwork entry.toList with
  | none => simp [Overreaches, hparse]
  | some net => simp [Overreaches, hparse, looseNetwork_of_parse hparse]

theorem isAllowlistedTorrentHost_iff {allowHosts : Option String} :
    isAllowlistedTorrentHost rt allowHosts hostname resolvedIps = true ↔
      ∃ entry ∈ allowEntries allowHosts, Allows rt entry hostname resolvedIps ∨ Overreaches entry resolvedIps := by
  unfold isAllowlistedTorrentHost
  by_cases hempty : (allowEntries allowHosts).length = 0
  · simp [List.eq_nil_of_length_eq_zero hempty]
  · simp only [if_neg hempty, List.any_eq_true, decide_eq_true_eq, inCidr_iff, List.contains_iff_mem]
    refine exists_congr fun entry => and_congr_right fun _ => ?_
    rw [Allows, or_assoc, or_assoc, ← exists_looseNetwork_iff]
    refine or_congr_right (or_congr_right (and_iff_right_of_imp ?_))
    rintro ⟨net, hnet, -⟩
    exact slash_of_looseNetwork hnet

def Exact (rt : Runtime) (allowHosts : Option String) (hostname : String) (resolvedIps : List String) : Prop :=
  isAllowlistedTorrentHost rt allowHosts hostname resolvedIps = true ↔
    ∃ entry ∈ allowEntries allowHosts, Allows rt entry hostname resolvedIps

/-- The list is exact unless an entry overreaches to an address that no entry allows. -/
theorem exact_iff (rt : Runtime) (allowHosts : Option String) (hostname : String) (resolvedIps : List String) :
    Exact rt allowHosts hostname resolvedIps ↔
      ((∃ entry ∈ allowEntries allowHosts, Overreaches entry resolvedIps) →
        ∃ entry ∈ allowEntries allowHosts, Allows rt entry hostname resolvedIps) := by
  rw [Exact, isAllowlistedTorrentHost_iff]
  constructor
  · rintro h ⟨entry, hentry, hover⟩
    exact h.1 ⟨entry, hentry, .inr hover⟩
  · intro h
    constructor
    · rintro ⟨entry, hentry, hallows | hover⟩
      · exact ⟨entry, hentry, hallows⟩
      · exact h ⟨entry, hentry, hover⟩
    · rintro ⟨entry, hentry, hallows⟩
      exact ⟨entry, hentry, .inl hallows⟩

/-- Without its length the network of an address is no network, and is read as all of them. -/
theorem not_exact_slash : ¬ Exact plainHost (some "10.0.0.0/") "tracker.example" ["192.168.1.5"] := by
  rw [exact_iff]
  intro h
  have hentries : allowEntries (some "10.0.0.0/") = ["10.0.0.0/"] := by decide +kernel
  have hover : Overreaches "10.0.0.0/" ["192.168.1.5"] := by
    refine ⟨by decide +kernel, ⟨⟨10, 0, 0, 0⟩, 0⟩, by decide +kernel, _, List.mem_singleton_self _, ?_⟩
    exact ⟨⟨192, 168, 1, 5⟩, by decide +kernel, Network.contains_of_length rfl _⟩
  rw [hentries] at h
  obtain ⟨entry, hentry, hallows⟩ := h ⟨_, List.mem_singleton_self _, hover⟩
  cases List.mem_singleton.1 hentry
  rcases hallows with hname | haddress | ⟨net, hnet, -⟩
  · revert hname
    decide +kernel
  · revert haddress
    decide
  · rw [show parseNetwork "10.0.0.0/".toList = none by decide +kernel] at hnet
    cases hnet

/-! ### A slash too many -/

theorem looseNetwork_slash {q : IPv4} (h : parseIPv4 text = some q) :
    looseNetwork (text ++ ['/']) = some ⟨q, 0⟩ := by
  have hslash : '/' ∉ text := fun hmem => by
    rcases (parseIPv4_chars h).2 _ hmem with hc | hc <;> revert hc <;> decide
  have hsplit : (text ++ ['/']).splitOn '/' = [text, []] := by
    rw [List.splitOn_append_cons_self_of_not_mem hslash, List.splitOn_nil]
  have hempty : looseLength [] = some 0 := by decide +kernel
  simp [looseNetwork, hsplit, looseAddress_of_parse h, hempty]

/-- One address with a slash behind it, and the guard lets a host resolve to any IPv4 address. -/
theorem not_blocked_of_slash {lookup : String → Option (List String)} {allowHosts : Option String}
    {q : IPv4} {ip : String} (haddress : parseIPv4 text = some q)
    (hentry : .ofList (text ++ ['/']) ∈ allowEntries allowHosts) (hhost : isIP hostname = 0)
    (hlookup : lookup hostname = some resolvedIps) (hip : ip ∈ resolvedIps) (hfour : isIP ip = 4) :
    refusal lookup (isAllowlistedTorrentHost rt allowHosts) hostname = none := by
  obtain ⟨r, hr⟩ := isIP_eq_four.1 hfour
  have hloose := looseNetwork_slash haddress
  have hreaches : Reaches ⟨q, 0⟩ resolvedIps := ⟨ip, hip, r, hr, Network.contains_of_length rfl r⟩
  have hallowed : isAllowlistedTorrentHost rt allowHosts hostname resolvedIps = true := by
    refine isAllowlistedTorrentHost_iff.2 ⟨_, hentry, ?_⟩
    rw [← String.toList_ofList (l := text ++ ['/'])] at hloose
    exact (exists_looseNetwork_iff.1 ⟨_, hloose, hreaches⟩).imp_left fun hnet => .inr (.inr hnet)
  have hne : resolvedIps ≠ [] := List.ne_nil_of_mem hip
  simp [refusal, hhost, hlookup, hne, hallowed]

theorem slash_not_blocked : refusal (fun _ => some ["127.0.0.1"])
    (isAllowlistedTorrentHost plainHost (some "10.0.0.7/")) "tracker.example" = none := by
  have haddress : parseIPv4 "10.0.0.7".toList = some ⟨10, 0, 0, 7⟩ := by decide +kernel
  exact not_blocked_of_slash haddress (by decide +kernel) (by decide +kernel) rfl List.mem_cons_self (by decide +kernel)

end UltraTorrent.Network.Allowlist
