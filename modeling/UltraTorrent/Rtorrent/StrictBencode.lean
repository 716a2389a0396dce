import Mathlib.Data.List.Nodup
import UltraTorrent.Rtorrent.BencodeGrammar

/-! Which buffers give a hash. A torrent always gives that of its info. The reader asks less than
bencoding does: no `d` at the start, and numbers need not be written out the one way; a hash tells
that the buffer begins with a torrent exactly where it met no such leniency. -/
namespace UltraTorrent.Rtorrent.StrictBencode

open Library.Fuel Bencode BencodeProgress BencodeGrammar

def BeginsWithTorrent (buf : Buffer) : Prop :=
  ∃ entries rest, buf = encode (.dict entries) ++ rest ∧ ∃ v, (ofText "info", v) ∈ entries

/-- Each integer and string the reader starts on is written as bencoding writes it. -/
structure Strict (buf : Buffer) : Prop where
  opens : byte buf 0 = 'd'
  ints : ∀ pos, Reaches buf (.value pos) → byte buf pos = 'i' →
    ∃ n rest, buf.drop pos = encodeInt n ++ rest
  strings : ∀ pos, Reaches buf (.value pos) → (byte buf pos).isDigit = true →
    ∃ content rest, buf.drop pos = encodeString content ++ rest
  keys : ∀ pos, Reaches buf (.dictHead pos) → byte buf pos ≠ 'e' →
    ∃ content rest, buf.drop pos = encodeString content ++ rest

variable {buf : Buffer} {pos : ℕ} {rest : Buffer}

/-! ### The hash of a torrent -/

theorem lookup_of_mem {α : Type*} {entries : List (Buffer × α)} {key : Buffer} {a : α}
    (hdistinct : (entries.map Prod.fst).Nodup) (hmem : (key, a) ∈ entries) :
    entries.lookup key = some a := by
  obtain ⟨before, after, rfl⟩ := List.append_of_mem hmem
  rw [List.lookup_eq_some_iff]
  refine ⟨before, after, rfl, fun p hp => bne_iff_ne.2 fun heq => ?_⟩
  rw [List.map_append, List.map_cons] at hdistinct
  exact (List.nodup_append.1 hdistinct).2.2 p.1 (List.mem_map_of_mem hp) key
    List.mem_cons_self heq.symm

theorem lookup_ranges (out : List (Buffer × Node × ℕ × ℕ)) (key : Buffer) :
    (ranges buf out).lookup key =
      (out.lookup key).map fun (_, start, stop) => (buf.take stop).drop start := by
  induction out with
  | nil => rfl
  | cons entry out ih =>
    obtain ⟨other, value, start, stop⟩ := entry
    rw [ranges_cons, List.lookup_cons, List.lookup_cons, ih]
    cases key == other <;> rfl

/-- The entry read under a key that a dictionary has once. -/
theorem readDict_entries {entries : List (Buffer × Value)} {key : Buffer} {v : Value}
    (h : buf.drop (pos + 1) = encodeEntries entries ++ chr 'e' :: rest)
    (hdistinct : (entries.map Prod.fst).Nodup) (hmem : (key, v) ∈ entries) :
    ∃ fuel out next, readDict buf fuel pos = .ok (out, next) ∧
      (ranges buf out).lookup key = some (encode v) := by
  obtain ⟨fuel, out, hloop, hranges⟩ := dictLoop_encode entries [] h
  refine ⟨fuel + 1, out, _, Outcome.bind_eq_ok.2 ⟨_, hloop, rfl⟩, ?_⟩
  have hkeys : ((texts entries).reverse.map Prod.fst).Nodup := by
    rw [List.map_reverse, List.nodup_reverse, texts, List.map_map]
    exact hdistinct
  rw [hranges, ranges, List.map_nil, List.append_nil]
  exact lookup_of_mem hkeys (List.mem_reverse.2 (List.mem_map.2 ⟨_, hmem, rfl⟩))

theorem infoHash_of_readDict {sha1 : Buffer → String} {fuel next : ℕ} {text : Buffer}
    {out : List (Buffer × Node × ℕ × ℕ)} (h : readDict buf fuel 0 = .ok (out, next))
    (hlookup : (ranges buf out).lookup (ofText "info") = some text) :
    infoHashFromTorrent buf sha1 fuel = .ok (sha1 text).toLower := by
  rw [lookup_ranges] at hlookup
  refine Outcome.bind_eq_ok.2 ⟨_, h, ?_⟩
  dsimp only
  cases hentry : out.lookup (ofText "info") with
  | none =>
    rw [hentry] at hlookup
    cases hlookup
  | some entry =>
    rw [hentry] at hlookup
    cases hlookup
    rfl

theorem readDict_mono {fuel more : ℕ} (hle : fuel ≤ more)
    {r : List (Buffer × Node × ℕ × ℕ) × ℕ} (h : readDict buf fuel pos = .ok r) :
    readDict buf more pos = .ok r := by
  induction more, hle using Nat.le_induction with
  | base => exact h
  | succ more _ ih => exact (lasts buf more).readDict _ _ ih

theorem infoHash_entries (sha1 : Buffer → String) {entries : List (Buffer × Value)} {v : Value}
    (h : buf.drop 1 = encodeEntries entries ++ chr 'e' :: rest)
    (hdistinct : (entries.map Prod.fst).Nodup) (hmem : (ofText "info", v) ∈ entries) :
    ∃ least, ∀ fuel ≥ least,
      infoHashFromTorrent buf sha1 fuel = .ok (sha1 (encode v)).toLower := by
  obtain ⟨least, out, next, hread, hlookup⟩ := readDict_entries h hdistinct hmem
  exact ⟨least, fun fuel hle => infoHash_of_readDict (readDict_mono hle hread) hlookup⟩

theorem drop_encode_dict (entries : List (Buffer × Value)) :
    (encode (.dict entries) ++ rest).drop 1 = encodeEntries entries ++ chr 'e' :: rest := by
  rw [encode, List.cons_append, List.append_assoc, List.singleton_append, List.drop_one,
    List.tail_cons]

/-! ### Reading what is strict -/

/-- On this budget the reader only gets through the texts of values. -/
structure Sound (buf : Buffer) (fuel : ℕ) : Prop where
  decode : ∀ pos value next, Reaches buf (.value pos) →
    Bencode.decode buf fuel pos = .ok (value, next) →
    ∃ v, buf.drop pos = encode v ++ buf.drop next
  readList : ∀ pos out next, Reaches buf (.listHead (pos + 1)) → byte buf pos = 'l' →
    Bencode.readList buf fuel pos = .ok (out, next) →
    ∃ items, buf.drop pos = encode (.list items) ++ buf.drop next
  listLoop : ∀ pos out out' close, Reaches buf (.listHead pos) →
    Bencode.listLoop buf fuel pos out = .ok (out', close) →
    ∃ items, buf.drop pos = encodeItems items ++ chr 'e' :: buf.drop (close + 1)
  readDict : ∀ pos out next, Reaches buf (.dictHead (pos + 1)) → byte buf pos = 'd' →
    Bencode.readDict buf fuel pos = .ok (out, next) →
    ∃ entries, buf.drop pos = encode (.dict entries) ++ buf.drop next ∧
      ∀ entry ∈ out, entry.1 ∈ entries.map Prod.fst
  dictLoop : ∀ pos out out' close, Reaches buf (.dictHead pos) →
    Bencode.dictLoop buf fuel pos out = .ok (out', close) →
    ∃ entries, buf.drop pos = encodeEntries entries ++ chr 'e' :: buf.drop (close + 1) ∧
      ∀ entry ∈ out', entry ∈ out ∨ entry.1 ∈ entries.map Prod.fst

theorem sound_zero : Sound buf 0 where
  decode _ _ _ _ h := by simp [Bencode.decode] at h
  readList _ _ _ _ _ h := by simp [Bencode.readList] at h
  listLoop _ _ _ _ _ h := by simp [Bencode.listLoop] at h
  readDict _ _ _ _ _ h := by simp [Bencode.readDict] at h
  dictLoop _ _ _ _ _ h := by simp [Bencode.dictLoop] at h

theorem decode_sound {fuel next : ℕ} {value : Node} (hstrict : Strict buf) (ih : Sound buf fuel)
    (hreach : Reaches buf (.value pos)) (h : decode buf (fuel + 1) pos = .ok (value, next)) :
    ∃ v, buf.drop pos = encode v ++ buf.drop next := by
  simp only [decode] at h
  split_ifs at h with hi hl hd hdigit
  · obtain ⟨n, rest, hint⟩ := hstrict.ints pos hreach hi
    rw [readInt_encodeInt hint] at h
    cases h
    refine ⟨.int n, ?_⟩
    rw [drop_add hint, encode, hint]
  · obtain ⟨⟨out, close⟩, hlist, hok⟩ := Outcome.bind_eq_ok.1 h
    cases hok
    obtain ⟨items, hitems⟩ := ih.readList _ _ _ (hreach.openList hl) hl hlist
    exact ⟨.list items, hitems⟩
  · obtain ⟨⟨out, close⟩, hdict, hok⟩ := Outcome.bind_eq_ok.1 h
    cases hok
    obtain ⟨entries, hentries, -⟩ := ih.readDict _ _ _ (hreach.openDict hd) hd hdict
    exact ⟨.dict entries, hentries⟩
  · obtain ⟨⟨bytes, stop⟩, hbytes, hok⟩ := Outcome.bind_eq_ok.1 h
    cases hok
    obtain ⟨content, rest, hstring⟩ := hstrict.strings pos hreach (isDigit_iff.2 hdigit)
    rw [readString_encodeString hstring] at hbytes
    cases hbytes
    refine ⟨.bytes bytes, ?_⟩
    rw [drop_add hstring, encode, hstring]

theorem drop_close (h : byte buf pos = 'e') : buf.drop pos = chr 'e' :: buf.drop (pos + 1) :=
  drop_of_byte h (by decide)

theorem listLoop_sound {fuel close : ℕ} {out out' : List Node} (ih : Sound buf fuel)
    (hreach : Reaches buf (.listHead pos))
    (h : listLoop buf (fuel + 1) pos out = .ok (out', close)) :
    ∃ items, buf.drop pos = encodeItems items ++ chr 'e' :: buf.drop (close + 1) := by
  simp only [listLoop] at h
  split_ifs at h with he
  · cases h
    exact ⟨[], drop_close he⟩
  · obtain ⟨⟨value, next⟩, hvalue, hrest⟩ := Outcome.bind_eq_ok.1 h
    obtain ⟨v, hv⟩ := ih.decode _ _ _ (hreach.item he) hvalue
    obtain ⟨items, hitems⟩ := ih.listLoop _ _ _ _ (hreach.nextItem he hvalue) hrest
    refine ⟨v :: items, ?_⟩
    rw [hv, hitems, encodeItems, List.append_assoc]

theorem dictLoop_sound {fuel close : ℕ} {out out' : List (Buffer × Node × ℕ × ℕ)}
    (hstrict : Strict buf) (ih : Sound buf fuel) (hreach : Reaches buf (.dictHead pos))
    (h : dictLoop buf (fuel + 1) pos out = .ok (out', close)) :
    ∃ entries, buf.drop pos = encodeEntries entries ++ chr 'e' :: buf.drop (close + 1) ∧
      ∀ entry ∈ out', entry ∈ out ∨ entry.1 ∈ entries.map Prod.fst := by
  simp only [dictLoop] at h
  split_ifs at h with he
  · cases h
    exact ⟨[], drop_close he, fun entry hentry => .inl hentry⟩
  · obtain ⟨⟨key, start⟩, hkey, h⟩ := Outcome.bind_eq_ok.1 h
    obtain ⟨⟨value, next⟩, hvalue, hrest⟩ := Outcome.bind_eq_ok.1 h
    obtain ⟨content, rest, hstring⟩ := hstrict.keys pos hreach he
    have hdecode := ih.decode _ _ _ (hreach.entry he hkey) hvalue
    have hloop := ih.dictLoop _ _ _ _ (hreach.nextEntry he hkey hvalue) hrest
    rw [readString_encodeString hstring] at hkey
    cases hkey
    obtain ⟨v, hv⟩ := hdecode
    obtain ⟨entries, hentries, hkeys⟩ := hloop
    refine ⟨(key, v) :: entries, ?_, fun entry hentry => ?_⟩
    · rw [drop_add hstring] at hv
      rw [hstring, hv, hentries, encodeEntries, List.append_assoc, List.append_assoc]
    · rw [List.map_cons, List.mem_cons]
      rcases hkeys entry hentry with hmem | hmem
      · rcases List.mem_cons.1 hmem with rfl | hout
        · exact .inr (.inl rfl)
        · exact .inl hout
      · exact .inr (.inr hmem)

theorem sound (hstrict : Strict buf) (fuel : ℕ) : Sound buf fuel := by
  induction fuel with
  | zero => exact sound_zero
  | succ fuel ih =>
    exact
      { decode := fun pos value next hreach h => decode_sound hstrict ih hreach h
        readList := by
          intro pos out next hreach hl h
          simp only [Bencode.readList] at h
          obtain ⟨⟨out', close⟩, hloop, hok⟩ := Outcome.bind_eq_ok.1 h
          cases hok
          obtain ⟨items, hitems⟩ := ih.listLoop _ _ _ _ hreach hloop
          refine ⟨items, ?_⟩
          rw [drop_of_byte hl (by decide), hitems, encode, List.cons_append, List.append_assoc,
            List.singleton_append]
        listLoop := fun pos out out' close hreach h => listLoop_sound ih hreach h
        readDict := by
          intro pos out next hreach hd h
          simp only [Bencode.readDict] at h
          obtain ⟨⟨out', close⟩, hloop, hok⟩ := Outcome.bind_eq_ok.1 h
          cases hok
          obtain ⟨entries, hentries, hkeys⟩ := ih.dictLoop _ _ _ _ hreach hloop
          refine ⟨entries, ?_, fun entry hentry => ?_⟩
          · rw [drop_of_byte hd (by decide), hentries, encode, List.cons_append, List.append_assoc,
              List.singleton_append]
          · exact (hkeys entry hentry).resolve_left List.not_mem_nil
        dictLoop := fun pos out out' close hreach h => dictLoop_sound hstrict ih hreach h }

theorem begins_of_strict {sha1 : Buffer → String} {fuel : ℕ} {hash : String}
    (h : infoHashFromTorrent buf sha1 fuel = .ok hash) (hstrict : Strict buf) :
    BeginsWithTorrent buf := by
  obtain ⟨⟨root, next⟩, hread, hinfo⟩ := Outcome.bind_eq_ok.1 h
  obtain ⟨entries, hentries, hkeys⟩ :=
    (sound hstrict fuel).readDict 0 root next .root hstrict.opens hread
  refine ⟨entries, buf.drop next, hentries, ?_⟩
  dsimp only at hinfo
  cases hlookup : root.lookup (ofText "info") with
  | none =>
    rw [hlookup] at hinfo
    cases hinfo
  | some entry =>
    obtain ⟨before, after, rfl, -⟩ := List.lookup_eq_some_iff.1 hlookup
    have hmem := hkeys (ofText "info", entry) (List.mem_append_right _ List.mem_cons_self)
    obtain ⟨⟨key, v⟩, hv, heq⟩ := List.mem_map.1 hmem
    cases heq
    exact ⟨v, hv⟩

/-! ### Where a torrent leads the reader -/

/-- What stands in the buffer at a point of a run over a well-formed dictionary. -/
def Formed (buf : Buffer) : Point → Prop
  | .value pos => ∃ v rest, buf.drop pos = encode v ++ rest
  | .listHead pos => ∃ items rest, buf.drop pos = encodeItems items ++ chr 'e' :: rest
  | .dictHead pos => ∃ entries rest, buf.drop pos = encodeEntries entries ++ chr 'e' :: rest

theorem next_of_decode {fuel next : ℕ} {v : Value} {value : Node}
    (hv : buf.drop pos = encode v ++ rest) (h : decode buf fuel pos = .ok (value, next)) :
    buf.drop next = rest := by
  obtain ⟨other, value', hdecode⟩ := decode_encode v hv
  have heq := (decode_mono (Nat.le_max_left fuel other) h).symm.trans
    (decode_mono (Nat.le_max_right fuel other) hdecode)
  cases heq
  exact drop_add hv

theorem start_of_readString {start : ℕ} {key content : Buffer}
    (h : buf.drop pos = encodeString content ++ rest) (hkey : readString buf pos = .ok (key, start)) :
    buf.drop start = rest := by
  rw [readString_encodeString h] at hkey
  cases hkey
  exact drop_add h

theorem items_of_byte {items : List Value} (h : buf.drop pos = encodeItems items ++ chr 'e' :: rest)
    (he : byte buf pos ≠ 'e') : ∃ v items', items = v :: items' := by
  cases items with
  | nil => exact absurd (byte_chr (by decide) h) he
  | cons v items => exact ⟨v, items, rfl⟩

theorem entries_of_byte {entries : List (Buffer × Value)}
    (h : buf.drop pos = encodeEntries entries ++ chr 'e' :: rest) (he : byte buf pos ≠ 'e') :
    ∃ key v entries', entries = (key, v) :: entries' := by
  cases entries with
  | nil => exact absurd (byte_chr (by decide) h) he
  | cons entry entries => exact ⟨entry.1, entry.2, entries, rfl⟩

/-- Nothing but the text of a value is met where one is decoded. -/
theorem formed_of_reaches {entries : List (Buffer × Value)} (h : buf = encode (.dict entries) ++ rest)
    {point : Point} (hreach : Reaches buf point) : Formed buf point := by
  induction hreach with
  | root =>
    rw [h]
    exact ⟨entries, rest, drop_encode_dict entries⟩
  | openList hvalue hl ih =>
    obtain ⟨v, rest, hv⟩ := ih
    have hopens := opens v hv
    rw [hl] at hopens
    cases v with
    | list items =>
      rw [encode, List.cons_append, List.append_assoc, List.singleton_append] at hv
      exact ⟨items, rest, drop_succ hv⟩
    | int | bytes | dict => exact absurd hopens (by simp [Opens])
  | openDict hvalue hd ih =>
    obtain ⟨v, rest, hv⟩ := ih
    have hopens := opens v hv
    rw [hd] at hopens
    cases v with
    | dict entries =>
      rw [encode, List.cons_append, List.append_assoc, List.singleton_append] at hv
      exact ⟨entries, rest, drop_succ hv⟩
    | int | bytes | list => exact absurd hopens (by simp [Opens])
  | item hhead he ih =>
    obtain ⟨items, rest, hitems⟩ := ih
    obtain ⟨v, items, rfl⟩ := items_of_byte hitems he
    rw [encodeItems, List.append_assoc] at hitems
    exact ⟨v, _, hitems⟩
  | nextItem hhead he hdecode ih =>
    obtain ⟨items, rest, hitems⟩ := ih
    obtain ⟨v, items, rfl⟩ := items_of_byte hitems he
    rw [encodeItems, List.append_assoc] at hitems
    exact ⟨items, rest, next_of_decode hitems hdecode⟩
  | entry hhead he hkey ih =>
    obtain ⟨entries, rest, hentries⟩ := ih
    obtain ⟨content, v, entries, rfl⟩ := entries_of_byte hentries he
    rw [encodeEntries, List.append_assoc, List.append_assoc] at hentries
    exact ⟨v, _, start_of_readString hentries hkey⟩
  | nextEntry hhead he hkey hdecode ih =>
    obtain ⟨entries, rest, hentries⟩ := ih
    obtain ⟨content, v, entries, rfl⟩ := entries_of_byte hentries he
    rw [encodeEntries, List.append_assoc, List.append_assoc] at hentries
    exact ⟨entries, rest, next_of_decode (start_of_readString hentries hkey) hdecode⟩

theorem strict_of_begins (h : BeginsWithTorrent buf) : Strict buf := by
  obtain ⟨entries, rest, hbuf, -⟩ := h
  have hstart : buf.drop 0 = encode (.dict entries) ++ rest := hbuf
  refine
    { opens := opens (.dict entries) hstart
      ints := fun pos hreach hi => ?_
      strings := fun pos hreach hdigit => ?_
      keys := fun pos hreach he => ?_ }
  · obtain ⟨v, rest, hv⟩ := formed_of_reaches hbuf hreach
    have hopens := opens v hv
    rw [hi] at hopens
    cases v with
    | int n => exact ⟨n, rest, hv⟩
    | bytes | list | dict => exact absurd hopens (by simp [Opens])
  · obtain ⟨v, rest, hv⟩ := formed_of_reaches hbuf hreach
    have hopens := opens v hv
    cases v with
    | bytes content => exact ⟨content, rest, hv⟩
    | int | list | dict =>
      rw [show byte buf pos = _ from hopens] at hdigit
      cases hdigit
  · obtain ⟨entries, rest, hentries⟩ := formed_of_reaches hbuf hreach
    obtain ⟨content, v, entries, rfl⟩ := entries_of_byte hentries he
    rw [encodeEntries, List.append_assoc, List.append_assoc] at hentries
    exact ⟨content, _, hentries⟩

/-- A torrent gives the hash of its info, and a hash comes from a torrent where each integer and
string met was written the one way there is. -/
theorem infoHash_strict (sha1 : Buffer → String) :
    (∀ entries v, (entries.map Prod.fst).Nodup → (ofText "info", v) ∈ entries →
      ∃ least, ∀ fuel ≥ least, infoHashFromTorrent (encode (.dict entries)) sha1 fuel =
        .ok (sha1 (encode v)).toLower) ∧
    ∀ buf fuel hash, infoHashFromTorrent buf sha1 fuel = .ok hash →
      (BeginsWithTorrent buf ↔ Strict buf) := by
  refine ⟨fun entries v hdistinct hmem => ?_,
    fun buf fuel hash h => ⟨strict_of_begins, begins_of_strict h⟩⟩
  have hnext : (encode (.dict entries)).drop 1 = encodeEntries entries ++ chr 'e' :: [] := by
    rw [← drop_encode_dict, List.append_nil]
  exact infoHash_entries sha1 hnext hdistinct hmem

def smallTorrent : List (Buffer × Value) := [(ofText "info", .int 1)]

theorem smallTorrent_strict :
    (∃ least, ∀ fuel ≥ least, infoHashFromTorrent (encode (.dict smallTorrent)) (fun _ => "AB") fuel =
      .ok "AB".toLower) ∧ Strict (encode (.dict smallTorrent)) := by
  obtain ⟨least, hhash⟩ := (infoHash_strict fun _ => "AB").1 smallTorrent (.int 1)
    (List.nodup_singleton _) List.mem_cons_self
  have hbegins : BeginsWithTorrent (encode (.dict smallTorrent)) :=
    ⟨smallTorrent, [], (List.append_nil _).symm, .int 1, List.mem_cons_self⟩
  exact ⟨⟨least, hhash⟩, ((infoHash_strict fun _ => "AB").2 _ _ _ (hhash least le_rfl)).1 hbegins⟩

/-- The first byte is taken for a `d` unseen. -/
theorem unopened_hashes : ¬ ∀ buf sha1 fuel hash,
    infoHashFromTorrent buf sha1 fuel = .ok hash → BeginsWithTorrent buf := by
  intro hbegins
  have hnext : (ofText "x4:infoi1ee").drop 1 = encodeEntries smallTorrent ++ chr 'e' :: [] := by rfl
  obtain ⟨least, hhash⟩ := infoHash_entries (fun _ => "") hnext (List.nodup_singleton _)
    List.mem_cons_self
  have hopens := (strict_of_begins (hbegins _ _ _ _ (hhash least le_rfl))).opens
  exact absurd hopens (by decide)

end UltraTorrent.Rtorrent.StrictBencode
