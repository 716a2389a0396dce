import UltraTorrent.Rtorrent.Bencode

/-! Termination of the reader. Every branch moves the position forward except an integer
without a closing `e`, which sends it back to the start of the buffer. -/
namespace UltraTorrent.Rtorrent.BencodeProgress

open Library.Fuel Bencode

/-- Where a run can stand: about to decode a value, or at the head of a loop. -/
inductive Point where
  | value (pos : ℕ)
  | listHead (pos : ℕ)
  | dictHead (pos : ℕ)

variable (buf : Buffer)

/-- The points the reader comes to. The root is read as a dictionary unseen. -/
inductive Reaches : Point → Prop where
  | root : Reaches (.dictHead 1)
  | openList {pos : ℕ} : Reaches (.value pos) → byte buf pos = 'l' → Reaches (.listHead (pos + 1))
  | openDict {pos : ℕ} : Reaches (.value pos) → byte buf pos = 'd' → Reaches (.dictHead (pos + 1))
  | item {pos : ℕ} : Reaches (.listHead pos) → byte buf pos ≠ 'e' → Reaches (.value pos)
  | nextItem {pos fuel next : ℕ} {value : Node} : Reaches (.listHead pos) → byte buf pos ≠ 'e' →
      decode buf fuel pos = .ok (value, next) → Reaches (.listHead next)
  | entry {pos start : ℕ} {key : Buffer} : Reaches (.dictHead pos) → byte buf pos ≠ 'e' →
      readString buf pos = .ok (key, start) → Reaches (.value start)
  | nextEntry {pos start fuel next : ℕ} {key : Buffer} {value : Node} : Reaches (.dictHead pos) →
      byte buf pos ≠ 'e' → readString buf pos = .ok (key, start) →
      decode buf fuel start = .ok (value, next) → Reaches (.dictHead next)

/-- Some budget is enough to return a hash or to throw. -/
def Halts (sha1 : Buffer → String) : Prop :=
  ∃ fuel, infoHashFromTorrent buf sha1 fuel ≠ .timeout

/-- Every value the reader decodes leaves it further on than it started. -/
def Advances : Prop :=
  ∀ fuel pos value next, Reaches buf (.value pos) → decode buf fuel pos = .ok (value, next) →
    pos < next

/-- Wherever the reader starts an integer, an `e` follows in the buffer. -/
def IntegersEnd : Prop :=
  ∀ pos, Reaches buf (.value pos) → byte buf pos = 'i' →
    UInt8.ofNat 'e'.toNat ∈ buf.drop (pos + 1)

variable {buf}

/-! ### Single reads -/

theorem lt_length_of_byte {pos : ℕ} (h : byte buf pos ≠ Char.ofNat 0) : pos < buf.length := by
  by_contra hpos
  apply h
  rw [byte, List.getElem?_eq_none (not_lt.1 hpos)]
  rfl

theorem indexOf_eq_none {b : UInt8} {start : ℕ} : indexOf buf b start = none ↔ b ∉ buf.drop start := by
  simp [indexOf, List.idxOf?_eq_none_iff]

theorem le_of_indexOf {b : UInt8} {start i : ℕ} (h : indexOf buf b start = some i) : start ≤ i := by
  simp only [indexOf, Option.map_eq_some_iff] at h
  obtain ⟨k, -, rfl⟩ := h
  omega

theorem readInt_lt {pos : ℕ} (h : UInt8.ofNat 'e'.toNat ∈ buf.drop (pos + 1)) :
    pos < (readInt buf pos).2 := by
  unfold readInt
  split
  · rename_i stop hstop
    have := le_of_indexOf hstop
    omega
  · rename_i hnone
    exact absurd h (indexOf_eq_none.1 hnone)

theorem readInt_wraps {pos : ℕ} (h : UInt8.ofNat 'e'.toNat ∉ buf.drop (pos + 1)) :
    (readInt buf pos).2 = 0 := by
  rw [readInt, indexOf_eq_none.2 h]

theorem readString_range {pos next : ℕ} {content : Buffer}
    (h : readString buf pos = .ok (content, next)) : pos < next ∧ next ≤ buf.length := by
  unfold readString at h
  split at h
  · cases h
  · rename_i colon hcolon
    dsimp only at h
    split at h
    · cases h
    · rename_i len hlen
      split_ifs at h with hbound
      have := le_of_indexOf hcolon
      have hnext : colon + 1 + len.toNat = next := by injection h with h; exact congrArg Prod.snd h
      push Not at hbound
      omega

theorem readString_ne_timeout (pos : ℕ) : readString buf pos ≠ .timeout := by
  unfold readString
  split
  · exact nofun
  · dsimp only
    split
    · exact nofun
    · split_ifs <;> exact nofun

/-- Past the end there is nothing to decode. -/
theorem lt_length_of_decode {fuel pos next : ℕ} {value : Node}
    (h : decode buf fuel pos = .ok (value, next)) : pos < buf.length := by
  apply lt_length_of_byte
  intro hnull
  cases fuel with
  | zero => simp [decode] at h
  | succ fuel => simp [decode, hnull] at h

/-! ### Moving forward -/

/-- What a budget guarantees about the positions the reader returns. -/
structure AdvancesWithin (buf : Buffer) (fuel : ℕ) : Prop where
  decode : ∀ pos value next, Reaches buf (.value pos) →
    decode buf fuel pos = .ok (value, next) → pos < next
  readList : ∀ pos out next, Reaches buf (.listHead (pos + 1)) →
    readList buf fuel pos = .ok (out, next) → pos < next
  listLoop : ∀ pos out out' close, Reaches buf (.listHead pos) →
    listLoop buf fuel pos out = .ok (out', close) → pos ≤ close
  readDict : ∀ pos out next, Reaches buf (.dictHead (pos + 1)) →
    readDict buf fuel pos = .ok (out, next) → pos < next
  dictLoop : ∀ pos out out' close, Reaches buf (.dictHead pos) →
    dictLoop buf fuel pos out = .ok (out', close) → pos ≤ close

theorem advancesWithin_zero : AdvancesWithin buf 0 where
  decode _ _ _ _ h := by simp [Bencode.decode] at h
  readList _ _ _ _ h := by simp [Bencode.readList] at h
  listLoop _ _ _ _ _ h := by simp [Bencode.listLoop] at h
  readDict _ _ _ _ h := by simp [Bencode.readDict] at h
  dictLoop _ _ _ _ _ h := by simp [Bencode.dictLoop] at h

theorem decode_advances {fuel : ℕ} (ih : AdvancesWithin buf fuel) (hends : IntegersEnd buf)
    {pos next : ℕ} {value : Node} (hreach : Reaches buf (.value pos))
    (h : decode buf (fuel + 1) pos = .ok (value, next)) : pos < next := by
  simp only [decode] at h
  split_ifs at h with hi hl hd hdigit
  · have := readInt_lt (hends pos hreach hi)
    injection h with h
    rwa [h] at this
  · obtain ⟨⟨out, close⟩, hlist, hok⟩ := Outcome.bind_eq_ok.1 h
    cases hok
    exact ih.readList _ _ _ (hreach.openList hl) hlist
  · obtain ⟨⟨out, close⟩, hdict, hok⟩ := Outcome.bind_eq_ok.1 h
    cases hok
    exact ih.readDict _ _ _ (hreach.openDict hd) hdict
  · obtain ⟨⟨content, stop⟩, hstring, hok⟩ := Outcome.bind_eq_ok.1 h
    cases hok
    exact (readString_range hstring).1

theorem listLoop_advances {fuel : ℕ} (ih : AdvancesWithin buf fuel) {pos close : ℕ}
    {out out' : List Node} (hreach : Reaches buf (.listHead pos))
    (h : listLoop buf (fuel + 1) pos out = .ok (out', close)) : pos ≤ close := by
  simp only [listLoop] at h
  split_ifs at h with he
  · cases h
    rfl
  · obtain ⟨⟨value, next⟩, hvalue, hrest⟩ := Outcome.bind_eq_ok.1 h
    have hstep := ih.decode _ _ _ (hreach.item he) hvalue
    have hloop := ih.listLoop _ _ _ _ (hreach.nextItem he hvalue) hrest
    omega

theorem dictLoop_advances {fuel : ℕ} (ih : AdvancesWithin buf fuel) {pos close : ℕ}
    {out out' : List (Buffer × Node × ℕ × ℕ)} (hreach : Reaches buf (.dictHead pos))
    (h : dictLoop buf (fuel + 1) pos out = .ok (out', close)) : pos ≤ close := by
  simp only [dictLoop] at h
  split_ifs at h with he
  · cases h
    rfl
  · obtain ⟨⟨key, start⟩, hkey, h⟩ := Outcome.bind_eq_ok.1 h
    obtain ⟨⟨value, next⟩, hvalue, hrest⟩ := Outcome.bind_eq_ok.1 h
    have hstring := (readString_range hkey).1
    have hstep := ih.decode _ _ _ (hreach.entry he hkey) hvalue
    have hloop := ih.dictLoop _ _ _ _ (hreach.nextEntry he hkey hvalue) hrest
    omega

theorem advancesWithin (hends : IntegersEnd buf) (fuel : ℕ) : AdvancesWithin buf fuel := by
  induction fuel with
  | zero => exact advancesWithin_zero
  | succ fuel ih =>
    exact
      { decode := fun pos value next hreach h => decode_advances ih hends hreach h
        readList := by
          intro pos out next hreach h
          simp only [Bencode.readList] at h
          obtain ⟨⟨out', close⟩, hloop, hok⟩ := Outcome.bind_eq_ok.1 h
          cases hok
          have := ih.listLoop _ _ _ _ hreach hloop
          omega
        listLoop := fun pos out out' close hreach h => listLoop_advances ih hreach h
        readDict := by
          intro pos out next hreach h
          simp only [Bencode.readDict] at h
          obtain ⟨⟨out', close⟩, hloop, hok⟩ := Outcome.bind_eq_ok.1 h
          cases hok
          have := ih.dictLoop _ _ _ _ hreach hloop
          omega
        dictLoop := fun pos out out' close hreach h => dictLoop_advances ih hreach h }

/-! ### Halting -/

/-- Three calls lie between one value and the next one inside it, so three units of budget
for each byte left are enough. -/
structure HaltsWithin (buf : Buffer) (fuel : ℕ) : Prop where
  decode : ∀ pos, Reaches buf (.value pos) → 3 * (buf.length - pos) + 1 ≤ fuel →
    decode buf fuel pos ≠ .timeout
  readList : ∀ pos, Reaches buf (.listHead (pos + 1)) → pos < buf.length →
    3 * (buf.length - pos) ≤ fuel → readList buf fuel pos ≠ .timeout
  listLoop : ∀ pos out, Reaches buf (.listHead pos) → 3 * (buf.length - pos) + 2 ≤ fuel →
    listLoop buf fuel pos out ≠ .timeout
  readDict : ∀ pos, Reaches buf (.dictHead (pos + 1)) → pos < buf.length →
    3 * (buf.length - pos) ≤ fuel → readDict buf fuel pos ≠ .timeout
  dictLoop : ∀ pos out, Reaches buf (.dictHead pos) → 3 * (buf.length - pos) + 2 ≤ fuel →
    dictLoop buf fuel pos out ≠ .timeout

theorem haltsWithin_zero : HaltsWithin buf 0 where
  decode _ _ h := by omega
  readList _ _ _ h := by omega
  listLoop _ _ _ h := by omega
  readDict _ _ _ h := by omega
  dictLoop _ _ _ h := by omega

theorem decode_halts {fuel pos : ℕ} (ih : HaltsWithin buf fuel) (hreach : Reaches buf (.value pos))
    (hfuel : 3 * (buf.length - pos) + 1 ≤ fuel + 1) : decode buf (fuel + 1) pos ≠ .timeout := by
  simp only [decode]
  split_ifs with hi hl hd hdigit
  · exact nofun
  · have hpos : pos < buf.length := lt_length_of_byte (by rw [hl]; decide)
    exact Outcome.bind_ne_timeout (ih.readList pos (hreach.openList hl) hpos (by omega)) nofun
  · have hpos : pos < buf.length := lt_length_of_byte (by rw [hd]; decide)
    exact Outcome.bind_ne_timeout (ih.readDict pos (hreach.openDict hd) hpos (by omega)) nofun
  · exact Outcome.bind_ne_timeout (readString_ne_timeout pos) nofun
  · exact nofun

theorem listLoop_halts {fuel pos : ℕ} (ih : HaltsWithin buf fuel) (hends : IntegersEnd buf)
    {out : List Node} (hreach : Reaches buf (.listHead pos))
    (hfuel : 3 * (buf.length - pos) + 2 ≤ fuel + 1) : listLoop buf (fuel + 1) pos out ≠ .timeout := by
  simp only [listLoop]
  split_ifs with he
  · exact nofun
  · refine Outcome.bind_ne_timeout (ih.decode pos (hreach.item he) (by omega)) ?_
    rintro ⟨value, next⟩ hvalue
    have hstep := (advancesWithin hends fuel).decode _ _ _ (hreach.item he) hvalue
    have hpos := lt_length_of_decode hvalue
    exact ih.listLoop next _ (hreach.nextItem he hvalue) (by omega)

theorem dictLoop_halts {fuel pos : ℕ} (ih : HaltsWithin buf fuel) (hends : IntegersEnd buf)
    {out : List (Buffer × Node × ℕ × ℕ)} (hreach : Reaches buf (.dictHead pos))
    (hfuel : 3 * (buf.length - pos) + 2 ≤ fuel + 1) : dictLoop buf (fuel + 1) pos out ≠ .timeout := by
  simp only [dictLoop]
  split_ifs with he
  · exact nofun
  · refine Outcome.bind_ne_timeout (readString_ne_timeout pos) ?_
    rintro ⟨key, start⟩ hkey
    obtain ⟨hstart, hlength⟩ := readString_range hkey
    have hreach' := hreach.entry he hkey
    refine Outcome.bind_ne_timeout (ih.decode start hreach' (by omega)) ?_
    rintro ⟨value, next⟩ hvalue
    have hstep := (advancesWithin hends fuel).decode _ _ _ hreach' hvalue
    exact ih.dictLoop next _ (hreach.nextEntry he hkey hvalue) (by omega)

theorem haltsWithin (hends : IntegersEnd buf) (fuel : ℕ) : HaltsWithin buf fuel := by
  induction fuel with
  | zero => exact haltsWithin_zero
  | succ fuel ih =>
    exact
      { decode := fun pos hreach hfuel => decode_halts ih hreach hfuel
        readList := by
          intro pos hreach hpos hfuel
          simp only [Bencode.readList]
          exact Outcome.bind_ne_timeout (ih.listLoop _ _ hreach (by omega)) nofun
        listLoop := fun pos out hreach hfuel => listLoop_halts ih hends hreach hfuel
        readDict := by
          intro pos hreach hpos hfuel
          simp only [Bencode.readDict]
          exact Outcome.bind_ne_timeout (ih.dictLoop _ _ hreach (by omega)) nofun
        dictLoop := fun pos out hreach hfuel => dictLoop_halts ih hends hreach hfuel }

theorem readDict_root_halts (hends : IntegersEnd buf) :
    readDict buf (3 * buf.length + 3) 0 ≠ .timeout := by
  simp only [readDict]
  exact Outcome.bind_ne_timeout ((haltsWithin hends _).dictLoop _ _ .root (by omega)) nofun

theorem halts_of_integersEnd (hends : IntegersEnd buf) (sha1 : Buffer → String) : Halts buf sha1 := by
  refine ⟨3 * buf.length + 3, Outcome.bind_ne_timeout (readDict_root_halts hends) ?_⟩
  rintro ⟨root, next⟩ -
  dsimp only
  split <;> exact nofun

variable (buf)

/-- The reader always comes to an end moving forward exactly when every integer it starts
has its `e`. -/
theorem haltsAdvancing_iff (sha1 : Buffer → String) :
    Halts buf sha1 ∧ Advances buf ↔ IntegersEnd buf := by
  constructor
  · rintro ⟨-, hadvances⟩ pos hreach hi
    by_contra hend
    have hdecode : decode buf 1 pos = .ok (readInt buf pos) := by simp [decode, hi]
    have hlt := hadvances 1 pos (readInt buf pos).1 (readInt buf pos).2 hreach hdecode
    rw [readInt_wraps hend] at hlt
    omega
  · intro hends
    exact ⟨halts_of_integersEnd hends sha1,
      fun fuel pos value next => (advancesWithin hends fuel).decode pos value next⟩

/-! ### A buffer that never ends -/

theorem dictLoop_step {buf : Buffer} {fuel pos start stop : ℕ} {key : Buffer} {value : Node}
    (out : List (Buffer × Node × ℕ × ℕ)) (hbyte : byte buf pos ≠ 'e')
    (hkey : readString buf pos = .ok (key, start))
    (hvalue : decode buf fuel start = .ok (value, stop)) :
    dictLoop buf (fuel + 1) pos out = dictLoop buf fuel stop ((key, value, start, stop) :: out) := by
  rw [dictLoop, if_neg hbyte, hkey]
  refine (congrArg (· >>= fun entry : Node × ℕ =>
    dictLoop buf fuel entry.2 ((key, entry.1, start, entry.2) :: out)) hvalue).trans ?_
  rfl

/-- The key is read, its integer sends the reader back to the start, and the first byte,
skipped as the root's opening, now makes the same key again. -/
theorem dictLoop_timeout (fuel : ℕ) : ∀ pos out, pos = 0 ∨ pos = 1 →
    dictLoop (ofText "01:ai") fuel pos out = .timeout := by
  induction fuel with
  | zero =>
    intro pos out _
    rfl
  | succ fuel ih =>
    intro pos out hpos
    have hbyte : byte (ofText "01:ai") pos ≠ 'e' := by rcases hpos with rfl | rfl <;> decide
    have hkey : readString (ofText "01:ai") pos = .ok (ofText "a", 4) := by
      rcases hpos with rfl | rfl <;> decide +kernel
    have hint : (readInt (ofText "01:ai") 4).2 = 0 := by decide +kernel
    have hi : byte (ofText "01:ai") 4 = 'i' := by decide
    cases fuel with
    | zero =>
      rw [dictLoop, if_neg hbyte, hkey]
      rfl
    | succ fuel =>
      have hdecode : decode (ofText "01:ai") (fuel + 1) 4 = .ok (readInt (ofText "01:ai") 4) := by
        simp [decode, hi]
      rw [dictLoop_step out hbyte hkey hdecode]
      exact ih _ _ (.inl hint)

theorem truncatedInteger_hangs : ¬ Halts (ofText "01:ai") fun _ => "" := by
  rintro ⟨fuel, hfuel⟩
  apply hfuel
  apply Outcome.bind_eq_timeout
  cases fuel with
  | zero => rfl
  | succ fuel => exact Outcome.bind_eq_timeout (dictLoop_timeout fuel 1 [] (.inr rfl))

end UltraTorrent.Rtorrent.BencodeProgress
