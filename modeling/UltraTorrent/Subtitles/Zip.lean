import UltraTorrent.Library.BitGroups
import UltraTorrent.Library.Utf8

/-! The first file of a zip archive. The end record is looked for from the end of the buffer, where a
comment may hold another one, and an entry that the buffer cuts short is taken as far as it goes. -/
namespace UltraTorrent.Subtitles.Zip

open Library Library.LittleEndian

abbrev Bytes := List UInt8

def SIG_EOCD : ℕ := 0x06054b50

def SIG_CDH : ℕ := 0x02014b50

def SIG_LFH : ℕ := 0x04034b50

structure ZipEntry where
  name : String
  content : Bytes
  deriving DecidableEq

/-- What the headers say of an entry. -/
structure Located where
  name : String
  method : ℕ
  compSize : ℕ
  dataStart : ℕ
  deriving DecidableEq

/-- The loop over the places where the end record may begin. -/
def findEocd (buf : Bytes) : List ℕ → Except String (Option ℕ)
  | [] => .ok none
  | i :: rest => do
    if (← read 4 buf i) = SIG_EOCD then return some i
    findEocd buf rest

/-- From the last place back over the longest comment. -/
def places (buf : Bytes) : List ℕ :=
  let minStart := buf.length - 22 - 0xffff
  (List.range' minStart (buf.length - 22 + 1 - minStart)).reverse

/-- The entry of which the central header begins at an offset. -/
def readHeaders (buf : Bytes) (cdOffset : ℕ) : Except String (Option Located) := do
  if cdOffset + 46 > buf.length then return none
  if (← read 4 buf cdOffset) ≠ SIG_CDH then return none
  let method ← read 2 buf (cdOffset + 10)
  let compSize ← read 4 buf (cdOffset + 20)
  let nameLen ← read 2 buf (cdOffset + 28)
  let localOffset ← read 4 buf (cdOffset + 42)
  let name := String.ofList (Utf8.decode ((buf.drop (cdOffset + 46)).take nameLen))
  if localOffset + 30 > buf.length then return none
  if (← read 4 buf localOffset) ≠ SIG_LFH then return none
  let lhNameLen ← read 2 buf (localOffset + 26)
  let lhExtraLen ← read 2 buf (localOffset + 28)
  return some ⟨name, method, compSize, localOffset + 30 + lhNameLen + lhExtraLen⟩

def locate (buf : Bytes) : Except String (Option Located) := do
  if buf.length < 22 then return none
  match ← findEocd buf (places buf) with
  | none => return none
  | some eocd => readHeaders buf (← read 4 buf (eocd + 16))

section

-- `none` where it throws
variable (inflateRawSync : Bytes → Option Bytes)

/-- The content as far as the buffer has it. -/
def extract (buf : Bytes) (l : Located) : Option ZipEntry :=
  let data := (buf.drop l.dataStart).take l.compSize
  if l.method = 0 then some ⟨l.name, data⟩
  else if l.method = 8 then (inflateRawSync data).map fun content => ⟨l.name, content⟩
  else none

/-- An error is what it throws. -/
def unzipFirstEntry (buf : Bytes) : Except String (Option ZipEntry) :=
  (locate buf).map fun located => located.bind (extract inflateRawSync buf)

end

/-! ### Archives of one file -/

inductive Method where
  | stored
  | deflated
  deriving DecidableEq

def Method.number : Method → ℕ
  | .stored => 0
  | .deflated => 8

/-- A file and everything that is written around it, within the sizes of its fields. What no reader of
names and contents looks at stands as the bytes it is written with. -/
structure Archive where
  name : List Char
  method : Method
  data : Bytes
  /-- Version, flags, method, time, checksum and sizes. -/
  localFields : Bytes
  localExtra : Bytes
  /-- Versions and flags. -/
  versions : Bytes
  /-- Time and checksum. -/
  checks : Bytes
  size : Bytes
  centralExtra : Bytes
  entryComment : Bytes
  /-- Disk and attributes. -/
  attributes : Bytes
  /-- Disks and counts. -/
  counts : Bytes
  comment : Bytes
  localFields_length : localFields.length = 22
  versions_length : versions.length = 6
  checks_length : checks.length = 8
  size_length : size.length = 4
  attributes_length : attributes.length = 8
  counts_length : counts.length = 8
  name_lt : (Utf8.encode name).length < 256 ^ 2
  localExtra_lt : localExtra.length < 256 ^ 2
  centralExtra_lt : centralExtra.length < 256 ^ 2
  entryComment_lt : entryComment.length < 256 ^ 2
  comment_lt : comment.length < 256 ^ 2
  data_lt : 30 + (Utf8.encode name).length + localExtra.length + data.length < 256 ^ 4

namespace Archive

variable (a : Archive)

def nameBytes : Bytes := Utf8.encode a.name

def localPart : Bytes :=
  bytes 4 SIG_LFH ++ (a.localFields ++ (bytes 2 a.nameBytes.length ++ (bytes 2 a.localExtra.length ++
    (a.nameBytes ++ (a.localExtra ++ a.data)))))

def centralPart : Bytes :=
  bytes 4 SIG_CDH ++ (a.versions ++ (bytes 2 a.method.number ++ (a.checks ++ (bytes 4 a.data.length ++ (a.size ++
    (bytes 2 a.nameBytes.length ++ (bytes 2 a.centralExtra.length ++ (bytes 2 a.entryComment.length ++
      (a.attributes ++ (bytes 4 0 ++ (a.nameBytes ++ (a.centralExtra ++ a.entryComment))))))))))))

def endPart : Bytes :=
  bytes 4 SIG_EOCD ++ (a.counts ++ (bytes 4 a.centralPart.length ++ (bytes 4 a.localPart.length ++
    (bytes 2 a.comment.length ++ a.comment))))

def toBytes : Bytes := a.localPart ++ (a.centralPart ++ a.endPart)

/-- What there is to read. -/
def entry (inflateRawSync : Bytes → Option Bytes) : Option ZipEntry :=
  match a.method with
  | .stored => some ⟨.ofList a.name, a.data⟩
  | .deflated => (inflateRawSync a.data).map fun content => ⟨.ofList a.name, content⟩

end Archive

/-! ### Reading where there is something to read -/

section Reading

variable {buf : Bytes} {offset : ℕ}

/-- The end of the headers that are read is within the buffer, so that no read throws. -/
theorem readHeaders_ok (buf : Bytes) (offset : ℕ) : ∃ located, readHeaders buf offset = .ok located := by
  unfold readHeaders
  split
  · exact ⟨none, rfl⟩
  next hcentral =>
    rw [read_eq (by omega)]
    dsimp only [bind, Except.bind, pure, Except.pure]
    split
    · exact ⟨none, rfl⟩
    · rw [read_eq (by omega), read_eq (by omega), read_eq (by omega), read_eq (by omega)]
      dsimp only
      split
      · exact ⟨none, rfl⟩
      next hlocal =>
        rw [read_eq (by omega), read_eq (by omega), read_eq (by omega)]
        dsimp only
        split
        · exact ⟨none, rfl⟩
        · exact ⟨_, rfl⟩

/-- An end record may begin here. -/
def IsRecord (buf : Bytes) (i : ℕ) : Prop := i + 22 ≤ buf.length ∧ valueAt 4 buf i = SIG_EOCD

instance (buf : Bytes) (i : ℕ) : Decidable (IsRecord buf i) := inferInstanceAs (Decidable (_ ∧ _))

/-- And no other one behind it. -/
def LastRecord (buf : Bytes) (i : ℕ) : Prop := IsRecord buf i ∧ ∀ j, i < j → ¬ IsRecord buf j

theorem findEocd_eq {is : List ℕ} (h : ∀ i ∈ is, i + 22 ≤ buf.length) :
    findEocd buf is = .ok (is.find? fun i => valueAt 4 buf i = SIG_EOCD) := by
  induction is with
  | nil => rfl
  | cons i rest ih =>
    rw [List.forall_mem_cons] at h
    rw [findEocd, read_eq (by omega), List.find?_cons]
    dsimp only [bind, Except.bind, pure, Except.pure]
    by_cases hi : valueAt 4 buf i = SIG_EOCD
    · rw [if_pos hi, decide_eq_true hi]
    · rw [if_neg hi, decide_eq_false hi]
      exact ih h.2

theorem mem_places (h : 22 ≤ buf.length) {i : ℕ} :
    i ∈ places buf ↔ buf.length - 22 - 0xffff ≤ i ∧ i + 22 ≤ buf.length := by
  rw [places, List.mem_reverse, List.mem_range'_1]
  omega

/-- The record that is found is the last one. -/
theorem lastRecord_of_find {i : ℕ} (h : 22 ≤ buf.length)
    (hfind : (places buf).find? (fun i => valueAt 4 buf i = SIG_EOCD) = some i) : LastRecord buf i := by
  obtain ⟨hi, before, after, hplaces, hbefore⟩ := List.find?_eq_some_iff_append.1 hfind
  have hmem := (mem_places h).1 (List.mem_of_find?_eq_some hfind)
  refine ⟨⟨hmem.2, of_decide_eq_true hi⟩, fun j hij hj => ?_⟩
  have hsorted : (places buf).Pairwise (· > ·) := by
    rw [places, List.pairwise_reverse]
    exact List.pairwise_lt_range'
  have hjmem : j ∈ places buf := (mem_places h).2 ⟨by omega, hj.1⟩
  rw [hplaces] at hsorted hjmem
  rcases List.mem_append.1 hjmem with hjmem | hjmem
  · simpa [hj.2] using hbefore j hjmem
  · have hsorted := (List.pairwise_append.1 hsorted).2.1
    rcases List.mem_cons.1 hjmem with rfl | hjmem
    · exact absurd hij (Nat.lt_irrefl _)
    · exact absurd ((List.pairwise_cons.1 hsorted).1 j hjmem) (by omega)

theorem exists_lastRecord {e : ℕ} (he : IsRecord buf e) (hreach : buf.length - 22 - 0xffff ≤ e) :
    ∃ i, e ≤ i ∧ LastRecord buf i ∧ findEocd buf (places buf) = .ok (some i) := by
  have hlong : 22 ≤ buf.length := by
    have hle := he.1
    omega
  have hfound := findEocd_eq fun i hi => ((mem_places hlong).1 hi).2
  cases hfind : (places buf).find? (fun i => valueAt 4 buf i = SIG_EOCD) with
  | none =>
    have hnone := List.find?_eq_none.1 hfind e ((mem_places hlong).2 ⟨hreach, he.1⟩)
    exact absurd (decide_eq_true he.2) hnone
  | some i =>
    have hlast := lastRecord_of_find hlong hfind
    refine ⟨i, ?_, hlast, hfind ▸ hfound⟩
    by_contra hlt
    exact hlast.2 e (by omega) he

/-- What is read from the end record at a place. -/
def entryFrom (inflateRawSync : Bytes → Option Bytes) (buf : Bytes) (i : ℕ) : Except String (Option ZipEntry) :=
  (readHeaders buf (valueAt 4 buf (i + 16))).map fun located => located.bind (extract inflateRawSync buf)

theorem findEocd_ok (h : 22 ≤ buf.length) :
    ∃ found, findEocd buf (places buf) = .ok found ∧ ∀ i ∈ found, i + 22 ≤ buf.length := by
  have hplaces : ∀ i ∈ places buf, i + 22 ≤ buf.length := fun i hi => ((mem_places h).1 hi).2
  exact ⟨_, findEocd_eq hplaces, fun i hi => hplaces i (List.mem_of_find?_eq_some hi)⟩

/-- Nothing is thrown, whatever the buffer. -/
theorem locate_ok (buf : Bytes) : ∃ located, locate buf = .ok located := by
  by_cases hshort : buf.length < 22
  · exact ⟨none, by rw [locate, if_pos hshort]; rfl⟩
  · obtain ⟨found, hfound, hi⟩ := findEocd_ok (Nat.le_of_not_lt hshort)
    rw [locate, if_neg hshort, hfound]
    cases found with
    | none => exact ⟨none, rfl⟩
    | some i =>
      have hlong := hi i rfl
      dsimp only [bind, Except.bind, pure, Except.pure]
      rw [read_eq (by omega)]
      exact readHeaders_ok buf _

theorem unzipFirstEntry_eq {inflateRawSync : Bytes → Option Bytes} {i : ℕ}
    (hi : findEocd buf (places buf) = .ok (some i)) (hlong : i + 22 ≤ buf.length) :
    unzipFirstEntry inflateRawSync buf = entryFrom inflateRawSync buf i := by
  have hlocate : locate buf = readHeaders buf (valueAt 4 buf (i + 16)) := by
    unfold locate
    rw [if_neg (by omega), hi]
    dsimp only [bind, Except.bind, pure, Except.pure]
    rw [read_eq (by omega)]
  rw [unzipFirstEntry, hlocate]
  rfl

end Reading

/-! ### Reading what was written -/

namespace Archive

variable {inflateRawSync : Bytes → Option Bytes} (a : Archive)

/-- Where the end record begins. -/
def endOffset : ℕ := a.localPart.length + a.centralPart.length

theorem length_localPart : a.localPart.length =
    30 + a.nameBytes.length + a.localExtra.length + a.data.length := by
  simp only [localPart, List.length_append, length_bytes, a.localFields_length]
  omega

theorem length_centralPart : a.centralPart.length =
    46 + a.nameBytes.length + a.centralExtra.length + a.entryComment.length := by
  simp only [centralPart, List.length_append, length_bytes, a.versions_length, a.checks_length, a.size_length,
    a.attributes_length]
  omega

theorem length_endPart : a.endPart.length = 22 + a.comment.length := by
  simp only [endPart, List.length_append, length_bytes, a.counts_length]
  omega

theorem length_toBytes : a.toBytes.length = a.endOffset + (22 + a.comment.length) := by
  rw [toBytes, List.length_append, List.length_append, length_endPart, endOffset, Nat.add_assoc]

theorem length_localPart_lt : a.localPart.length < 256 ^ 4 := by
  rw [length_localPart]
  exact a.data_lt

theorem nameBytes_lt : a.nameBytes.length < 256 ^ 2 := a.name_lt

theorem data_length_lt : a.data.length < 256 ^ 4 := by
  have hlt := a.data_lt
  omega

theorem number_lt (method : Method) : method.number < 256 ^ 2 := by
  cases method <;> decide

section Fields

variable (width k : ℕ)

theorem central_at : valueAt width a.toBytes (a.localPart.length + k) =
    valueAt width (a.centralPart ++ a.endPart) k := valueAt_skip rfl rfl _ _

theorem end_at : valueAt width a.toBytes (a.endOffset + k) = valueAt width a.endPart k := by
  rw [endOffset, Nat.add_assoc, central_at, valueAt_skip rfl rfl]

end Fields

theorem isRecord_end : IsRecord a.toBytes a.endOffset := by
  refine ⟨by rw [length_toBytes]; omega, ?_⟩
  have hsignature := a.end_at 4 0
  rw [Nat.add_zero] at hsignature
  rw [hsignature, endPart, valueAt_bytes (by decide)]

/-- The end record says where the central header is. -/
theorem offset_end : valueAt 4 a.toBytes (a.endOffset + 16) = a.localPart.length := by
  rw [end_at, endPart, valueAt_skip (length_bytes 4 _) (show 16 = 4 + 12 from rfl),
    valueAt_skip a.counts_length (show 12 = 8 + 4 from rfl), valueAt_skip (length_bytes 4 _) (show 4 = 4 + 0 from rfl),
    valueAt_bytes a.length_localPart_lt]

theorem central_signature : valueAt 4 a.toBytes a.localPart.length = SIG_CDH := by
  have hsignature := a.central_at 4 0
  rw [Nat.add_zero] at hsignature
  rw [hsignature, centralPart]
  simp only [List.append_assoc]
  exact valueAt_bytes (by decide) _

theorem central_method : valueAt 2 a.toBytes (a.localPart.length + 10) = a.method.number := by
  rw [central_at, centralPart]
  simp only [List.append_assoc]
  rw [valueAt_skip (length_bytes 4 _) (show 10 = 4 + 6 from rfl),
    valueAt_skip a.versions_length (show 6 = 6 + 0 from rfl), valueAt_bytes (number_lt _)]

theorem central_compSize : valueAt 4 a.toBytes (a.localPart.length + 20) = a.data.length := by
  rw [central_at, centralPart]
  simp only [List.append_assoc]
  rw [valueAt_skip (length_bytes 4 _) (show 20 = 4 + 16 from rfl),
    valueAt_skip a.versions_length (show 16 = 6 + 10 from rfl),
    valueAt_skip (length_bytes 2 _) (show 10 = 2 + 8 from rfl),
    valueAt_skip a.checks_length (show 8 = 8 + 0 from rfl), valueAt_bytes a.data_length_lt]

theorem central_sizes (width k : ℕ) : valueAt width a.toBytes (a.localPart.length + (28 + k)) =
    valueAt width (bytes 2 a.nameBytes.length ++ (bytes 2 a.centralExtra.length ++ (bytes 2 a.entryComment.length ++
      (a.attributes ++ (bytes 4 0 ++ (a.nameBytes ++ (a.centralExtra ++ (a.entryComment ++ a.endPart)))))))) k := by
  rw [central_at, centralPart]
  simp only [List.append_assoc]
  rw [valueAt_skip (length_bytes 4 _) (show 28 + k = 4 + (24 + k) by omega),
    valueAt_skip a.versions_length (show 24 + k = 6 + (18 + k) by omega),
    valueAt_skip (length_bytes 2 _) (show 18 + k = 2 + (16 + k) by omega),
    valueAt_skip a.checks_length (show 16 + k = 8 + (8 + k) by omega),
    valueAt_skip (length_bytes 4 _) (show 8 + k = 4 + (4 + k) by omega), valueAt_skip a.size_length rfl]

theorem central_nameLen : valueAt 2 a.toBytes (a.localPart.length + 28) = a.nameBytes.length := by
  rw [a.central_sizes 2 0, valueAt_bytes a.nameBytes_lt]

theorem central_localOffset : valueAt 4 a.toBytes (a.localPart.length + 42) = 0 := by
  rw [a.central_sizes 4 14, valueAt_skip (length_bytes 2 _) (show 14 = 2 + 12 from rfl),
    valueAt_skip (length_bytes 2 _) (show 12 = 2 + 10 from rfl),
    valueAt_skip (length_bytes 2 _) (show 10 = 2 + 8 from rfl),
    valueAt_skip a.attributes_length (show 8 = 8 + 0 from rfl), valueAt_bytes (by decide)]

theorem central_name : (a.toBytes.drop (a.localPart.length + 46)).take a.nameBytes.length = a.nameBytes := by
  rw [toBytes, drop_skip rfl rfl, centralPart]
  simp only [List.append_assoc]
  rw [drop_skip (length_bytes 4 _) (show 46 = 4 + 42 from rfl), drop_skip a.versions_length (show 42 = 6 + 36 from rfl),
    drop_skip (length_bytes 2 _) (show 36 = 2 + 34 from rfl), drop_skip a.checks_length (show 34 = 8 + 26 from rfl),
    drop_skip (length_bytes 4 _) (show 26 = 4 + 22 from rfl), drop_skip a.size_length (show 22 = 4 + 18 from rfl),
    drop_skip (length_bytes 2 _) (show 18 = 2 + 16 from rfl), drop_skip (length_bytes 2 _) (show 16 = 2 + 14 from rfl),
    drop_skip (length_bytes 2 _) (show 14 = 2 + 12 from rfl), drop_skip a.attributes_length (show 12 = 8 + 4 from rfl),
    drop_skip (length_bytes 4 _) (show 4 = 4 + 0 from rfl), List.drop_zero, List.take_left]

theorem local_signature : valueAt 4 a.toBytes 0 = SIG_LFH := by
  rw [toBytes, localPart]
  simp only [List.append_assoc]
  exact valueAt_bytes (by decide) _

theorem local_nameLen : valueAt 2 a.toBytes 26 = a.nameBytes.length := by
  rw [toBytes, localPart]
  simp only [List.append_assoc]
  rw [valueAt_skip (length_bytes 4 _) (show 26 = 4 + 22 from rfl),
    valueAt_skip a.localFields_length (show 22 = 22 + 0 from rfl), valueAt_bytes a.nameBytes_lt]

theorem local_extraLen : valueAt 2 a.toBytes 28 = a.localExtra.length := by
  rw [toBytes, localPart]
  simp only [List.append_assoc]
  rw [valueAt_skip (length_bytes 4 _) (show 28 = 4 + 24 from rfl),
    valueAt_skip a.localFields_length (show 24 = 22 + 2 from rfl),
    valueAt_skip (length_bytes 2 _) (show 2 = 2 + 0 from rfl), valueAt_bytes a.localExtra_lt]

theorem local_data : (a.toBytes.drop (30 + a.nameBytes.length + a.localExtra.length)).take a.data.length =
    a.data := by
  rw [toBytes, localPart]
  simp only [List.append_assoc]
  rw [drop_skip (length_bytes 4 _) (show _ = 4 + (26 + a.nameBytes.length + a.localExtra.length) by omega),
    drop_skip a.localFields_length (show _ = 22 + (4 + a.nameBytes.length + a.localExtra.length) by omega),
    drop_skip (length_bytes 2 _) (show _ = 2 + (2 + a.nameBytes.length + a.localExtra.length) by omega),
    drop_skip (length_bytes 2 _) (show _ = 2 + (a.nameBytes.length + a.localExtra.length) by omega),
    drop_skip rfl rfl, drop_skip rfl (Nat.add_zero _).symm, List.drop_zero, List.take_left]

theorem readHeaders_eq : readHeaders a.toBytes a.localPart.length = .ok (some ⟨.ofList a.name, a.method.number,
    a.data.length, 30 + a.nameBytes.length + a.localExtra.length⟩) := by
  have hlong : a.localPart.length + 46 ≤ a.toBytes.length := by
    rw [length_toBytes, endOffset, length_centralPart]
    omega
  have hlocal : 30 ≤ a.localPart.length := by
    rw [length_localPart]
    omega
  unfold readHeaders
  rw [if_neg (by omega), read_eq (by omega)]
  dsimp only [bind, Except.bind, pure, Except.pure]
  rw [central_signature, if_neg (not_not.2 rfl), read_eq (by omega), read_eq (by omega), read_eq (by omega),
    read_eq (by omega), central_method, central_compSize, central_nameLen, central_localOffset]
  dsimp only
  rw [if_neg (by omega), read_eq (by omega), local_signature]
  dsimp only
  rw [if_neg (not_not.2 rfl), read_eq (by omega), read_eq (by omega), local_nameLen, local_extraLen, central_name,
    nameBytes, Utf8.decode_encode]

theorem entryFrom_end : entryFrom inflateRawSync a.toBytes a.endOffset = .ok (a.entry inflateRawSync) := by
  rw [entryFrom, offset_end, readHeaders_eq]
  refine congrArg Except.ok ?_
  dsimp only [Option.bind_some]
  rw [extract, local_data, entry]
  cases a.method with
  | stored => rfl
  | deflated => rfl

end Archive

section

variable (inflateRawSync : Bytes → Option Bytes)

/-- The last end record in the bytes of an archive leads to its file: it is its own, or one that leads there. -/
def EndsTrue (a : Archive) : Prop := ∀ i, a.endOffset < i → LastRecord a.toBytes i →
  entryFrom inflateRawSync a.toBytes i = .ok (a.entry inflateRawSync)

theorem unzipFirstEntry_iff (a : Archive) :
    unzipFirstEntry inflateRawSync a.toBytes = .ok (a.entry inflateRawSync) ↔ EndsTrue inflateRawSync a := by
  have hreach : a.toBytes.length - 22 - 0xffff ≤ a.endOffset := by
    have hcomment := a.comment_lt
    rw [Archive.length_toBytes]
    omega
  obtain ⟨i, hle, hlast, hfind⟩ := exists_lastRecord a.isRecord_end hreach
  rw [unzipFirstEntry_eq hfind hlast.1.1]
  constructor
  · intro h j hj hjlast
    have hij : j = i := by
      by_contra hne
      rcases Nat.lt_or_gt_of_ne hne with hlt | hlt
      · exact hjlast.2 i hlt hlast.1
      · exact hlast.2 j hlt hjlast.1
    rw [hij, h]
  · intro h
    rcases Nat.eq_or_lt_of_le hle with heq | hlt
    · rw [← heq, Archive.entryFrom_end]
    · exact h i hlt hlast

/-- A stored entry is whole if the buffer holds as much as its header declares. -/
theorem length_extract {buf : Bytes} {l : Located} {e : ZipEntry} (hstored : l.method = 0)
    (he : extract inflateRawSync buf l = some e) :
    l.compSize ≤ e.content.length ↔ l.compSize = 0 ∨ l.dataStart + l.compSize ≤ buf.length := by
  rw [extract, if_pos hstored, Option.some_inj] at he
  subst he
  rw [List.length_take, List.length_drop]
  omega

/-- A stored entry that is returned has as many bytes as its header declares. -/
def StoredWhole (buf : Bytes) : Prop := ∀ l e, locate buf = .ok (some l) → l.method = 0 →
  unzipFirstEntry inflateRawSync buf = .ok (some e) → l.compSize ≤ e.content.length

/-- The buffer holds what the headers declare of a stored entry. -/
def HoldsDeclared (buf : Bytes) : Prop := ∀ l, locate buf = .ok (some l) → l.method = 0 →
  l.compSize = 0 ∨ l.dataStart + l.compSize ≤ buf.length

theorem storedWhole_iff (buf : Bytes) : StoredWhole inflateRawSync buf ↔ HoldsDeclared buf := by
  constructor
  · intro h l hl hstored
    have he : extract inflateRawSync buf l = some ⟨l.name, (buf.drop l.dataStart).take l.compSize⟩ := by
      rw [extract, if_pos hstored]
    have hunzip : unzipFirstEntry inflateRawSync buf = .ok (extract inflateRawSync buf l) := by
      rw [unzipFirstEntry, hl]
      rfl
    exact (length_extract inflateRawSync hstored he).1 (h l _ hl hstored (hunzip.trans (congrArg _ he)))
  · intro h l e hl hstored hunzip
    rw [unzipFirstEntry, hl] at hunzip
    exact (length_extract inflateRawSync hstored (Except.ok.inj hunzip)).2 (h l hl hstored)

/-- An archive is read back where no false end record stands in its comment; nothing throws; and a stored
entry is whole where the buffer is. -/
theorem unzipFirstEntry_spec :
    (∀ a : Archive, unzipFirstEntry inflateRawSync a.toBytes = .ok (a.entry inflateRawSync) ↔
      EndsTrue inflateRawSync a) ∧
    (∀ buf, ∃ entry, unzipFirstEntry inflateRawSync buf = .ok entry) ∧
    ∀ buf, StoredWhole inflateRawSync buf ↔ HoldsDeclared buf := by
  refine ⟨unzipFirstEntry_iff inflateRawSync, fun buf => ?_, storedWhole_iff inflateRawSync⟩
  obtain ⟨located, hlocated⟩ := locate_ok buf
  exact ⟨_, by rw [unzipFirstEntry, hlocated]; rfl⟩

end

/-- A comment that holds the signature. -/
def commented : Archive where
  name := ['a']
  method := .stored
  data := [65]
  localFields := List.replicate 22 0
  localExtra := []
  versions := List.replicate 6 0
  checks := List.replicate 8 0
  size := List.replicate 4 0
  centralExtra := []
  entryComment := []
  attributes := List.replicate 8 0
  counts := List.replicate 8 0
  comment := bytes 4 SIG_EOCD ++ List.replicate 18 0
  localFields_length := rfl
  versions_length := rfl
  checks_length := rfl
  size_length := rfl
  attributes_length := rfl
  counts_length := rfl
  name_lt := by decide
  localExtra_lt := by decide
  centralExtra_lt := by decide
  entryComment_lt := by decide
  comment_lt := by decide
  data_lt := by decide

/-- A central header that declares a thousand bytes, a local header and an end record. -/
def truncated : Bytes :=
  bytes 4 SIG_CDH ++ List.replicate 16 0 ++ bytes 4 1000 ++ List.replicate 18 0 ++ bytes 4 46 ++
    (bytes 4 SIG_LFH ++ List.replicate 26 0) ++ (bytes 4 SIG_EOCD ++ List.replicate 18 0)

theorem misread_and_truncated :
    (¬ ∀ a : Archive, unzipFirstEntry (fun _ => none) a.toBytes = .ok (a.entry fun _ => none)) ∧
      ¬ ∀ buf, StoredWhole (fun _ => none) buf := by
  constructor
  · intro h
    have hnone : unzipFirstEntry (fun _ => none) commented.toBytes = .ok none := by decide +kernel
    rw [h commented] at hnone
    cases hnone
  · intro h
    have hlocated : locate truncated = .ok (some ⟨"", 0, 1000, 76⟩) := by decide +kernel
    have hread : unzipFirstEntry (fun _ => none) truncated = .ok (some ⟨"", truncated.drop 76⟩) := by decide +kernel
    exact absurd (h truncated _ _ hlocated rfl hread) (by decide)

end UltraTorrent.Subtitles.Zip
