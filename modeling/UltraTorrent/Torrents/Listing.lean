import Mathlib.Data.List.Infix
import Mathlib.Data.List.Lex
import UltraTorrent.Library.EcmaScript

/-! The engine registry's choice of an engine, and the paged torrent listing read through it. -/
namespace UltraTorrent.Torrents.Listing

open Library.EcmaScript

/-- The columns the listing reads by name, and the others, which it may be asked to sort by. -/
structure NormalizedTorrent where
  hash : String
  name : String
  state : String
  label : Option String
  addedAt : Option String
  others : List (String × Value)

def nullable : Option String → Value
  | none => .null
  | some s => .string s

/-- `t[key]`. -/
def NormalizedTorrent.column (t : NormalizedTorrent) (key : String) : Value :=
  if key = "hash" then .string t.hash
  else if key = "name" then .string t.name
  else if key = "state" then .string t.state
  else if key = "label" then nullable t.label
  else if key = "addedAt" then nullable t.addedAt
  else (t.others.lookup key).getD .undefined

/-! ### The registry -/

structure EngineRow where
  id : String
  isEnabled : Bool
  isDefault : Bool

/-- A live provider, and what its engine answers; `none` when it cannot be reached. -/
structure Provider where
  engineId : String
  listTorrents : Option (List NormalizedTorrent)

structure Engines where
  rows : List EngineRow
  /-- In the order they were loaded. -/
  providers : List Provider
  /-- What each engine really holds, whatever it answers. -/
  torrents : String → List NormalizedTorrent

namespace Engines

variable (engines : Engines)

def get (engineId : String) : Option Provider :=
  engines.providers.find? (·.engineId = engineId)

def getDefaultEngineId : Option String :=
  let def? := engines.rows.find? fun row => row.isEnabled && row.isDefault
  ((def?.map (·.id)).or (engines.providers.head?.map (·.engineId))).filter (· ≠ "")

def getDefault : Option Provider := engines.getDefaultEngineId.bind engines.get

def resolve (engineId : Option String) : Option Provider :=
  match engineId.filter (· ≠ "") with
  | some id => engines.get id
  | none => engines.getDefault

end Engines

/-! ### The listing -/

structure ListTorrentsQuery where
  engineId : Option String := none
  state : Option String := none
  category : Option String := none
  search : Option String := none
  sortBy : Option String := none
  ascending : Bool := false
  page : Option ℤ := none
  pageSize : Option ℤ := none

structure Page where
  items : List NormalizedTorrent
  total : ℕ
  page : ℤ
  pageSize : ℤ

/-- Where `slice` starts or ends: a negative index counts from the end. -/
def sliceIndex (length : ℕ) (i : ℤ) : ℕ := (if i < 0 then length + i else i).toNat

def slice {α : Type*} (xs : List α) (start stop : ℤ) : List α :=
  (xs.take (sliceIndex xs.length stop)).drop (sliceIndex xs.length start)

variable (rt : Runtime)

/-- A part of the query that is left out, or empty, filters nothing. -/
def matchesQuery (query : ListTorrentsQuery) (t : NormalizedTorrent) : Bool :=
  (query.state.all fun state => state = "" || t.state = state)
    && (query.category.all fun category => category = "" || t.label = some category)
    && query.search.all fun search => search = ""
      || ((rt.toLowerCase search).toList <:+: (rt.toLowerCase t.name).toList)
      || ((rt.toLowerCase search).toList <:+: t.hash.toList)

def compare (query : ListTorrentsQuery) (a b : NormalizedTorrent) : ℤ :=
  let av := a.column (query.sortBy.getD "addedAt")
  let bv := b.column (query.sortBy.getD "addedAt")
  if av.strictEq bv then 0
  else (if rt.gt av bv then 1 else -1) * (if query.ascending then 1 else -1)

/-- `Array.prototype.sort` on torrents. A date compared with a missing one is put after it both
ways round, and in what order such a sort ends is the host's affair. -/
abbrev TorrentSort := (NormalizedTorrent → NormalizedTorrent → ℤ) → List NormalizedTorrent →
  List NormalizedTorrent

/-- `none` when no engine could be resolved or read. The parking and intake states that are added
to the items of the page are left out. -/
def list (sort : TorrentSort) (engines : Engines) (query : ListTorrentsQuery) : Option Page := do
  let provider ← engines.resolve query.engineId
  let answered ← provider.listTorrents
  let torrents := sort (compare rt query) (answered.filter (matchesQuery rt query))
  let page := query.page.getD 1
  let pageSize := min (query.pageSize.getD 50) 500
  some { items := slice torrents ((page - 1) * pageSize) (page * pageSize)
         total := torrents.length, page := page, pageSize := pageSize }

def newestFirst (sort : TorrentSort) (engines : Engines) : Option (List NormalizedTorrent) :=
  (engines.getDefault.bind (·.listTorrents)).map (sort (compare rt {}))

theorem slice_zero {α : Type*} (xs : List α) (n : ℕ) : slice xs 0 n = xs.take n := by
  have hn : ¬ (n : ℤ) < 0 := by omega
  simp [slice, sliceIndex, hn]

theorem matchesQuery_pageSize (pageSize : Option ℤ) (t : NormalizedTorrent) :
    matchesQuery rt { pageSize := pageSize } t = true := rfl

/-- A query for one large page is answered with the newest of the default engine's torrents,
and never with more than 500 of them. -/
theorem items_list (sort : TorrentSort) (engines : Engines) (n : ℕ) :
    (list rt sort engines { pageSize := some n }).map (·.items) =
      (newestFirst rt sort engines).map (·.take (min n 500)) := by
  unfold list newestFirst Engines.resolve
  cases engines.getDefault with
  | none => rfl
  | some provider =>
    cases hanswer : provider.listTorrents with
    | none => simp [hanswer]
    | some answered =>
      have hall : answered.filter (matchesQuery rt { pageSize := some n }) = answered :=
        List.filter_eq_self.2 fun t _ => matchesQuery_pageSize rt (some n) t
      have hcompare : compare rt { pageSize := some n } = compare rt {} := rfl
      have hpage := slice_zero (sort (compare rt {}) answered) (min n 500)
      push_cast at hpage
      simp [hanswer, hall, hcompare, hpage]

end UltraTorrent.Torrents.Listing
