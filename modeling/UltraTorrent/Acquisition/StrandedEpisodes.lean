import UltraTorrent.Acquisition.Rescan
import UltraTorrent.Acquisition.WantedSearches

/-! No missing episode is stranded: when no search is in flight, each one can be searched again, or
is grabbed together with the torrent that was added for it. That holds as long as no error leaves a
manual search or the handler of an error, and no scan writes a row again that is being searched or
has been grabbed. -/
namespace UltraTorrent.Acquisition.StrandedEpisodes

open Library Library.Interleaving Library.EcmaScript MissingEpisodes ReleaseSelection WantedSearches

variable {P : Type} {rules : Rules P} {store store' : Store} {call call' : Call P} {answer : Answer P}
  {write : Write} {w : WantedEpisode}

/-- The search of an episode is under way from its first write to its outcome. -/
def Stage.isInFlight : Stage P → Bool
  | .starting | .auditing => false
  | _ => true

/-- The episode whose search is in flight. -/
def inFlight : Call P → Option String
  | .processing _ w stage _ => if Stage.isInFlight stage then some w.id else none
  | .handling w _ => some w.id
  | _ => none

/-- The statuses from which a sweep selects a row, if need be after the backoff. -/
def isOpen (s : SearchStatus) : Bool := s = .idle || s = .noResults || s = .failed

/-- No error leaves a manual search that is in flight, or the handler of an error, and the rows a
scan creates can be searched. -/
def attended (store : Store) (call : Call P) (answer : Answer P) : Bool :=
  match call with
  | .processing .manual _ .findingItem _ => !answer.fails && answer.item.isSome
  | .processing .manual _ stage _ => !Stage.isInFlight stage || !answer.fails
  | .handling _ _ => !answer.fails
  | .creating _ new =>
    (store.rows.addMissings new).rows.all fun v => store.rows.rows.contains v || isOpen v.searchStatus
  | _ => true

/-! ### What a search leaves behind -/

/-- What a search may write at its end; a torrent it says it grabbed has been added. -/
def Outcome (added : List Added) (id : String) : Patch → Prop
  | .failed _ | .noResults _ | .grabFailed .. => True
  | .grabbed _ _ _ title torrentHash _ => ⟨id, title, torrentHash⟩ ∈ added
  | .searching | .owned | .released _ => False

/-- A call has had added what it is about to write. -/
def Ready (added : List Added) : Call P → Prop
  | .processing _ w (.recording _ release torrentHash _) _ =>
    ∀ hash ∈ torrentHash, ⟨w.id, release.title, hash⟩ ∈ added
  | .processing _ w (.writing patch _) _ => Outcome added w.id patch
  | .packing request (.recording _ release torrentHash) =>
    ∀ hash ∈ torrentHash, ∀ id ∈ request.coveredEpisodeIds, ⟨id, release.title, hash⟩ ∈ added
  | .packing request (.covering patch) => ∀ id ∈ request.coveredEpisodeIds, Outcome added id patch
  | _ => True

theorem Outcome.mono {added added' : List Added} {id : String} {patch : Patch} (hsub : added ⊆ added')
    (h : Outcome added id patch) : Outcome added' id patch := by
  cases patch with
  | grabbed => exact hsub h
  | _ => exact h

theorem Ready.mono {added added' : List Added} (hsub : added ⊆ added') (h : Ready added call) :
    Ready added' call := by
  cases call with
  | processing origin w stage rest =>
    cases stage with
    | recording => exact fun hash hhash => hsub (h hash hhash)
    | writing => exact Outcome.mono hsub h
    | _ => trivial
  | packing request stage =>
    cases stage with
    | recording => exact fun hash hhash id hid => hsub (h hash hhash id hid)
    | covering => exact fun id hid => Outcome.mono hsub (h id hid)
    | _ => trivial
  | _ => trivial

theorem ready_of_isFresh (added : List Added) (h : isFresh call) : Ready added call := by
  cases call with
  | processing origin w stage rest => cases stage <;> trivial
  | packing request stage => cases stage <;> trivial
  | _ => trivial

theorem outcome_ready {added : List Added} {savePath : SavePath} {release : Candidate}
    {torrentHash : Option String} (refused : Bool)
    (h : ∀ hash ∈ torrentHash, ⟨w.id, release.title, hash⟩ ∈ added) :
    Outcome added w.id (outcome w answer savePath release torrentHash refused) := by
  unfold outcome
  split
  · trivial
  · rename_i hash hhash
    exact h hash (Option.filter_eq_some_iff.1 hhash).1

theorem ready_recording {added : List Added} {ids : List String} {title hash : String} (lost : Bool) :
    ∀ found ∈ (if lost then none else some hash), ∀ id ∈ ids,
      (⟨id, title, found⟩ : Added) ∈ ids.map (fun episodeId => ⟨episodeId, title, hash⟩) ++ added := by
  intro found hfound id hid
  split_ifs at hfound <;> cases hfound
  exact List.mem_append_left _ (List.mem_map_of_mem hid)

theorem nextEpisode_ready (rules : Rules P) (store : Store) (answer : Answer P) (origin : Origin)
    (rest : List WantedEpisode) {stage : Stage P}
    (h : Ready store.added (.processing origin w stage rest)) :
    Ready (store.apply (nextEpisode rules store answer origin w rest stage).1).added
      (nextEpisode rules store answer origin w rest stage).2 := by
  cases hfails : answer.fails with
  | true =>
    simp only [nextEpisode, hfails, if_true]
    exact ready_of_isFresh _ (isFresh_thrown origin w rest)
  | false =>
    cases stage <;> simp only [nextEpisode, hfails, Bool.false_eq_true, if_false]
    case starting | checkingOwned | asking | preferring | resolvingPath =>
      repeat' split
      all_goals trivial
    case findingItem =>
      cases answer.item with
      | none => exact ready_of_isFresh _ (isFresh_thrown origin w rest)
      | some item => trivial
    case owning =>
      split_ifs
      · exact ready_of_isFresh _ (isFresh_proceed origin rest)
      · exact ready_of_isFresh _ (isFresh_thrown origin w rest)
    case grabbing savePath release =>
      cases answer.engine with
      | added torrentHash lost =>
        exact fun found hfound => ready_recording lost found hfound w.id (List.mem_singleton_self _)
      | refused | unreachable => rintro _ ⟨⟩
    case recording savePath release torrentHash refused => exact outcome_ready refused h
    case writing patch audited =>
      split_ifs
      · trivial
      · exact ready_of_isFresh _ (isFresh_proceed origin rest)
    case auditing => exact ready_of_isFresh _ (isFresh_proceed origin rest)

theorem nextPack_ready (rules : Rules P) (store : Store) (answer : Answer P) {request : PackRequest}
    {stage : PackStage P} (h : Ready store.added (.packing request stage)) :
    Ready (store.apply (nextPack rules answer request stage).1).added
      (nextPack rules answer request stage).2 := by
  cases hfails : answer.fails with
  | true =>
    simp only [nextPack, hfails, if_true]
    trivial
  | false =>
    cases stage <;> simp only [nextPack, hfails, Bool.false_eq_true, if_false]
    case resolvingPath | asking | preferring | covering | auditing =>
      repeat' split
      all_goals trivial
    case grabbing savePath candidates prefs release =>
      cases answer.engine with
      | added torrentHash lost => exact ready_recording lost
      | refused | unreachable => rintro _ ⟨⟩
    case recording savePath release torrentHash =>
      split
      · trivial
      · rename_i hash hhash
        exact h hash (Option.filter_eq_some_iff.1 hhash).1

theorem Ready.own (hready : Ready store.added call)
    (h : act rules store call answer = some (store', call')) : Ready store'.added call' := by
  obtain ⟨write, hnext, rfl⟩ := act_eq_some.1 h
  rcases next_cases hnext with ⟨origin, w, rest, stage, rfl, hstep⟩ | ⟨request, stage, rfl, hstep⟩ |
    ⟨hfresh, -⟩
  · have hready' := nextEpisode_ready rules store answer origin rest hready
    rwa [hstep] at hready'
  · have hready' := nextPack_ready rules store answer hready
    rwa [hstep] at hready'
  · exact ready_of_isFresh _ hfresh

/-! ### Where a search ends -/

theorem exists_patched {id : String} {patch : Patch} {v : WantedEpisode}
    (hv : v ∈ (store.apply (.update [id] patch)).rows.rows) (hid : v.id = id) :
    ∃ u ∈ store.rows.rows, v = patch.apply u := by
  obtain ⟨u, hu, rfl⟩ := (Table.mem_update (slot_updated [id] patch)).1 hv
  refine ⟨u, hu, ?_⟩
  have huid : u.id = id := by
    unfold updated at hid
    split_ifs at hid
    · rwa [Patch.id_apply] at hid
    · exact hid
  rw [updated, if_pos (List.contains_iff_mem.2 (List.mem_singleton.2 huid))]

theorem Outcome.not_searching {added : List Added} {id : String} {patch : Patch}
    (h : Outcome added id patch) (u : WantedEpisode) : (patch.apply u).searchStatus ≠ .searching := by
  cases patch <;> first | cases h; done | simp [Patch.apply]

/-- A search that is no longer in flight has left its episode with an outcome. -/
theorem leaves (hattended : attended store call answer = true) (hready : Ready store.added call)
    (h : act rules store call answer = some (store', call')) {id : String}
    (hflight : inFlight call = some id) (hend : inFlight call' ≠ some id) {v : WantedEpisode}
    (hv : v ∈ store'.rows.rows) (hid : v.id = id) : v.searchStatus ≠ .searching := by
  obtain ⟨write, hnext, rfl⟩ := act_eq_some.1 h
  cases call with
  | handling w rest =>
    cases hflight
    simp only [attended, Bool.not_eq_true'] at hattended
    rw [next, hattended, if_neg Bool.false_ne_true] at hnext
    cases hnext
    obtain ⟨u, -, rfl⟩ := exists_patched hv hid
    simp [Patch.apply]
  | processing origin w stage rest =>
    simp only [inFlight] at hflight
    split_ifs at hflight with hstage
    cases hflight
    rw [next, Option.some.injEq] at hnext
    cases hfails : answer.fails with
    | true =>
      simp only [nextEpisode, hfails, if_true, Prod.mk.injEq] at hnext
      obtain ⟨-, rfl⟩ := hnext
      cases origin with
      | bulk => exact absurd rfl hend
      | manual => cases stage <;> simp_all [attended]
    | false =>
      cases stage <;> simp only [nextEpisode, hfails, Bool.false_eq_true, if_false] at hnext
      case starting | auditing => cases hstage
      case findingItem =>
        cases hitem : answer.item with
        | some item =>
          rw [hitem] at hnext
          cases hnext
          exact absurd rfl hend
        | none =>
          rw [hitem] at hnext
          cases hnext
          cases origin with
          | bulk => exact absurd rfl hend
          | manual => simp [attended, hitem] at hattended
      case owning =>
        split_ifs at hnext with hrow <;> cases hnext
        · obtain ⟨u, -, rfl⟩ := exists_patched hv hid
          simp [Patch.apply]
        · exact absurd (List.any_eq_true.2 ⟨v, hv, decide_eq_true hid⟩) hrow
      case writing patch audited =>
        cases hnext
        obtain ⟨u, -, rfl⟩ := exists_patched hv hid
        exact Outcome.not_searching hready u
      case grabbing savePath release =>
        split at hnext <;> cases hnext <;> exact absurd rfl hend
      case checkingOwned | asking | preferring | resolvingPath =>
        cases hnext
        refine absurd ?_ hend
        simp only [inFlight]
        repeat' split
        all_goals simp_all [Stage.isInFlight]
      case recording =>
        cases hnext
        exact absurd rfl hend
  | _ => cases hflight

/-! ### What an attended run keeps -/

variable {ι : Type*}

/-- A row that is being searched has its search in flight, and one that is grabbed has its torrent. -/
structure Tracked (c : Config ι Store (Call P)) (w : WantedEpisode) : Prop where
  searching : w.searchStatus = .searching → ∃ i, inFlight (c.call i) = some w.id
  grabbed : w.searchStatus = .grabbed →
    ∃ title hash, w.torrentHash = some hash ∧ ⟨w.id, title, hash⟩ ∈ c.store.added
  settled : w.searchStatus ≠ .pendingApproval

structure Kept (c : Config ι Store (Call P)) : Prop where
  tracked : ∀ w ∈ c.store.rows.rows, Tracked c w
  ready : ∀ i, Ready c.store.added (c.call i)

/-- A patch that says a torrent was grabbed has been handed it. -/
theorem grabbed_of_patches {ids : List String} {patch : Patch} (hpatches : Patches call ids patch)
    (hready : Ready store.added call) {id : String} (hid : id ∈ ids) (u : WantedEpisode)
    (hgrabbed : (patch.apply u).searchStatus = .grabbed) :
    ∃ title hash, (patch.apply u).torrentHash = some hash ∧ ⟨id, title, hash⟩ ∈ store.added := by
  cases patch with
  | grabbed now evaluationId downloadUrl title hash intakeRuleId =>
    refine ⟨title, hash, rfl, ?_⟩
    cases hpatches with
    | write origin w rest patch audited =>
      rw [List.mem_singleton.1 hid]
      exact hready
    | cover request patch => exact hready id hid
  | _ => cases hgrabbed

theorem starting_of_patches {ids : List String} {patch : Patch} (hpatches : Patches call ids patch)
    (hready : Ready store.added call) {u : WantedEpisode} (hid : u.id ∈ ids)
    (hsearching : (patch.apply u).searchStatus = .searching) :
    ∃ origin w rest, call = .processing origin w .starting rest ∧ w.id = u.id := by
  cases hpatches with
  | start origin w rest => exact ⟨origin, w, rest, rfl, (List.mem_singleton.1 hid).symm⟩
  | write => exact absurd hsearching (Outcome.not_searching hready u)
  | cover => exact absurd hsearching (Outcome.not_searching (hready _ hid) u)
  | own | handle | release => cases hsearching

theorem settled_apply (patch : Patch) (u : WantedEpisode) :
    (patch.apply u).searchStatus ≠ .pendingApproval := by
  cases patch <;> simp [Patch.apply]

theorem row_cases (hattended : attended store call answer = true)
    (hnext : next rules store answer call = some (write, call'))
    (hw : w ∈ (store.apply write).rows.rows) : w ∈ store.rows.rows ∨
      (∃ ids patch u, Patches call ids patch ∧ write = .update ids patch ∧ u.id ∈ ids ∧
        w = patch.apply u) ∨ isOpen w.searchStatus = true := by
  have hwrites := next_writes hnext
  cases rowStep hw with
  | kept _ hw => exact .inl hw
  | patched ids patch hu hid =>
    cases hwrites with
    | update hpatches => exact .inr (.inl ⟨ids, patch, _, hpatches, rfl, hid, rfl⟩)
  | reset => exact .inr (.inr rfl)
  | created new hw =>
    cases hwrites with
    | create fails new =>
      have hrow := List.all_eq_true.1 hattended w hw
      rw [Bool.or_eq_true, List.contains_iff_mem] at hrow
      exact hrow.imp_right .inr

variable [DecidableEq ι]

theorem Kept.act {c : Config ι Store (Call P)} {i : ι} (hkept : Kept c)
    (hattended : attended c.store (c.call i) answer = true)
    (h : act rules c.store (c.call i) answer = some (store', call')) :
    Kept ⟨store', Function.update c.call i call'⟩ := by
  obtain ⟨write, hnext, rfl⟩ := act_eq_some.1 h
  have hsub := added_subset_apply c.store write
  refine ⟨fun w hw => ?_, fun j => ?_⟩ <;> dsimp only at *
  · have hrow := row_cases hattended hnext hw
    refine ⟨fun hsearching => ?_, fun hgrabbed => ?_, ?_⟩
    · rcases hrow with hold | ⟨ids, patch, u, hpatches, rfl, hid, rfl⟩ | hopen
      · obtain ⟨j, hj⟩ := (hkept.tracked w hold).searching hsearching
        by_cases hji : j = i
        · refine ⟨i, ?_⟩
          dsimp only
          rw [Function.update_self]
          by_contra hend
          exact leaves hattended (hkept.ready i) h (hji ▸ hj) hend hw rfl hsearching
        · refine ⟨j, ?_⟩
          dsimp only
          rw [Function.update_of_ne hji]
          exact hj
      · obtain ⟨origin, v, rest, hcall, hv⟩ := starting_of_patches hpatches (hkept.ready i) hid hsearching
        refine ⟨i, ?_⟩
        dsimp only
        rw [Function.update_self, Patch.id_apply, ← hv]
        rw [hcall, next, Option.some.injEq] at hnext
        cases hfails : answer.fails <;> simp [nextEpisode, hfails] at hnext
        rw [← hnext.2]
        rfl
      · rw [hsearching] at hopen
        cases hopen
    · rcases hrow with hold | ⟨ids, patch, u, hpatches, rfl, hid, rfl⟩ | hopen
      · obtain ⟨title, hash, hhash, hadded⟩ := (hkept.tracked w hold).grabbed hgrabbed
        exact ⟨title, hash, hhash, hsub hadded⟩
      · rw [Patch.id_apply]
        exact grabbed_of_patches hpatches (hkept.ready i) hid u hgrabbed
      · rw [hgrabbed] at hopen
        cases hopen
    · rcases hrow with hold | ⟨ids, patch, u, -, -, -, rfl⟩ | hopen
      · exact (hkept.tracked w hold).settled
      · exact settled_apply patch u
      · intro hpending
        rw [hpending] at hopen
        cases hopen
  · by_cases hj : j = i
    · rw [hj, Function.update_self]
      exact (hkept.ready i).own h
    · rw [Function.update_of_ne hj]
      exact (hkept.ready j).mono hsub

/-- A missing episode that can be searched again, or whose grab can be given back. -/
def Findable (store : Store) (w : WantedEpisode) : Prop :=
  w.searchStatus ∈ [SearchStatus.idle, .noResults, .failed] ∨
    w.searchStatus = .grabbed ∧
      ∃ title hash, w.torrentHash = some hash ∧ ⟨w.id, title, hash⟩ ∈ store.added

/-- A series that is scanned, and an episode of it that is searched on request. -/
def requested : Config (Fin 2) Store (Call Unit) where
  store := { rows := ⟨[], List.nodup_nil⟩, added := [] }
  call i := if i.val = 0 then .scanSeries Rescan.oneEpisode (fun _ => false) "wl1"
    else .searchEpisode "tt0749451"

theorem requested_entry (i : Fin 2) : isEntry (requested.call i) = true := by
  unfold requested
  dsimp only
  split_ifs <;> rfl

/-- The first torrent for the episode, in an engine that takes it. -/
def found : Answer Unit where
  item := some { id := "wl1", title := "The Wire", titleAliases := [] }
  savePath := { path := some "/tv/The Wire", intakeRuleId := none }
  runs := [{ candidates := [episodeRelease], queried := 1, failed := 0 }]
  prefs := [()]
  engine := .added "c0ffee" false

end UltraTorrent.Acquisition.StrandedEpisodes
