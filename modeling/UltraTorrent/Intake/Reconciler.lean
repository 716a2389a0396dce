import UltraTorrent.Intake.Pipeline
import UltraTorrent.Torrents.Listing

/-! The hourly reconciler closes a seeding intake whose torrent is gone, as far as one page of the
default engine's listing tells. -/
namespace UltraTorrent.Intake.Reconciler

open Library Library.EcmaScript Library.Interleaving Torrents.Listing States Intake.Jobs Pipeline

variable (rt : Runtime) (sort : TorrentSort) (engines : Engines)

/-- The hashes on the page, `none` when the listing could not be read. -/
def liveHashes : Option (List String) :=
  (list rt sort engines { pageSize := some 5000 }).map fun listed =>
    (listed.items.map fun t => rt.toLowerCase t.hash).filter (· ≠ "")

def goneMessage : String := "Archived: the torrent is no longer in the engine"

/-- `none` when there is no such job, or the state machine refuses. -/
def transition (db : Db) (jobId : String) (target : IntakeState) (message : Option String) :
    Option Db := do
  let job ← db.jobs.find jobId
  if canTransition job.state target then db.apply (.move job target message) else none

/-- A job without a hash is left alone. -/
def isSpared (live : List String) (job : JobRow) : Bool :=
  job.torrentHash.all fun hash => hash = "" || live.contains (rt.toLowerCase hash)

/-- A refused transition is passed over. -/
def archiveGone (live : List String) : List JobRow → Db × ℕ → Db × ℕ
  | [], done => done
  | job :: rest, (db, archived) =>
    if isSpared rt live job then archiveGone live rest (db, archived)
    else match transition db job.id .archived (some goneMessage) with
      | some db' => archiveGone live rest (db', archived + 1)
      | none => archiveGone live rest (db, archived)

def reconcile (running : Bool) (db : Db) : Db × ℕ :=
  let jobs := db.jobs.rows.filter (·.state = .seeding)
  if running || jobs.isEmpty then (db, 0)
  else match liveHashes rt sort engines with
    | none => (db, 0)
    | some live => archiveGone rt live jobs (db, 0)

/-! ### What should hold -/

/-- An engine that is configured holds the torrent, reachable or not. -/
def Held (hash : String) : Prop :=
  ∃ row ∈ engines.rows, ∃ t ∈ engines.torrents row.id, rt.toLowerCase t.hash = rt.toLowerCase hash

/-- A seeding intake is archived only if its torrent is gone. -/
def ArchivesOnlyGone (running : Bool) (db : Db) : Prop :=
  ∀ job ∈ db.jobs.rows, job.state = .seeding →
    (reconcile rt sort engines running db).1.state job.id = some .archived →
      ∀ hash ∈ job.torrentHash, ¬ Held rt engines hash

def Shows (torrents : List NormalizedTorrent) (hash : String) : Prop :=
  rt.toLowerCase hash ≠ "" ∧ ∃ t ∈ torrents, rt.toLowerCase t.hash = rt.toLowerCase hash

/-- Where the default engine answers at all, the 500 newest torrents of its answer are enough to
find every seeding intake's torrent that some engine holds. -/
def AllHeldAreShown (db : Db) : Prop :=
  ∀ torrents ∈ newestFirst rt sort engines, ∀ job ∈ db.jobs.rows, job.state = .seeding →
    ∀ hash ∈ job.torrentHash, hash ≠ "" → Held rt engines hash → Shows rt (torrents.take 500) hash

variable {rt sort engines} {live : List String} {db db' : Db} {job : JobRow}

theorem liveHashes_eq : liveHashes rt sort engines = (newestFirst rt sort engines).map fun torrents =>
    ((torrents.take 500).map fun t => rt.toLowerCase t.hash).filter (· ≠ "") := by
  have hitems := congrArg
    (Option.map fun items => (items.map fun t => rt.toLowerCase t.hash).filter (· ≠ ""))
    (items_list rt sort engines 5000)
  rw [Option.map_map, Option.map_map] at hitems
  exact hitems

theorem mem_live {torrents : List NormalizedTorrent} {hash : String} :
    rt.toLowerCase hash ∈ (torrents.map fun t => rt.toLowerCase t.hash).filter (· ≠ "") ↔
      Shows rt torrents hash := by
  simp [Shows, and_comm]

theorem isSpared_eq_false {torrents : List NormalizedTorrent} :
    isSpared rt ((torrents.map fun t => rt.toLowerCase t.hash).filter (· ≠ "")) job = false ↔
      ∃ hash ∈ job.torrentHash, hash ≠ "" ∧ ¬ Shows rt torrents hash := by
  cases hhash : job.torrentHash with
  | none => simp [isSpared, hhash]
  | some hash =>
    rw [isSpared, hhash, Option.all_some, Bool.or_eq_false_iff, ← Bool.not_eq_true (List.contains _ _),
      List.contains_iff_mem, mem_live]
    simp

/-! ### One job after the other -/

theorem transition_archived (hjob : db.jobs.find job.id = some job) (hstate : job.state = .seeding) :
    transition db job.id .archived (some goneMessage) =
      db.apply (.move job .archived (some goneMessage)) := by
  have hlegal : canTransition job.state .archived = true := by
    rw [hstate]
    rfl
  simp [transition, hjob, hlegal]

theorem archiveGone_cons_spared {rest : List JobRow} {done : Db × ℕ}
    (h : isSpared rt live job = true) :
    archiveGone rt live (job :: rest) done = archiveGone rt live rest done := by
  rw [archiveGone, if_pos h]

/-- One more intake is archived, and the other rows are as they were. -/
theorem archiveGone_cons_gone (rest : List JobRow) (n : ℕ) (h : isSpared rt live job = false)
    (hjob : db.jobs.find job.id = some job) (hstate : job.state = .seeding) :
    ∃ db', db.apply (.move job .archived (some goneMessage)) = some db' ∧
      archiveGone rt live (job :: rest) (db, n) = archiveGone rt live rest (db', n + 1) := by
  have hsome : (db.apply (.move job .archived (some goneMessage))).isSome = true := by
    simp [Db.apply, hjob]
  obtain ⟨db', hdb⟩ := Option.isSome_iff_exists.1 hsome
  refine ⟨db', hdb, ?_⟩
  rw [archiveGone, transition_archived hjob hstate, hdb]
  simp [h]

theorem find_of_move {n : String} (hdb : db.apply (.move job .archived (some goneMessage)) = some db')
    (hne : n ≠ job.id) : db'.jobs.find n = db.jobs.find n := by
  obtain ⟨_, _, rfl⟩ := Option.map_eq_some_iff.1 hdb
  exact Table.find_updateAt_of_ne (f := moveRow job .archived (some goneMessage)) (fun _ => rfl) hne

theorem found_of_move {rest : List JobRow} (hfresh : job.id ∉ rest.map (·.id))
    (hdb : db.apply (.move job .archived (some goneMessage)) = some db')
    (hrest : ∀ j ∈ rest, db.jobs.find j.id = some j ∧ j.state = .seeding) :
    ∀ j ∈ rest, db'.jobs.find j.id = some j ∧ j.state = .seeding := by
  intro j hj
  have hne : j.id ≠ job.id := fun heq => hfresh (List.mem_map.2 ⟨j, hj, heq⟩)
  rw [find_of_move hdb hne]
  exact hrest j hj

theorem found_of_mem_seeding :
    ∀ j ∈ db.jobs.rows.filter (·.state = .seeding), db.jobs.find j.id = some j ∧ j.state = .seeding := by
  intro j hj
  obtain ⟨hj, hseeding⟩ := List.mem_filter.1 hj
  exact ⟨Table.find_key hj, of_decide_eq_true hseeding⟩

theorem state_archiveGone {jobs : List JobRow} {n : ℕ} (hnodup : (jobs.map (·.id)).Nodup)
    (hjobs : ∀ job ∈ jobs, db.jobs.find job.id = some job ∧ job.state = .seeding) (jobId : String) :
    (archiveGone rt live jobs (db, n)).1.state jobId =
      if ∃ job ∈ jobs, job.id = jobId ∧ isSpared rt live job = false then some .archived
      else db.state jobId := by
  induction jobs generalizing db n with
  | nil => simp [archiveGone]
  | cons job rest ih =>
    obtain ⟨hfresh, hnodup'⟩ := List.nodup_cons.1 hnodup
    obtain ⟨⟨hjob, hstate⟩, hrest⟩ := List.forall_mem_cons.1 hjobs
    cases hspared : isSpared rt live job with
    | true =>
      rw [archiveGone_cons_spared hspared, ih hnodup' hrest]
      simp [hspared]
    | false =>
      obtain ⟨db', hdb, hgone⟩ := archiveGone_cons_gone rest n hspared hjob hstate
      have hmoved : db'.state jobId = if job.id = jobId then some .archived else db.state jobId := by
        rw [state_apply hdb]
        by_cases hid : job.id = jobId <;> simp [Write.happenings, states, hid]
      rw [hgone, ih hnodup' (found_of_move hfresh hdb hrest), hmoved]
      by_cases hid : job.id = jobId <;> simp [hid, hspared]

theorem state_reconcile {torrents : List NormalizedTorrent}
    (hnewest : newestFirst rt sort engines = some torrents) (hmem : job ∈ db.jobs.rows)
    (hstate : job.state = .seeding) :
    (reconcile rt sort engines false db).1.state job.id = some .archived ↔
      ∃ hash ∈ job.torrentHash, hash ≠ "" ∧ ¬ Shows rt (torrents.take 500) hash := by
  have hfilter : job ∈ db.jobs.rows.filter (·.state = .seeding) :=
    List.mem_filter.2 ⟨hmem, decide_eq_true hstate⟩
  have hbefore : db.state job.id = some .seeding := by
    rw [Db.state, Table.find_key hmem, Option.map_some, hstate]
  have hempty : (db.jobs.rows.filter (·.state = .seeding)).isEmpty = false :=
    List.isEmpty_eq_false_iff.2 (List.ne_nil_of_mem hfilter)
  rw [reconcile, liveHashes_eq, hnewest, ← isSpared_eq_false]
  simp only [Bool.false_or, hempty, Bool.false_eq_true, if_false, Option.map_some]
  rw [state_archiveGone (db.jobs.nodup.sublist (List.filter_sublist.map _)) found_of_mem_seeding,
    hbefore]
  constructor
  · intro h
    split_ifs at h with hex
    · obtain ⟨j, hj, hid, hspared⟩ := hex
      rw [← db.jobs.eq_of_key (List.mem_filter.1 hj).1 hmem hid]
      exact hspared
    · cases h
  · intro h
    rw [if_pos ⟨job, hfilter, rfl, h⟩]

theorem reconcile_of_unread (running : Bool) (h : newestFirst rt sort engines = none) :
    reconcile rt sort engines running db = (db, 0) := by
  rw [reconcile, liveHashes_eq, h]
  split_ifs <;> rfl

/-- An intake is archived as gone only when it is gone, exactly if no torrent that some engine
holds falls off the page. -/
theorem archivesOnlyGone_iff (running : Bool) (db : Db) :
    ArchivesOnlyGone rt sort engines running db ↔
      running = true ∨ AllHeldAreShown rt sort engines db := by
  -- nothing is written by a call that finds another one running, or that cannot read the listing
  have hidle : (reconcile rt sort engines running db = (db, 0)) →
      ArchivesOnlyGone rt sort engines running db := by
    intro hsame job hmem hstate harchived
    rw [hsame, Db.state, Table.find_key hmem, Option.map_some, hstate] at harchived
    cases harchived
  cases running with
  | true => exact iff_of_true (hidle rfl) (.inl rfl)
  | false =>
    cases hnewest : newestFirst rt sort engines with
    | none =>
      refine iff_of_true (hidle (reconcile_of_unread false hnewest)) (.inr ?_)
      rintro torrents htorrents
      rw [hnewest] at htorrents
      cases htorrents
    | some torrents =>
      rw [AllHeldAreShown, hnewest]
      constructor
      · refine fun honly => .inr ?_
        rintro _ ⟨⟩ job hmem hstate hash hhash hnonempty hheld
        by_contra hshows
        exact honly job hmem hstate
          ((state_reconcile hnewest hmem hstate).2 ⟨hash, hhash, hnonempty, hshows⟩) hash hhash hheld
      · rintro (hrunning | hshown) job hmem hstate harchived hash hhash hheld
        · cases hrunning
        · obtain ⟨hash', hhash', hnonempty, hshows⟩ :=
            (state_reconcile hnewest hmem hstate).1 harchived
          obtain rfl := Option.mem_unique hhash hhash'
          exact hshows (hshown torrents rfl job hmem hstate hash hhash hnonempty hheld)

/-! ### A second engine -/

def torrentOf (hash : String) : NormalizedTorrent where
  hash := hash
  name := "Show.S01E01"
  state := "seeding"
  label := none
  addedAt := some "2024-01-01T00:00:00.000Z"
  others := []

/-- Both engines are up and say what they hold. -/
def twoEngines : Engines where
  rows := [⟨"default", true, true⟩, ⟨"second", true, false⟩]
  providers := [⟨"default", some [torrentOf "aa"]⟩, ⟨"second", some [torrentOf "bb"]⟩]
  torrents id := if id = "second" then [torrentOf "bb"] else [torrentOf "aa"]

def seedingJob : JobRow where
  id := "job"
  profileId := "profile"
  sourcePath := "/downloads/Show.S01E01"
  torrentHash := some "bb"
  engineId := some "second"
  idempotencyKey := "second:bb:/downloads/Show.S01E01"
  state := .seeding
  resumeState := none
  lastError := none
  attempts := 0

def oneSeeding : Db where
  jobs := ⟨[seedingJob], List.nodup_singleton _⟩
  events := []
  log := []

def stableSort : TorrentSort := fun cmp torrents => torrents.mergeSort fun a b => cmp a b ≤ 0

theorem live_torrent_archived :
    ¬ ArchivesOnlyGone .ascii stableSort twoEngines false oneSeeding := by
  intro honly
  have harchived : (reconcile .ascii stableSort twoEngines false oneSeeding).1.state "job" =
      some .archived := by
    decide +kernel
  refine honly seedingJob (List.mem_singleton_self _) rfl harchived "bb" rfl ?_
  exact ⟨⟨"second", true, false⟩, by simp [twoEngines], torrentOf "bb",
    List.mem_singleton_self _, rfl⟩

/-! ### One database call at a time -/

variable {ι : Type*} [DecidableEq ι] {i : ι} {calls : ι → Call} {start : Config ι Db Call}

theorem apply_nothing (db : Db) : db.apply .nothing = some db := by
  simp [Db.apply, Write.rows, Write.happenings]

theorem run_next {call : Call} (answer : Answer) (hover : isOver call = false)
    (happly : db.apply (writeOf call answer) = some db')
    (h : Run (act rt) (fun _ _ => True) start ⟨db, Function.update calls i call⟩) :
    Run (act rt) (fun _ _ => True) start
      ⟨db', Function.update calls i (follow rt db call answer)⟩ := by
  refine .tail i answer h trivial (step_eq_some.2 ⟨db', follow rt db call answer, ?_, ?_⟩)
  · simp [act, hover, happly]
  · rw [Function.update_idem]

theorem archiveNext_cons_spared {rest : List JobRow} (h : isSpared rt live job = true) :
    archiveNext rt live (job :: rest) = archiveNext rt live rest := by
  rw [archiveNext]
  exact if_pos h

theorem archiveNext_cons_gone {rest : List JobRow} (h : isSpared rt live job = false) :
    archiveNext rt live (job :: rest) =
      .transition job.id .archived (some goneMessage) (.archiving live rest) := by
  rw [archiveNext]
  exact if_neg (by simpa [isSpared] using h)

theorem run_archiveNext {jobs : List JobRow} {n : ℕ} (hnodup : (jobs.map (·.id)).Nodup)
    (hjobs : ∀ job ∈ jobs, db.jobs.find job.id = some job ∧ job.state = .seeding)
    (h : Run (act rt) (fun _ _ => True) start
      ⟨db, Function.update calls i (archiveNext rt live jobs)⟩) :
    Run (act rt) (fun _ _ => True) start
      ⟨(archiveGone rt live jobs (db, n)).1, Function.update calls i .returned⟩ := by
  induction jobs generalizing db n with
  | nil => exact h
  | cons job rest ih =>
    obtain ⟨hfresh, hnodup'⟩ := List.nodup_cons.1 hnodup
    obtain ⟨⟨hjob, hstate⟩, hrest⟩ := List.forall_mem_cons.1 hjobs
    cases hspared : isSpared rt live job with
    | true =>
      rw [archiveGone_cons_spared hspared]
      rw [archiveNext_cons_spared hspared] at h
      exact ih hnodup' hrest h
    | false =>
      obtain ⟨db', hdb, hgone⟩ := archiveGone_cons_gone rest n hspared hjob hstate
      have hcheck : check rt db job.id .archived (some goneMessage) (.archiving live rest) =
          .writing job .archived (some goneMessage) (.archiving live rest) := by
        have hlegal : canTransition job.state .archived = true := by
          rw [hstate]
          rfl
        simp [check, hjob, hlegal]
      rw [archiveNext_cons_gone hspared] at h
      have hread := run_next {} rfl (apply_nothing db) h
      rw [follow, hcheck] at hread
      rw [hgone]
      exact ih hnodup' (found_of_move hfresh hdb hrest) (run_next {} rfl hdb hread)

/-- A reconciliation that no other call comes between leaves the tables as `reconcile` does. -/
theorem run_reconcile (hcall : calls i = .reconcile) :
    Run (act rt) (fun _ _ => True) ⟨db, calls⟩
      ⟨(reconcile rt sort engines false db).1, Function.update calls i .returned⟩ := by
  have hrefl : Run (act rt) (fun _ _ => True) ⟨db, calls⟩
      ⟨db, Function.update calls i .reconcile⟩ := by
    rw [← hcall, Function.update_eq_self]
    exact .refl
  have hread := run_next {} rfl (apply_nothing db) hrefl
  have hsurvey := run_next { live := liveHashes rt sort engines } rfl
    (apply_nothing db) hread
  rw [follow, follow] at hsurvey
  rw [reconcile]
  cases hjobs : db.jobs.rows.filter (·.state = .seeding) with
  | nil =>
    rw [hjobs] at hsurvey
    cases hlive : liveHashes rt sort engines <;> rw [hlive] at hsurvey <;> exact hsurvey
  | cons job rest =>
    cases hlive : liveHashes rt sort engines with
    | none =>
      rw [hlive] at hsurvey
      exact hsurvey
    | some live =>
      rw [hlive] at hsurvey
      simp only [Bool.false_or, List.isEmpty_cons, Bool.false_eq_true, if_false]
      rw [← hjobs]
      exact run_archiveNext (db.jobs.nodup.sublist (List.filter_sublist.map _))
        found_of_mem_seeding hsurvey

theorem run_oneSeeding : Run (act .ascii) (fun _ _ => True) ⟨oneSeeding, fun _ : Fin 1 => .reconcile⟩
    ⟨(reconcile .ascii stableSort twoEngines false oneSeeding).1, Function.update (fun _ => .reconcile) 0 .returned⟩ :=
  run_reconcile rfl

end UltraTorrent.Intake.Reconciler
