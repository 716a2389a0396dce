import UltraTorrent.Library.EcmaScript
import UltraTorrent.Library.Interleaving
import UltraTorrent.Library.Table

/-! The recommendations of the media intelligence, and the releases that are found for them. Sweeps
reconcile them, a person has one of them verified, and verifications age out; any database call may
fail, and calls interleave. -/
namespace UltraTorrent.MediaIntelligence.UpgradeCandidates

open Library Library.EcmaScript Library.Interleaving

variable {E : Type}

inductive VerificationStatus where
  | notRequired
  | notChecked
  | checking
  | verified
  | noMatch
  | failed
  | stale
  deriving DecidableEq

inductive RecommendationStatus where
  | active
  | verified
  | invalidated
  | satisfied
  deriving DecidableEq

inductive InvalidationReason where
  | findingResolved
  | evidenceChanged
  deriving DecidableEq

/-- A release, with the evidence its recommendation had when it was searched for. -/
structure Candidate (E : Type) where
  releaseName : String
  against : Option E
  deriving DecidableEq

structure Row (E : Type) where
  id : String
  findingId : String
  entityType : String
  entityId : String
  type : String
  status : RecommendationStatus
  confidence : String
  evidence : E
  verification : VerificationStatus
  verifiedAt : Option Instant
  candidate : Option (Candidate E)
  invalidationReason : Option InvalidationReason
  invalidatedAt : Option Instant
  evaluatedAt : Instant

abbrev Store (E : Type) := Table (Row E) (·.id)

/-- What `evaluateRecommendation` makes of a finding. -/
structure Draft (E : Type) where
  type : String
  confidence : String
  evidence : E
  verification : VerificationStatus

structure Finding (E : Type) where
  id : String
  resolved : Bool
  draft : Option (Draft E)

/-- One sweep over an entity. -/
structure Sweep (E : Type) where
  entityType : String
  entityId : String
  findings : List (Finding E)
  now : Instant

inductive SearchOutcome where
  | threw
  | failed
  | noMatch
  /-- The best candidate, and the others. -/
  | found (best : String) (others : List String)
  deriving DecidableEq

/-- What a verification has to store. -/
inductive Result (E : Type) where
  | nothing (failed : Bool)
  | found (candidate : Candidate E)

inductive Call (E : Type) where
  | reconcile (sweep : Sweep E)
  | upserting (sweep : Sweep E) (existing : List (Row E)) (todo : List (Finding E))
      (produced : List (String × String))
  | satisfying (sweep : Sweep E) (existing : List (Row E)) (produced : List (String × String))
  | invalidating (sweep : Sweep E) (existing : List (Row E)) (produced : List (String × String))
  | verify (recommendationId : String) (now : Instant)
  | marking (id : String) (now : Instant)
  | searching (id : String) (now : Instant)
  | persisting (id : String) (now : Instant) (result : Result E)
  | persistingFailed (id : String) (now : Instant)
  | expireStaleVerifications (now : Instant)
  | returned

structure Answer where
  fails : Bool := false
  /-- The key of a row that is created. -/
  newId : String := ""
  search : SearchOutcome := .noMatch
  deriving DecidableEq

/-! ### Reconciling -/

/-- The next finding with something to recommend. -/
def upcoming : List (Finding E) → Option (String × Draft E × List (Finding E))
  | [] => none
  | finding :: todo =>
    match if finding.resolved then none else finding.draft with
    | some draft => some (finding.id, draft, todo)
    | none => upcoming todo

def isFor (findingId type : String) (row : Row E) : Bool :=
  row.findingId = findingId ∧ row.type = type

variable (stringify : E → String)

/-- Whether the evidence a verification rests on has moved, as far as the row that was read says. -/
def resetVerification (existing : List (Row E)) (findingId : String) (draft : Draft E) : Bool :=
  (existing.find? (isFor findingId draft.type)).any fun prior =>
    stringify prior.evidence ≠ stringify draft.evidence ∧ prior.verification = .verified

/-- A reset sends `candidate: undefined`, which leaves the column alone. -/
def Row.rederive (row : Row E) (draft : Draft E) (reset : Bool) (now : Instant) : Row E :=
  { row with
    confidence := draft.confidence
    evidence := draft.evidence
    status := .active
    invalidationReason := none
    invalidatedAt := none
    evaluatedAt := now
    verification := if reset then .notChecked else row.verification
    verifiedAt := if reset then none else row.verifiedAt }

theorem rederive_id (draft : Draft E) (reset : Bool) (now : Instant) (row : Row E) :
    (row.rederive draft reset now).id = row.id := rfl

def created (sweep : Sweep E) (findingId : String) (draft : Draft E) (id : String) : Row E where
  id := id
  findingId := findingId
  entityType := sweep.entityType
  entityId := sweep.entityId
  type := draft.type
  status := .active
  confidence := draft.confidence
  evidence := draft.evidence
  verification := draft.verification
  verifiedAt := none
  candidate := none
  invalidationReason := none
  invalidatedAt := none
  evaluatedAt := sweep.now

/-- None when the new key is taken. -/
def upsert (store : Store E) (sweep : Sweep E) (existing : List (Row E)) (findingId : String)
    (draft : Draft E) (newId : String) : Option (Store E) :=
  match store.rows.find? (isFor findingId draft.type) with
  | some row =>
    let reset := resetVerification stringify existing findingId draft
    some (store.updateAt row.id (·.rederive draft reset sweep.now)
      (rederive_id draft reset sweep.now))
  | none => store.insert [created sweep findingId draft newId]

def isStale (produced : List (String × String)) (row : Row E) : Bool :=
  !produced.contains (row.findingId, row.type) && row.status = .active

def isResolved (sweep : Sweep E) (row : Row E) : Bool :=
  sweep.findings.any fun finding => finding.resolved && finding.id = row.findingId

def Row.close (row : Row E) (ids : List String) (status : RecommendationStatus)
    (reason : InvalidationReason) (now : Instant) : Row E :=
  if ids.contains row.id then
    { row with status := status, invalidationReason := some reason, invalidatedAt := some now }
  else row

theorem close_id (row : Row E) (ids : List String) (status : RecommendationStatus)
    (reason : InvalidationReason) (now : Instant) : (row.close ids status reason now).id = row.id := by
  unfold Row.close
  split_ifs <;> rfl

/-- Closes the rows among `ids`. -/
def close (store : Store E) (ids : List String) (status : RecommendationStatus)
    (reason : InvalidationReason) (now : Instant) : Store E :=
  store.update (·.close ids status reason now) fun row => close_id row ids status reason now

/-! ### Verifying -/

def freshnessMs : ℤ := 12 * 3600000

/-- Without a candidate `candidate: undefined` is sent. -/
def Row.persist (row : Row E) (result : Result E) (now : Instant) : Row E :=
  match result with
  | .nothing failed =>
    { row with verification := if failed then .failed else .noMatch, verifiedAt := none }
  | .found candidate =>
    { row with
      verification := .verified, verifiedAt := some now, candidate := some candidate
      confidence := "high" }

theorem mark_id (row : Row E) : { row with verification := .checking }.id = row.id := rfl

theorem persist_id (result : Result E) (now : Instant) (row : Row E) :
    (row.persist result now).id = row.id := by
  cases result <;> rfl

def Row.expire (row : Row E) (now : Instant) : Row E :=
  if row.verification = .verified ∧ row.verifiedAt.any (· < now - freshnessMs)
  then { row with verification := .stale } else row

theorem expire_id (now : Instant) (row : Row E) : (row.expire now).id = row.id := by
  unfold Row.expire
  split_ifs <;> rfl

/-- One action of a call; `none` when it has returned. -/
def act (store : Store E) (call : Call E) (answer : Answer) : Option (Store E × Call E) :=
  match call with
  | .returned => none
  | .reconcile sweep =>
    let existing := store.rows.filter fun row =>
      row.entityType = sweep.entityType ∧ row.entityId = sweep.entityId
    some (store, if answer.fails then .returned else .upserting sweep existing sweep.findings [])
  | .upserting sweep existing todo produced =>
    match upcoming todo with
    | none => some (store, .satisfying sweep existing produced)
    | some (findingId, draft, todo) =>
      if answer.fails then some (store, .returned)
      else match upsert stringify store sweep existing findingId draft answer.newId with
        | none => some (store, .returned)
        | some store' =>
          some (store', .upserting sweep existing todo ((findingId, draft.type) :: produced))
  | .satisfying sweep existing produced =>
    let satisfied := existing.filter fun row => isStale produced row && isResolved sweep row
    if answer.fails then some (store, .returned)
    else some (close store (satisfied.map (·.id)) .satisfied .findingResolved sweep.now,
      .invalidating sweep existing produced)
  | .invalidating sweep existing produced =>
    let invalidated := existing.filter fun row => isStale produced row && !isResolved sweep row
    if answer.fails then some (store, .returned)
    else some (close store (invalidated.map (·.id)) .invalidated .evidenceChanged sweep.now, .returned)
  | .verify recommendationId now =>
    match store.find recommendationId with
    | none => some (store, .returned)
    | some row =>
      some (store, if answer.fails ∨ row.type ≠ "SEARCH_FOR_QUALITY_UPGRADE" then .returned
        else .marking recommendationId now)
  | .marking id now =>
    if answer.fails then some (store, .returned)
    else some (store.updateAt id (fun row => { row with verification := .checking }) mark_id,
      .searching id now)
  | .searching id now =>
    some (store, match answer.search with
      | .threw => .persistingFailed id now
      | .failed => .persisting id now (.nothing true)
      | .noMatch => .persisting id now (.nothing false)
      | .found best _ => .persisting id now (.found
          { releaseName := best, against := (store.find id).map (·.evidence) }))
  | .persisting id now result =>
    if answer.fails then some (store, .persistingFailed id now)
    else some (store.updateAt id (·.persist result now) (persist_id result now), .returned)
  | .persistingFailed id now =>
    if answer.fails then some (store, .returned)
    else some (store.updateAt id (·.persist (.nothing true) now) (persist_id _ now), .returned)
  | .expireStaleVerifications now =>
    if answer.fails then some (store, .returned)
    else some (store.update (·.expire now) (expire_id now), .returned)

/-! ### Backed candidates -/

/-- A candidate stands in a row whose verification found it, against the evidence of the row. -/
def Backed (row : Row E) : Prop :=
  ∀ candidate, row.candidate = some candidate →
    (row.verification = .verified ∨ row.verification = .stale ∨ row.verification = .checking) ∧
      candidate.against = some row.evidence

def Sound (store : Store E) : Prop := ∀ row ∈ store.rows, Backed row

variable {store store' : Store E} {call call' : Call E} {answer : Answer} {row : Row E}

theorem backed_of_none (h : row.candidate = none) : Backed row := fun _ hc => by
  rw [h] at hc
  cases hc

/-- A change of one row. -/
theorem sound_updateAt_iff {id : String} {f : Row E → Row E} (hf : ∀ row, (f row).id = row.id)
    (h : Sound store) :
    Sound (store.updateAt id f hf) ↔ ∀ row, store.find id = some row → Backed (f row) := by
  constructor
  · intro hsound row hrow
    have hfind : (store.updateAt id f hf).find id = some (f row) := by
      rw [Table.find_updateAt_self, hrow, Option.map_some]
    exact hsound _ (Table.find_eq_some.1 hfind).1
  · intro hbacked row hrow
    rcases Table.mem_updateAt hf hrow with hold | ⟨before, hmem, hid, rfl⟩
    · exact h row hold
    · exact hbacked before (Table.find_eq_some.2 ⟨hmem, hid⟩)

theorem sound_update {f : Row E → Row E} (hf : ∀ row, (f row).id = row.id) (h : Sound store)
    (hbacked : ∀ row, Backed row → Backed (f row)) : Sound (store.update f hf) := by
  intro row hrow
  obtain ⟨before, hmem, rfl⟩ := (Table.mem_update hf).1 hrow
  exact hbacked before (h before hmem)

theorem backed_close (ids : List String) (status : RecommendationStatus) (reason : InvalidationReason)
    (now : Instant) (h : Backed row) : Backed (row.close ids status reason now) := by
  unfold Row.close
  split_ifs <;> exact h

theorem backed_expire (now : Instant) (h : Backed row) : Backed (row.expire now) := by
  unfold Row.expire
  split_ifs
  · exact fun candidate hc => ⟨.inr (.inl rfl), (h candidate hc).2⟩
  · exact h

theorem backed_checking (h : Backed row) : Backed { row with verification := .checking } :=
  fun candidate hc => ⟨.inr (.inr rfl), (h candidate hc).2⟩

theorem backed_rederive_iff {draft : Draft E} {reset : Bool} (now : Instant) (h : Backed row) :
    Backed (row.rederive draft reset now) ↔
      row.candidate = none ∨ row.evidence = draft.evidence ∧ reset = false := by
  cases hc : row.candidate with
  | none => exact iff_of_true (backed_of_none hc) (.inl rfl)
  | some candidate =>
    obtain ⟨hstatus, hagainst⟩ := h candidate hc
    cases reset with
    | true =>
      refine iff_of_false (fun hbacked => ?_) (by simp)
      have hnew := (hbacked candidate hc).1
      simp [Row.rederive] at hnew
    | false =>
      simp only [reduceCtorEq, and_true, false_or]
      constructor
      · intro hbacked
        exact Option.some.inj (hagainst.symm.trans (hbacked candidate hc).2)
      · intro heq candidate' hc'
        cases hc.symm.trans hc'
        exact ⟨hstatus, hagainst.trans (congrArg some heq)⟩

theorem backed_persist_nothing_iff (failed : Bool) (now : Instant) :
    Backed (row.persist (.nothing failed) now) ↔ row.candidate = none := by
  constructor
  · intro hbacked
    rw [Option.eq_none_iff_forall_ne_some]
    intro candidate hc
    have hnew := (hbacked candidate hc).1
    cases failed <;> simp [Row.persist] at hnew
  · exact fun hc => backed_of_none hc

theorem backed_persist_found_iff {candidate : Candidate E} (now : Instant) :
    Backed (row.persist (.found candidate) now) ↔ candidate.against = some row.evidence := by
  constructor
  · exact fun hbacked => (hbacked candidate rfl).2
  · intro hagainst candidate' hc'
    cases hc'
    exact ⟨.inl rfl, hagainst⟩

variable [DecidableEq E]

/-- What may be made of a row with a candidate: a sweep has the evidence of the row and does not
reset it, and a verification stores what it found against the evidence of the row. -/
def careful (store : Store E) (call : Call E) (answer : Answer) : Bool :=
  answer.fails || match call with
    | .upserting _ existing todo _ => (upcoming todo).all fun (findingId, draft, _) =>
        (store.rows.find? (isFor findingId draft.type)).all fun row =>
          row.candidate.isNone || (row.evidence = draft.evidence &&
            !resetVerification stringify existing findingId draft)
    | .persisting id _ (.nothing _) | .persistingFailed id _ =>
        (store.find id).all (·.candidate.isNone)
    | .persisting id _ (.found candidate) =>
        (store.find id).all fun row => candidate.against = some row.evidence
    | _ => true

variable {stringify}

theorem sound_upsert_iff {sweep : Sweep E} {existing : List (Row E)} {findingId : String}
    {draft : Draft E} {newId : String} (h : Sound store)
    (hupsert : upsert stringify store sweep existing findingId draft newId = some store') :
    Sound store' ↔ (store.rows.find? (isFor findingId draft.type)).all fun row =>
      row.candidate.isNone || (row.evidence = draft.evidence &&
        !resetVerification stringify existing findingId draft) := by
  unfold upsert at hupsert
  split at hupsert
  · rename_i row hrow
    cases hupsert
    have hmem := List.mem_of_find?_eq_some hrow
    rw [sound_updateAt_iff (rederive_id _ _ _) h, hrow]
    simp only [Table.find_key hmem, Option.some.injEq, forall_eq', Option.all_some]
    rw [backed_rederive_iff _ (h row hmem)]
    simp
  · rename_i hrow
    rw [hrow]
    refine iff_of_true (fun row hmem => ?_) rfl
    rw [Table.rows_of_insert hupsert, List.mem_append, List.mem_singleton] at hmem
    rcases hmem with hmem | rfl
    · exact h row hmem
    · exact backed_of_none rfl

omit [DecidableEq E] in
theorem find_eq_none_of_upsert {sweep : Sweep E} {existing : List (Row E)} {findingId : String}
    {draft : Draft E} {newId : String}
    (h : upsert stringify store sweep existing findingId draft newId = none) :
    store.rows.find? (isFor findingId draft.type) = none := by
  unfold upsert at h
  split at h
  · cases h
  · assumption

omit [DecidableEq E] in
/-- A call that fails writes nothing. -/
theorem store_eq_of_fails (hfails : answer.fails = true)
    (hact : act stringify store call answer = some (store', call')) : store' = store := by
  unfold act at hact
  rw [hfails] at hact
  split at hact
  case h_3 => split at hact <;> cases hact <;> rfl
  case h_6 => split at hact <;> cases hact <;> rfl
  all_goals cases hact
  all_goals rfl

theorem sound_iff_careful (h : Sound store)
    (hact : act stringify store call answer = some (store', call')) :
    Sound store' ↔ careful stringify store call answer = true := by
  unfold careful
  cases hfails : answer.fails with
  | true =>
    rw [store_eq_of_fails hfails hact, Bool.true_or]
    exact iff_of_true h rfl
  | false =>
    rw [Bool.false_or]
    unfold act at hact
    rw [hfails] at hact
    cases call with
    | returned => cases hact
    | reconcile sweep =>
      cases hact
      exact iff_of_true h rfl
    | upserting sweep existing todo produced =>
      dsimp only at hact ⊢
      cases hup : upcoming todo with
      | none =>
        rw [hup] at hact
        cases hact
        exact iff_of_true h rfl
      | some next =>
        obtain ⟨findingId, draft, rest⟩ := next
        rw [hup] at hact
        simp only [Bool.false_eq_true, if_false] at hact
        rw [Option.all_some]
        cases hupsert : upsert stringify store sweep existing findingId draft answer.newId with
        | none =>
          rw [hupsert] at hact
          cases hact
          rw [find_eq_none_of_upsert hupsert]
          exact iff_of_true h rfl
        | some store₁ =>
          rw [hupsert] at hact
          cases hact
          exact sound_upsert_iff h hupsert
    | satisfying sweep existing produced =>
      cases hact
      exact iff_of_true (sound_update _ h fun _ => backed_close _ _ _ _) rfl
    | invalidating sweep existing produced =>
      cases hact
      exact iff_of_true (sound_update _ h fun _ => backed_close _ _ _ _) rfl
    | verify recommendationId now =>
      dsimp only at hact
      split at hact <;> cases hact <;> exact iff_of_true h rfl
    | marking id now =>
      cases hact
      refine iff_of_true ((sound_updateAt_iff _ h).2 fun row hrow => ?_) rfl
      exact backed_checking (h row (Table.find_eq_some.1 hrow).1)
    | searching id now =>
      cases hact
      exact iff_of_true h rfl
    | persisting id now result =>
      cases hact
      rw [sound_updateAt_iff _ h]
      cases result with
      | nothing failed =>
        simp only [backed_persist_nothing_iff]
        cases store.find id <;> simp
      | found candidate =>
        simp only [backed_persist_found_iff]
        cases store.find id <;> simp
    | persistingFailed id now =>
      cases hact
      rw [sound_updateAt_iff _ h]
      simp only [backed_persist_nothing_iff]
      cases store.find id <;> simp
    | expireStaleVerifications now =>
      cases hact
      exact iff_of_true (sound_update _ h fun _ => backed_expire now) rfl

/-! ### Runs -/

variable {ι : Type} [DecidableEq ι] {start c : Config ι (Store E) (Call E)}

/-- An upgrade of a film nobody has asked for yet. -/
def upgrade : Row String where
  id := "r1"
  findingId := "f1"
  entityType := "movie"
  entityId := "m1"
  type := "SEARCH_FOR_QUALITY_UPGRADE"
  status := .active
  confidence := "medium"
  evidence := "720p"
  verification := .notChecked
  verifiedAt := none
  candidate := none
  invalidationReason := none
  invalidatedAt := none
  evaluatedAt := 0

/-- A sweep that finds another copy of the film. -/
def replaced : Sweep String where
  entityType := "movie"
  entityId := "m1"
  findings := [⟨"f1", false, some ⟨"SEARCH_FOR_QUALITY_UPGRADE", "medium", "1080p", .notChecked⟩⟩]
  now := 2

/-- The upgrade is verified, and then something else happens to it. -/
def verifiedBefore (other : Call String) : Config (Fin 2) (Store String) (Call String) where
  store := ⟨[upgrade], List.nodup_singleton upgrade.id⟩
  call i := if i.val = 0 then .verify "r1" 1 else other

theorem verifiedBefore_sound (other : Call String) : Sound (verifiedBefore other).store := by
  intro row hrow
  rw [List.mem_singleton.1 hrow]
  exact backed_of_none rfl

def candidateIn (status : VerificationStatus) (c : Config (Fin 2) (Store String) (Call String)) : Bool :=
  c.store.rows.any fun row => row.verification = status ∧ row.candidate.isSome

def verification (i : Fin 2) (search : SearchOutcome) : List (Fin 2 × Answer) :=
  [(i, {}), (i, {}), (i, { search := search }), (i, {})]

theorem not_sound_of_candidateIn {status : VerificationStatus}
    {c : Config (Fin 2) (Store String) (Call String)} (h : candidateIn status c = true)
    (hstatus : status ≠ .verified ∧ status ≠ .stale ∧ status ≠ .checking) : ¬ Sound c.store := by
  intro hsound
  obtain ⟨row, hmem, hrow⟩ := List.any_eq_true.1 h
  obtain ⟨rfl, hsome⟩ := of_decide_eq_true hrow
  obtain ⟨candidate, hc⟩ := Option.isSome_iff_exists.1 hsome
  have hin := (hsound row hmem candidate hc).1
  tauto

end UltraTorrent.MediaIntelligence.UpgradeCandidates
