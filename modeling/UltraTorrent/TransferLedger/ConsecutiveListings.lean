import UltraTorrent.TransferLedger.Conservation

/-! The ledger against the listings it was made from. The snapshots are always the last listing, so
what is banked at a tick is what moved between two consecutive listings, whatever the counters do. -/
namespace UltraTorrent.TransferLedger.ConsecutiveListings

open Accrual SyncLoop Conservation

/-- What an engine answers when it is asked for its torrents. -/
structure Listing where
  torrents : List TransferReading
  distinct : (torrents.map (·.hash)).Nodup

/-- A tick that meets any listing at all. -/
def syncListing (s : State) (t : Tick) (listing : Listing) : State :=
  let settled := ensureBaseline s t
  if t.listingFails then settled else persistSnapshots settled listing.torrents

/-- The loop's own tick meets what its engine holds. -/
theorem syncEngine_eq (s : State) (t : Tick) :
    let listed := (fallbackEngine s t).run t.beforeListing
    syncEngine s t = { syncListing s t ⟨listed.torrents, listed.distinct⟩ with
      engine := listed.run t.beforeWrite } := by
  intro listed
  unfold syncEngine syncListing
  dsimp only
  split_ifs <;> rfl

def runListings (s : State) (ticks : List (Tick × Listing)) : State :=
  ticks.foldl (fun s tick => syncListing s tick.1 tick.2) s

/-- The listings that were obtained, in their order. -/
def recorded (ticks : List (Tick × Listing)) : List Listing :=
  (ticks.filter fun tick => !tick.1.listingFails).map Prod.snd

/-- What the torrents in both listings moved: what a counter gained, and all that it shows when it
went down. -/
def moved (dir : Direction) (old new : Listing) : ℕ :=
  (new.torrents.map fun t =>
    match old.torrents.find? (·.hash = t.hash) with
    | none => 0
    | some prior => if prior.of dir ≤ t.of dir then t.of dir - prior.of dir else t.of dir).sum

def movedAlong (dir : Direction) (listings : List Listing) : ℕ :=
  ((listings.zip listings.tail).map fun pair => moved dir pair.1 pair.2).sum

def tableOf (listing : Option Listing) (hash : String) : Option Counters :=
  (listing.bind fun l => l.torrents.find? (·.hash = hash)).map (·.toCounters)

variable {s : State} {t : Tick} {listing : Listing} {dir : Direction}

/-! ### One tick -/

theorem ensureBaseline_accrued (s : State) (t : Tick) :
    accrued (ensureBaseline s t).ledger = accrued s.ledger := by
  unfold ensureBaseline
  split_ifs
  · rfl
  · split
    · rfl
    · exact (accrued_of s.ledger).symm

theorem find?_hash {prior : TransferReading} (h : prior ∈ listing.torrents) :
    listing.torrents.find? (·.hash = prior.hash) = some prior := by
  obtain ⟨torrents, distinct⟩ := listing
  induction torrents with
  | nil => cases h
  | cons t torrents ih =>
    rw [List.map_cons, List.nodup_cons] at distinct
    rcases List.mem_cons.1 h with rfl | h
    · exact List.find?_cons_of_pos (by simp)
    · have hne : t.hash ≠ prior.hash := fun heq => distinct.1 (heq ▸ List.mem_map_of_mem h)
      exact (List.find?_cons_of_neg (by simpa using hne)).trans (ih distinct.2 h)

theorem find?_hash_eq_none {hash : String} (h : hash ∉ listing.torrents.map (·.hash)) :
    listing.torrents.find? (·.hash = hash) = none :=
  List.find?_eq_none.2 fun _ ht heq => h (List.mem_map.2 ⟨_, ht, of_decide_eq_true heq⟩)

/-- Snapshots are written and pruned in one tick, and the listing is what stays. -/
theorem persistSnapshots_snapshots :
    (persistSnapshots s listing.torrents).snapshots = tableOf (some listing) := by
  funext hash
  show (if hash ∈ listing.torrents.map (·.hash) then upsertAll s.snapshots listing.torrents hash
    else none) = _
  split_ifs with hmem
  · obtain ⟨reading, hreading, rfl⟩ := List.mem_map.1 hmem
    rw [upsertAll_of_mem listing.distinct hreading, tableOf, Option.bind_some, find?_hash hreading]
    rfl
  · rw [tableOf, Option.bind_some, find?_hash_eq_none hmem]
    rfl

theorem accrued_accrualOperation (ledger : Option LedgerRow) (torrents : List TransferReading)
    (prior : String → Option Counters) :
    (accrued (accrualOperation ledger torrents prior)).of dir =
      (accrued ledger).of dir + (torrents.map (delta prior dir)).sum := by
  rw [← accrue_of]
  unfold accrualOperation
  dsimp only
  split_ifs with hempty
  · rw [of_eq_zero_of_isEmpty hempty]
    rfl
  · rw [accrued_of, accrued_of, Option.getD_some, of_add]

theorem sum_delta_tableOf (previous : Option Listing) (hprior : s.snapshots = tableOf previous) :
    (listing.torrents.map (delta (priorSnapshots s.snapshots listing.torrents) dir)).sum =
      movedAlong dir (previous.toList ++ [listing]) := by
  have hdelta : ∀ reading ∈ listing.torrents,
      delta (priorSnapshots s.snapshots listing.torrents) dir reading =
        delta (tableOf previous) dir reading := by
    intro reading hreading
    rw [delta, delta, priorSnapshots, if_pos (List.mem_map_of_mem hreading), hprior]
  rw [List.map_congr_left hdelta]
  cases previous with
  | none => exact List.sum_eq_zero (by simp [delta, tableOf])
  | some previous =>
    show _ = ([(previous, listing)].map fun pair => moved dir pair.1 pair.2).sum
    rw [List.map_singleton, List.sum_singleton, moved]
    congr 1
    refine List.map_congr_left fun reading _ => ?_
    rw [delta, tableOf, Option.bind_some]
    cases previous.torrents.find? (·.hash = reading.hash) with
    | none => rfl
    | some prior =>
      show (contribution (prior.of dir) (reading.of dir)).1 =
        if prior.of dir ≤ reading.of dir then reading.of dir - prior.of dir else reading.of dir
      unfold contribution
      split_ifs <;> rfl

theorem syncListing_fails (hfails : t.listingFails = true) :
    accrued (syncListing s t listing).ledger = accrued s.ledger ∧
      (syncListing s t listing).snapshots = s.snapshots := by
  simp only [syncListing, hfails, if_true]
  exact ⟨ensureBaseline_accrued s t, ensureBaseline_snapshots s t⟩

/-- A tick with a listing banks what moved since the one before, and puts its own in the place of
that. -/
theorem syncListing_records (hlists : t.listingFails = false) (previous : Option Listing)
    (hprior : s.snapshots = tableOf previous) :
    (accrued (syncListing s t listing).ledger).of dir =
        (accrued s.ledger).of dir + movedAlong dir (previous.toList ++ [listing]) ∧
      (syncListing s t listing).snapshots = tableOf (some listing) := by
  simp only [syncListing, hlists, Bool.false_eq_true, if_false]
  refine ⟨?_, persistSnapshots_snapshots⟩
  have hsettled : (ensureBaseline s t).snapshots = tableOf previous :=
    (ensureBaseline_snapshots s t).trans hprior
  show (accrued (accrualOperation _ _ _)).of dir = _
  rw [accrued_accrualOperation, sum_delta_tableOf previous hsettled, ensureBaseline_accrued]

theorem accrue_of_unmoved {readings : List TransferReading} {prior : String → Option Counters}
    (h : ∀ reading ∈ readings, prior reading.hash = some reading.toCounters) :
    accrue readings prior = {} := by
  unfold accrue
  induction readings with
  | nil => rfl
  | cons reading readings ih =>
    have hsame : ∀ n : ℕ, contribution n n = (0, false) := by simp [contribution]
    have hone : accrueOne prior {} reading = {} := by
      simp [accrueOne, h reading List.mem_cons_self, hsame]
    rw [List.foldl_cons, hone]
    exact ih fun reading hreading => h reading (List.mem_cons_of_mem _ hreading)

theorem syncListing_removes {last kept : Listing} (hprior : s.snapshots = tableOf (some last))
    (hkept : kept.torrents ⊆ last.torrents) :
    (syncListing s t kept).ledger = (ensureBaseline s t).ledger := by
  unfold syncListing
  dsimp only
  split_ifs with hfails
  · rfl
  · have hunmoved : accrue kept.torrents
        (priorSnapshots (ensureBaseline s t).snapshots kept.torrents) = {} := by
      refine accrue_of_unmoved fun reading hreading => ?_
      rw [priorSnapshots, if_pos (List.mem_map_of_mem hreading), ensureBaseline_snapshots, hprior,
        tableOf, Option.bind_some, find?_hash (hkept hreading)]
      rfl
    show accrualOperation _ _ _ = _
    rw [accrualOperation, hunmoved]
    rfl

/-! ### Whole runs -/

theorem movedAlong_cons (previous : Option Listing) (listing : Listing) (rest : List Listing) :
    movedAlong dir (previous.toList ++ listing :: rest) =
      movedAlong dir (previous.toList ++ [listing]) + movedAlong dir (listing :: rest) := by
  cases previous with
  | none => simp [movedAlong]
  | some previous => simp [movedAlong]

theorem accrued_of_tableOf (ticks : List (Tick × Listing)) (previous : Option Listing)
    (hprior : s.snapshots = tableOf previous) :
    (accrued (runListings s ticks).ledger).of dir =
        (accrued s.ledger).of dir + movedAlong dir (previous.toList ++ recorded ticks) ∧
      (runListings s ticks).snapshots = tableOf ((recorded ticks).getLast?.or previous) := by
  induction ticks generalizing s previous with
  | nil =>
    refine ⟨?_, hprior⟩
    cases previous <;> rfl
  | cons tick ticks ih =>
    obtain ⟨t, listing⟩ := tick
    cases hfails : t.listingFails with
    | true =>
      obtain ⟨haccrued, hsnapshots⟩ := @syncListing_fails s t listing hfails
      have hrecorded : recorded ((t, listing) :: ticks) = recorded ticks := by
        simp [recorded, hfails]
      rw [hrecorded, ← haccrued]
      exact ih previous (hsnapshots.trans hprior)
    | false =>
      obtain ⟨haccrued, hsnapshots⟩ :=
        @syncListing_records s t listing dir hfails previous hprior
      have hrecorded : recorded ((t, listing) :: ticks) = listing :: recorded ticks := by
        simp [recorded, hfails]
      obtain ⟨htotal, htable⟩ := ih (some listing) hsnapshots
      rw [hrecorded, movedAlong_cons, ← Nat.add_assoc, ← haccrued]
      refine ⟨htotal, htable.trans ?_⟩
      cases hlast : (recorded ticks).getLast? with
      | none =>
        rw [List.getLast?_eq_none_iff.1 hlast]
        rfl
      | some last =>
        rw [List.getLast?_cons, hlast]
        rfl

variable (engine : Engine) (ticks : List (Tick × Listing))

theorem runListings_append (more : List (Tick × Listing)) :
    runListings { engine := engine } (ticks ++ more) =
      runListings (runListings { engine := engine } ticks) more := List.foldl_append

theorem snapshots_runListings :
    (runListings { engine := engine } ticks).snapshots = tableOf (recorded ticks).getLast? := by
  have h := (@accrued_of_tableOf { engine := engine } .down ticks none rfl).2
  rwa [Option.or_none] at h

end UltraTorrent.TransferLedger.ConsecutiveListings
