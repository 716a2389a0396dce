import Mathlib.Data.List.TakeWhile
import UltraTorrent.Library.EcmaScript

/-! The bus of the domain events. It remembers what it has published in two maps, in the order in which the keys
were set, and forgets what has expired. What it refuses is what its history calls for. -/
namespace UltraTorrent.DomainEvents.EventBus

open Library Library.EcmaScript

/-- How long a delivered event id is remembered for idempotency. -/
def seenTtlMs : Instant := 6 * 60 * 60 * 1000

/-- Hard cap so a busy install cannot grow the set without bound. -/
def seenMax : ℕ := 10000

structure Envelope where
  id : String
  eventKey : String
  occurredAt : String
  resourceType : Option String := none
  resourceId : Option String := none
  /-- The fields of the payload that are there and not null. -/
  payload : List String := []
  deriving DecidableEq

structure DomainEventDefinition where
  requiredFields : List String
  deduplicationWindowSeconds : Option ℕ

inductive Reason where
  | unregistered
  | invalidPayload
  | duplicate
  deriving DecidableEq

structure PublishResult where
  published : Bool
  eventId : Option String := none
  reason : Option Reason := none
  problems : List String := []
  deriving DecidableEq

/-- A map as the list of its entries, the first set first. -/
structure Bus where
  seenIds : List (String × Instant)
  seenFacts : List (String × Instant)

variable (isTimestamp : String → Bool) (catalog : String → Option DomainEventDefinition)

def validateDomainEvent (e : Envelope) : Option DomainEventDefinition → List String
  | none => envelopeProblems e ++ [s!"unregistered event \"{e.eventKey}\""]
  | some definition => envelopeProblems e ++
      (definition.requiredFields.filter fun field => !e.payload.contains field).map fun field => s!"payload.{field} is required"
where
  envelopeProblems (e : Envelope) : List String :=
    (if e.id = "" then ["missing id"] else []) ++ (if e.eventKey = "" then ["missing eventKey"] else []) ++
      (if e.occurredAt = "" || !isTimestamp e.occurredAt then ["occurredAt is not an ISO timestamp"] else [])

def domainEventDedupeKey (e : Envelope) : String :=
  ":".intercalate [e.eventKey, e.resourceType.getD "", e.resourceId.getD ""]

/-- Drops expired entries, and trims if a burst outran the TTL; insertion-ordered, so this drops the oldest. -/
def prune (bus : Bus) (now : Instant) : Bus :=
  let seenIds := bus.seenIds.filter (now < ·.2)
  { seenIds := if seenMax < seenIds.length then seenIds.drop (seenIds.length - seenMax) else seenIds
    seenFacts := bus.seenFacts.filter (now < ·.2) }

def has (seen : List (String × Instant)) (key : String) : Bool := seen.any (·.1 = key)

def windowSec (definition : DomainEventDefinition) : ℕ := definition.deduplicationWindowSeconds.getD 0

/-- The fact that an event is, where its repetition is suppressed, and until when. -/
def factOf (definition : DomainEventDefinition) (e : Envelope) (now : Instant) : Option (String × Instant) :=
  if 0 < windowSec definition then some (domainEventDedupeKey e, now + windowSec definition * 1000) else none

def refused (reason : Reason) (problems : List String) : PublishResult :=
  { published := false, reason := some reason, problems := problems }

def duplicate (e : Envelope) : PublishResult :=
  { published := false, eventId := some e.id, reason := some .duplicate }

def published (e : Envelope) : PublishResult := { published := true, eventId := some e.id }

def publish (bus : Bus) (now : Instant) (e : Envelope) : Bus × PublishResult :=
  match catalog e.eventKey with
  | none => (bus, refused .unregistered (validateDomainEvent isTimestamp e none))
  | some definition =>
    if validateDomainEvent isTimestamp e (some definition) ≠ [] then
      (bus, refused .invalidPayload (validateDomainEvent isTimestamp e (some definition)))
    else if has (prune bus now).seenIds e.id then (prune bus now, duplicate e)
    else
      match factOf definition e now with
      | none => ({ prune bus now with seenIds := (prune bus now).seenIds ++ [(e.id, now + seenTtlMs)] }, published e)
      | some fact =>
        if has (prune bus now).seenFacts fact.1 then (prune bus now, duplicate e)
        else
          ({ seenIds := (prune bus now).seenIds ++ [(e.id, now + seenTtlMs)]
             seenFacts := (prune bus now).seenFacts ++ [fact] }, published e)

/-! ### What the bus is for -/

structure Published where
  id : String
  fact : Option (String × Instant)
  publishedAt : Instant

/-- The ten thousand published last, of those published within six hours; the last first. -/
def recent (history : List Published) (now : Instant) : List Published :=
  (history.filter fun p => now < p.publishedAt + seenTtlMs).take seenMax

/-- A fact repeated within its window. -/
def Repeated (history : List Published) (fact : String) (now : Instant) : Prop :=
  ∃ p ∈ history, ∃ expiry, p.fact = some (fact, expiry) ∧ now < expiry

/-- An event that is valid is refused when its id is a recent one, or its fact is repeated within its window. -/
inductive Verdict (history : List Published) (now : Instant) (e : Envelope) : List Published → PublishResult → Prop
  | unregistered : catalog e.eventKey = none →
      Verdict history now e history (refused .unregistered (validateDomainEvent isTimestamp e none))
  | invalid {definition : DomainEventDefinition} : catalog e.eventKey = some definition →
      validateDomainEvent isTimestamp e (some definition) ≠ [] →
      Verdict history now e history (refused .invalidPayload (validateDomainEvent isTimestamp e (some definition)))
  | duplicate {definition : DomainEventDefinition} : catalog e.eventKey = some definition →
      validateDomainEvent isTimestamp e (some definition) = [] →
      (e.id ∈ (recent history now).map Published.id ∨
        ∃ fact ∈ factOf definition e now, Repeated history fact.1 now) →
      Verdict history now e history (duplicate e)
  | published {definition : DomainEventDefinition} : catalog e.eventKey = some definition →
      validateDomainEvent isTimestamp e (some definition) = [] →
      e.id ∉ (recent history now).map Published.id →
      (∀ fact ∈ factOf definition e now, ¬ Repeated history fact.1 now) →
      Verdict history now e (⟨e.id, factOf definition e now, now⟩ :: history) (published e)

section Remembering

variable {bus : Bus} {history : List Published} {now later : Instant}

def idEntry (p : Published) : String × Instant := (p.id, p.publishedAt + seenTtlMs)

def unexpired (now : Instant) (history : List Published) : List Published :=
  history.filter fun p => now < p.publishedAt + seenTtlMs

/-- The bus after its history, as it was last pruned at `now`. -/
structure Remembers (bus : Bus) (history : List Published) (now : Instant) : Prop where
  ordered : history.Pairwise fun p q => q.publishedAt ≤ p.publishedAt
  past : ∀ p ∈ history, p.publishedAt ≤ now
  ids : ∃ kept, seenMax ≤ kept ∧ bus.seenIds = (((unexpired now history).take kept).map idEntry).reverse
  fact_of_seen : ∀ fact ∈ bus.seenFacts, ∃ p ∈ history, p.fact = some fact
  seen_of_fact : ∀ p ∈ history, ∀ fact ∈ p.fact, now < fact.2 → fact ∈ bus.seenFacts

theorem remembers_empty : Remembers ⟨[], []⟩ [] now where
  ordered := .nil
  past := by simp
  ids := ⟨seenMax, le_rfl, rfl⟩
  fact_of_seen := by simp
  seen_of_fact := by simp

/-- Of a history the last of which comes first, the unexpired are the first ones. -/
theorem unexpired_eq_takeWhile (h : history.Pairwise fun p q => q.publishedAt ≤ p.publishedAt) :
    unexpired now history = history.takeWhile fun p => now < p.publishedAt + seenTtlMs := by
  induction history with
  | nil => rfl
  | cons p older ih =>
    obtain ⟨hp, holder⟩ := List.pairwise_cons.1 h
    by_cases hnow : now < p.publishedAt + seenTtlMs
    · rw [List.takeWhile_cons_of_pos (by simpa using hnow), ← ih holder]
      exact List.filter_cons_of_pos (by simpa using hnow)
    · rw [List.takeWhile_cons_of_neg (by simpa using hnow)]
      refine List.filter_eq_nil_iff.2 fun q hq => ?_
      have hle : q.publishedAt ≤ p.publishedAt := by
        rcases List.mem_cons.1 hq with rfl | hq
        · exact le_rfl
        · exact hp q hq
      have : q.publishedAt + seenTtlMs ≤ now := le_trans (Int.add_le_add_right hle _) (not_lt.1 hnow)
      simpa using this

theorem unexpired_unexpired (hnow : now ≤ later) : unexpired later (unexpired now history) = unexpired later history := by
  rw [unexpired, unexpired, List.filter_filter]
  refine List.filter_congr fun p _ => ?_
  by_cases hp : later < p.publishedAt + seenTtlMs
  · simp [hp, lt_of_le_of_lt hnow hp]
  · simp [hp]

theorem take_unexpired {kept : ℕ} (h : history.Pairwise fun p q => q.publishedAt ≤ p.publishedAt) (hnow : now ≤ later)
    (hkept : seenMax ≤ kept) :
    (unexpired later ((unexpired now history).take kept)).take seenMax = recent history later := by
  have hunexpired : (unexpired now history).Pairwise fun p q => q.publishedAt ≤ p.publishedAt := h.filter _
  rw [unexpired_eq_takeWhile (hunexpired.sublist (List.take_sublist _ _)), ← List.take_takeWhile,
    ← unexpired_eq_takeWhile hunexpired, unexpired_unexpired hnow, List.take_take, min_eq_left hkept]
  rfl

theorem prune_seenIds (h : Remembers bus history now) (hnow : now ≤ later) :
    (prune bus later).seenIds = ((recent history later).map idEntry).reverse := by
  obtain ⟨kept, hkept, hids⟩ := h.ids
  have hfilter : bus.seenIds.filter (later < ·.2) =
      ((unexpired later ((unexpired now history).take kept)).map idEntry).reverse := by
    rw [hids, List.filter_reverse, List.filter_map]
    rfl
  simp only [prune, hfilter, List.length_reverse, List.length_map]
  rw [← take_unexpired h.ordered hnow hkept, List.map_take, List.reverse_take, List.length_map]
  split
  · rfl
  · next hshort => rw [Nat.sub_eq_zero_of_le (not_lt.1 hshort), List.drop_zero]

theorem has_iff {seen : List (String × Instant)} {key : String} :
    has seen key ↔ ∃ expiry, (key, expiry) ∈ seen := by
  simp only [has, List.any_eq_true, decide_eq_true_eq]
  constructor
  · rintro ⟨⟨k, expiry⟩, hmem, rfl⟩
    exact ⟨expiry, hmem⟩
  · rintro ⟨expiry, hmem⟩
    exact ⟨_, hmem, rfl⟩

theorem has_seenIds (h : Remembers bus history now) (hnow : now ≤ later) {id : String} :
    has (prune bus later).seenIds id ↔ id ∈ (recent history later).map Published.id := by
  rw [has_iff, prune_seenIds h hnow]
  simp [idEntry]

theorem has_seenFacts (h : Remembers bus history now) (hnow : now ≤ later) {fact : String} :
    has (prune bus later).seenFacts fact ↔ Repeated history fact later := by
  rw [has_iff]
  constructor
  · rintro ⟨expiry, hmem⟩
    obtain ⟨hseen, hexpiry⟩ := List.mem_filter.1 hmem
    obtain ⟨p, hp, hfact⟩ := h.fact_of_seen _ hseen
    exact ⟨p, hp, expiry, hfact, by simpa using hexpiry⟩
  · rintro ⟨p, hp, expiry, hfact, hexpiry⟩
    exact ⟨expiry, List.mem_filter.2
      ⟨h.seen_of_fact p hp _ hfact (lt_of_le_of_lt hnow hexpiry), by simpa using hexpiry⟩⟩

theorem remembers_prune (h : Remembers bus history now) (hnow : now ≤ later) :
    Remembers (prune bus later) history later where
  ordered := h.ordered
  past p hp := (h.past p hp).trans hnow
  ids := ⟨seenMax, le_rfl, prune_seenIds h hnow⟩
  fact_of_seen fact hfact := h.fact_of_seen fact (List.mem_filter.1 hfact).1
  seen_of_fact p hp fact hfact hexpiry :=
    List.mem_filter.2 ⟨h.seen_of_fact p hp fact hfact (lt_of_le_of_lt hnow hexpiry), by simpa using hexpiry⟩

/-- The bus after it published at `later`. -/
theorem remembers_emit (h : Remembers bus history now) (hnow : now ≤ later) (id : String)
    (fact : Option (String × Instant)) :
    Remembers ⟨(prune bus later).seenIds ++ [(id, later + seenTtlMs)], (prune bus later).seenFacts ++ fact.toList⟩
      (⟨id, fact, later⟩ :: history) later := by
  have hpruned := remembers_prune h hnow
  refine ⟨List.pairwise_cons.2 ⟨fun q hq => hpruned.past q hq, h.ordered⟩, ?_, ⟨seenMax + 1, Nat.le_succ _, ?_⟩, ?_, ?_⟩
  · rintro p (_ | ⟨_, hp⟩)
    · exact le_rfl
    · exact hpruned.past p hp
  · have hfresh : later < later + seenTtlMs := Int.lt_add_of_pos_right _ (by decide)
    rw [unexpired, List.filter_cons_of_pos (by simpa using hfresh), List.take_succ_cons, List.map_cons,
      List.reverse_cons, prune_seenIds h hnow]
    rfl
  · intro f hf
    rcases List.mem_append.1 hf with hf | hf
    · obtain ⟨p, hp, hfact⟩ := hpruned.fact_of_seen f hf
      exact ⟨p, List.mem_cons_of_mem _ hp, hfact⟩
    · exact ⟨_, List.mem_cons_self, Option.mem_toList.1 hf⟩
  · rintro p (_ | ⟨_, hp⟩) f hf hexpiry
    · exact List.mem_append_right _ (Option.mem_toList.2 hf)
    · exact List.mem_append_left _ (hpruned.seen_of_fact p hp f hf hexpiry)

end Remembering

/-! ### Runs -/

structure Outcome where
  now : Instant
  event : Envelope
  result : PublishResult

def publishAll (bus : Bus) : List (Instant × Envelope) → List Outcome
  | [] => []
  | (now, e) :: requests =>
    ⟨now, e, (publish isTimestamp catalog bus now e).2⟩ ::
      publishAll (publish isTimestamp catalog bus now e).1 requests

/-- Each outcome is the verdict on the history that those before it left. -/
inductive Judged : List Published → List Outcome → List Published → Prop
  | nil (history : List Published) : Judged history [] history
  | cons {history next last : List Published} {o : Outcome} {outcomes : List Outcome} :
      Verdict isTimestamp catalog history o.now o.event next o.result → Judged next outcomes last →
      Judged history (o :: outcomes) last

variable {bus : Bus} {history next last : List Published} {now later : Instant} {e : Envelope}

/-- What one publishing comes to, and what the bus remembers then. -/
theorem publish_verdict (h : Remembers bus history now) (hnow : now ≤ later) :
    ∃ next, Verdict isTimestamp catalog history later e next (publish isTimestamp catalog bus later e).2 ∧
      ∃ pruned ≤ later, Remembers (publish isTimestamp catalog bus later e).1 next pruned := by
  unfold publish
  split
  · next hnone => exact ⟨history, .unregistered hnone, now, hnow, h⟩
  next definition hsome =>
  split_ifs with hvalid hid
  · exact ⟨history, .invalid hsome hvalid, now, hnow, h⟩
  · exact ⟨history, .duplicate hsome (not_not.1 hvalid) (.inl ((has_seenIds h hnow).1 hid)), later, le_rfl,
      remembers_prune h hnow⟩
  rw [has_seenIds h hnow] at hid
  cases hfact : factOf definition e later with
  | none =>
    refine ⟨_, .published hsome (not_not.1 hvalid) hid (by simp [hfact]), later, le_rfl, ?_⟩
    simpa [hfact] using remembers_emit h hnow e.id none
  | some fact =>
    dsimp only
    split_ifs with hrepeated
    · rw [has_seenFacts h hnow] at hrepeated
      exact ⟨history, .duplicate hsome (not_not.1 hvalid) (.inr ⟨fact, hfact, hrepeated⟩), later, le_rfl,
        remembers_prune h hnow⟩
    · rw [has_seenFacts h hnow] at hrepeated
      refine ⟨_, .published hsome (not_not.1 hvalid) hid (by simpa [hfact] using hrepeated), later, le_rfl, ?_⟩
      simpa [hfact] using remembers_emit h hnow e.id (some fact)

theorem publishAll_judged {requests : List (Instant × Envelope)} (h : Remembers bus history now)
    (hlater : ∀ request ∈ requests, now ≤ request.1) (hchron : requests.Pairwise fun p q => p.1 ≤ q.1) :
    ∃ last, Judged isTimestamp catalog history (publishAll isTimestamp catalog bus requests) last := by
  induction requests generalizing bus history now with
  | nil => exact ⟨history, .nil _⟩
  | cons request requests ih =>
    obtain ⟨later, e⟩ := request
    obtain ⟨hfirst, hrest⟩ := List.pairwise_cons.1 hchron
    obtain ⟨next, hverdict, pruned, hpruned, hnext⟩ := publish_verdict isTimestamp catalog h
      (hlater _ List.mem_cons_self)
    obtain ⟨last, hlast⟩ := ih hnext (fun request hr => hpruned.trans (hfirst request hr)) hrest
    exact ⟨last, .cons hverdict hlast⟩

theorem judged_of_empty {requests : List (Instant × Envelope)} (h : requests.Pairwise fun p q => p.1 ≤ q.1) :
    ∃ last, Judged isTimestamp catalog [] (publishAll isTimestamp catalog ⟨[], []⟩ requests) last := by
  cases requests with
  | nil => exact ⟨[], .nil _⟩
  | cons request requests =>
    refine publishAll_judged isTimestamp catalog (@remembers_empty request.1) ?_ h
    rintro r (_ | ⟨_, hr⟩)
    · exact le_rfl
    · exact (List.pairwise_cons.1 h).1 r hr

theorem publishAll_requests (bus : Bus) (requests : List (Instant × Envelope)) :
    (publishAll isTimestamp catalog bus requests).map (fun o => (o.now, o.event)) = requests := by
  induction requests generalizing bus with
  | nil => rfl
  | cons request requests ih =>
    rw [publishAll, List.map_cons, ih]

/-- However often the same events are published, in the order of the clock, each publishing is answered as the
history of the publishings before it calls for. -/
theorem publishAll_answers (requests : List (Instant × Envelope)) (h : requests.Pairwise fun p q => p.1 ≤ q.1) :
    (publishAll isTimestamp catalog ⟨[], []⟩ requests).map (fun o => (o.now, o.event)) = requests ∧
      ∃ history, Judged isTimestamp catalog [] (publishAll isTimestamp catalog ⟨[], []⟩ requests) history :=
  ⟨publishAll_requests isTimestamp catalog _ requests, judged_of_empty isTimestamp catalog h⟩

/-- A seeding target that the sweep finds met at each of its turns. -/
def seedTarget (id : String) : Envelope :=
  { id := id, eventKey := "torrent_scheduler.seed_target_reached", occurredAt := "2026-01-01T00:00:00.000Z",
    resourceType := some "torrent", resourceId := some "a1", payload := ["engineId", "torrentHash"] }

def sweepCatalog (key : String) : Option DomainEventDefinition :=
  if key = "torrent_scheduler.seed_target_reached" then some ⟨["engineId", "torrentHash"], some 3600⟩ else none

def sweeps : List (Instant × Envelope) :=
  [(0, seedTarget "e1"), (60000, seedTarget "e2"), (3600000, seedTarget "e1"), (3600000, seedTarget "e3")]

example : (publishAll (fun _ => true) sweepCatalog ⟨[], []⟩ sweeps).map (·.result.published) = [true, false, false, true] := by
  decide +kernel

theorem sweeps_answers :
    (publishAll (fun _ => true) sweepCatalog ⟨[], []⟩ sweeps).map (fun o => (o.now, o.event)) = sweeps ∧
      ∃ history, Judged (fun _ => true) sweepCatalog [] (publishAll (fun _ => true) sweepCatalog ⟨[], []⟩ sweeps) history :=
  publishAll_answers _ _ sweeps (by decide)

variable {isTimestamp catalog}

theorem Judged.append {before after : List Outcome} (h : Judged isTimestamp catalog history (before ++ after) last) :
    ∃ next, Judged isTimestamp catalog history before next ∧ Judged isTimestamp catalog next after last := by
  induction before generalizing history with
  | nil => exact ⟨history, .nil _, h⟩
  | cons o before ih =>
    cases h with
    | cons hverdict hrest =>
      obtain ⟨next, hbefore, hafter⟩ := ih hrest
      exact ⟨next, .cons hverdict hbefore, hafter⟩

/-- A history grows by what is published, and by nothing else. -/
theorem Judged.grows {outcomes : List Outcome} (h : Judged isTimestamp catalog history outcomes last) :
    ∃ newer : List Published, last = newer ++ history ∧
      newer.length = outcomes.countP fun o => o.result.published := by
  induction h with
  | nil history => exact ⟨[], rfl, rfl⟩
  | cons hverdict hrest ih =>
    obtain ⟨newer, rfl, hlength⟩ := ih
    generalize hr : Outcome.result _ = r at hverdict
    cases hverdict with
    | published => exact ⟨newer ++ [_], List.append_cons .., by simp [hlength, hr, published]⟩
    | unregistered | invalid => exact ⟨newer, rfl, by simpa [hr, refused] using hlength⟩
    | duplicate => exact ⟨newer, rfl, by simpa [hr, duplicate] using hlength⟩

theorem Verdict.of_published {result : PublishResult} (h : Verdict isTimestamp catalog history now e next result)
    (hresult : result.published) :
    ∃ definition, catalog e.eventKey = some definition ∧
      next = ⟨e.id, factOf definition e now, now⟩ :: history ∧
      e.id ∉ (recent history now).map Published.id ∧ ∀ fact ∈ factOf definition e now, ¬ Repeated history fact.1 now := by
  cases h with
  | published hsome _ hid hfact => exact ⟨_, hsome, rfl, hid, hfact⟩
  | unregistered | invalid | duplicate => cases hresult

theorem mem_recent {newer older : List Published} {p : Published} (hnewer : newer.length < seenMax)
    (hp : now < p.publishedAt + seenTtlMs) : p ∈ recent (newer ++ p :: older) now := by
  have hfew : (newer.filter fun p => now < p.publishedAt + seenTtlMs).length < seenMax :=
    lt_of_le_of_lt (List.length_filter_le _ _) hnewer
  rw [recent, List.filter_append, List.filter_cons_of_pos (by simpa using hp), List.take_append,
    List.take_cons (by omega)]
  exact List.mem_append_right _ List.mem_cons_self

/-- Of two publishings of one event id the later is six hours after the earlier, or ten thousand others were published
between them; of two publishings of one fact the later is past the window of the earlier, whatever was between them. -/
theorem publishings_apart {requests : List (Instant × Envelope)} (h : requests.Pairwise fun p q => p.1 ≤ q.1)
    {before between after : List Outcome} {earlier latter : Outcome}
    (hrun : publishAll isTimestamp catalog ⟨[], []⟩ requests = before ++ earlier :: (between ++ latter :: after))
    (hearlier : earlier.result.published) (hlatter : latter.result.published) :
    (earlier.event.id = latter.event.id →
      earlier.now + seenTtlMs ≤ latter.now ∨ seenMax ≤ between.countP fun o => o.result.published) ∧
    ∀ d ∈ catalog earlier.event.eventKey, ∀ d' ∈ catalog latter.event.eventKey, 0 < windowSec d → 0 < windowSec d' →
      domainEventDedupeKey earlier.event = domainEventDedupeKey latter.event →
      earlier.now + windowSec d * 1000 ≤ latter.now := by
  obtain ⟨last, hjudged⟩ := judged_of_empty isTimestamp catalog h
  rw [hrun] at hjudged
  obtain ⟨older, -, hjudged⟩ := hjudged.append
  cases hjudged with
  | cons hverdict hjudged =>
    obtain ⟨definition, hdefinition, rfl, -, -⟩ := hverdict.of_published hearlier
    obtain ⟨_, hbetween, hjudged⟩ := hjudged.append
    obtain ⟨newer, rfl, hnewer⟩ := hbetween.grows
    cases hjudged with
    | cons hverdict _ =>
      obtain ⟨definition', hdefinition', -, hid, hfact⟩ := hverdict.of_published hlatter
      refine ⟨fun hsame => ?_, ?_⟩
      · by_contra hclose
        rw [not_or, not_le, not_le, ← hnewer] at hclose
        exact hid (List.mem_map.2 ⟨_, mem_recent hclose.2 hclose.1, hsame⟩)
      · intro d hd d' hd' hwindow hwindow' hsame
        obtain rfl : definition = d := Option.some.inj (hdefinition.symm.trans hd)
        obtain rfl : definition' = d' := Option.some.inj (hdefinition'.symm.trans hd')
        by_contra hclose
        rw [not_le] at hclose
        refine hfact _ (if_pos hwindow') ⟨_, List.mem_append_right _ List.mem_cons_self, _, ?_, hclose⟩
        rw [factOf, if_pos hwindow, hsame]

theorem sweeps_apart : (0 : Instant) + windowSec ⟨["engineId", "torrentHash"], some 3600⟩ * 1000 ≤ 3600000 := by
  have hrun : publishAll (fun _ => true) sweepCatalog ⟨[], []⟩ sweeps =
      [] ++ ⟨0, seedTarget "e1", published (seedTarget "e1")⟩ ::
        ([⟨60000, seedTarget "e2", duplicate (seedTarget "e2")⟩, ⟨3600000, seedTarget "e1", duplicate (seedTarget "e1")⟩] ++
          ⟨3600000, seedTarget "e3", published (seedTarget "e3")⟩ :: []) := by rfl
  exact (publishings_apart (by decide) hrun rfl rfl).2 _ rfl _ rfl (by decide) (by decide) rfl

end UltraTorrent.DomainEvents.EventBus
