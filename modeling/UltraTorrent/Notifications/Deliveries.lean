import Mathlib.Data.List.Sort
import UltraTorrent.Library.EcmaScript
import UltraTorrent.Library.Interleaving
import UltraTorrent.Library.Table

/-! The deliveries of notifications outside the application: what the dispatcher queues for each recipient, and
the worker that hands it over to the providers. Every call of the database and of a provider is an action of
its own that may fail, and the worker may be restarted anywhere. -/
namespace UltraTorrent.Notifications.Deliveries

open Library Library.EcmaScript Library.Interleaving

/-- Bounded, and not user-configurable. -/
def maxAttempts : ℕ := 3

def backoffSeconds : List ℕ := [60, 300, 900]

/-- How many deliveries one tick drains. -/
def batch : ℕ := 20

/-- What is waited after an attempt, in milliseconds. -/
def backoff (attempt : ℕ) : Instant := (backoffSeconds.getD (attempt - 1) 0 : ℕ) * 1000

inductive Status where
  | pending
  | sending
  | providerAccepted
  | failed
  | cancelled
  deriving DecidableEq

structure Notification where
  id : String
  userId : String
  eventId : String
  deriving DecidableEq

structure Delivery where
  id : String
  userId : String
  notificationId : String
  channelType : String
  status : Status := .pending
  attempts : ℕ := 0
  nextAttemptAt : Option Instant := none
  lastError : Option String := none
  suppressedReason : Option String := none
  createdAt : Instant
  sentAt : Option Instant := none
  completedAt : Option Instant := none
  deriving DecidableEq

/-- A delivery handed over to its provider, as a photo with a caption or as a text. -/
structure Handover where
  deliveryId : String
  attempt : ℕ
  sentAt : Instant
  photo : Bool
  deriving DecidableEq

structure Store where
  clock : Instant
  notifications : Table Notification Notification.id
  deliveries : Table Delivery Delivery.id
  /-- What has been handed over, the last first. -/
  handovers : List Handover

/-- The worker, with the deliveries of the batch it has still to attempt, or the dispatch of an event to one recipient,
with the channels still to queue. -/
inductive Call where
  | dispatch (userId eventId : String) (channels : List String)
  | lookingUp (userId eventId : String) (channels : List String)
  | queueing (userId notificationId : String) (channels : List String)
  | dispatched
  | idle
  | checking (d : Delivery) (rest : List Delivery)
  | cancelling (d : Delivery) (reason : String) (rest : List Delivery)
  | starting (d : Delivery) (rest : List Delivery)
  | sending (d : Delivery) (attemptNo : ℕ) (rest : List Delivery)
  /-- Telegram has not taken the photo. -/
  | sendingPlain (d : Delivery) (attemptNo : ℕ) (rest : List Delivery)
  | accepting (d : Delivery) (attemptNo : ℕ) (rest : List Delivery)
  | recordingSuccess (d : Delivery) (attemptNo : ℕ) (rest : List Delivery)
  | recordingFailure (d : Delivery) (attemptNo : ℕ) (message : String) (rest : List Delivery)
  | failing (d : Delivery) (attemptNo : ℕ) (message : String) (rest : List Delivery)
  deriving DecidableEq

/-- The time that passes before an action and what it is answered with. -/
structure Answer where
  elapsed : ℕ := 0
  /-- The worker is started again. -/
  restart : Bool := false
  /-- The error that the call of the database, or of the provider, throws. -/
  error : Option String := none
  /-- Whether the provider was reached. -/
  handedOver : Bool := true
  /-- Whether there is artwork that may be sent. -/
  photo : Bool := false
  /-- Why there is nothing to send. -/
  reason : Option String := none
  /-- The id a new row is given. -/
  id : String := ""

def isDue (now : Instant) (d : Delivery) : Bool :=
  (d.status = .pending || d.status = .failed) && d.nextAttemptAt.any (· ≤ now)

namespace Store

variable (s : Store)

def tick (elapsed : ℕ) : Store := { s with clock := s.clock + elapsed }

def due : List Delivery :=
  ((s.deliveries.rows.filter (isDue s.clock)).insertionSort fun d e => d.createdAt ≤ e.createdAt).take batch

/-- The provider may not be reached. -/
def handOver (reached : Bool) (h : Handover) : Store :=
  { s with handovers := if reached then h :: s.handovers else s.handovers }

def updateDelivery (id : String) (f : Delivery → Delivery) (hf : ∀ d, (f d).id = d.id := by intro _; rfl) : Store :=
  { s with deliveries := s.deliveries.updateAt id f hf }

end Store

/-- The worker goes on with its batch. -/
def proceed : List Delivery → Call
  | [] => .idle
  | d :: rest => .checking d rest

/-- The dispatch goes on with its channels. -/
def createDelivery (s : Store) (userId notificationId channel id : String) : Option Store :=
  (s.deliveries.insert [{
    id := id
    userId := userId
    notificationId := notificationId
    channelType := channel
    nextAttemptAt := some s.clock
    createdAt := s.clock }]).map fun deliveries => { s with deliveries := deliveries }

def createNotification (s : Store) (userId eventId id : String) : Option Store :=
  (s.notifications.insert [⟨id, userId, eventId⟩]).map fun notifications => { s with notifications := notifications }

/-- One action; `none` where there is none. An id is drawn that no row has. -/
def actAt (s : Store) (call : Call) (answer : Answer) : Option (Store × Call) :=
  match call with
  | .dispatch userId eventId channels =>
    if answer.error.isSome then some (s, .dispatched)
    else if s.notifications.rows.any fun n => n.userId = userId && n.eventId = eventId then
      some (s, .lookingUp userId eventId channels)
    else (createNotification s userId eventId answer.id).map fun s => (s, .queueing userId answer.id channels)
  | .lookingUp userId eventId channels =>
    if answer.error.isSome then some (s, .dispatched)
    else
      match s.notifications.rows.find? fun n => n.userId = userId && n.eventId = eventId with
      | none => some (s, .dispatched)
      | some n => some (s, .queueing userId n.id channels)
  | .queueing userId notificationId channels =>
    match channels with
    | [] => some (s, .dispatched)
    | channel :: rest =>
      -- queuing never throws at the caller
      if answer.error.isSome || s.deliveries.rows.any (fun d => d.notificationId = notificationId && d.channelType = channel)
      then some (s, .queueing userId notificationId rest)
      else (createDelivery s userId notificationId channel answer.id).map fun s => (s, .queueing userId notificationId rest)
  | .dispatched => none
  | .idle => some (s, if answer.error.isSome then .idle else proceed s.due)
  | .checking d rest =>
    some (s, if answer.error.isSome then proceed rest
      else match answer.reason with
        | some reason => .cancelling d reason rest
        | none => .starting d rest)
  | .cancelling d reason rest =>
    some (if answer.error.isSome then s else s.updateDelivery d.id fun row =>
      { row with status := .cancelled, suppressedReason := some reason, nextAttemptAt := none, completedAt := some s.clock },
      proceed rest)
  | .starting d rest =>
    if answer.error.isSome then some (s, proceed rest)
    else some (s.updateDelivery d.id fun row => { row with status := .sending, attempts := d.attempts + 1 },
      .sending d (d.attempts + 1) rest)
  | .sending d attemptNo rest =>
    match answer.reason with
    | some reason => some (s, .cancelling d reason rest)
    | none =>
      let photo := d.channelType = "telegram" && answer.photo
      some (s.handOver answer.handedOver ⟨d.id, attemptNo, s.clock, photo⟩,
        match answer.error with
        -- the words matter more than the picture
        | some message => if photo then .sendingPlain d attemptNo rest else .recordingFailure d attemptNo message rest
        | none => .accepting d attemptNo rest)
  | .sendingPlain d attemptNo rest =>
    some (s.handOver answer.handedOver ⟨d.id, attemptNo, s.clock, false⟩,
      match answer.error with
      | some message => .recordingFailure d attemptNo message rest
      | none => .accepting d attemptNo rest)
  | .accepting d attemptNo rest =>
    match answer.error with
    | some message => some (s, .recordingFailure d attemptNo message rest)
    | none => some (s.updateDelivery d.id fun row =>
        { row with status := .providerAccepted, sentAt := some s.clock, completedAt := some s.clock, lastError := none },
        .recordingSuccess d attemptNo rest)
  | .recordingSuccess d attemptNo rest =>
    some (s, match answer.error with
      | some message => .recordingFailure d attemptNo message rest
      | none => proceed rest)
  | .recordingFailure d attemptNo message rest =>
    some (s, if answer.error.isSome then proceed rest else .failing d attemptNo message rest)
  | .failing d attemptNo message rest =>
    some (if answer.error.isSome then s else s.updateDelivery d.id fun row =>
      { row with
        status := .failed
        lastError := some (.ofList (message.toList.take 500))
        nextAttemptAt := if maxAttempts ≤ attemptNo then none else some (s.clock + backoff attemptNo)
        completedAt := if maxAttempts ≤ attemptNo then some s.clock else none },
      proceed rest)

def Call.isWorker : Call → Bool
  | .dispatch .. | .lookingUp .. | .queueing .. | .dispatched => false
  | _ => true

/-- Time passes, and the worker may be started again. -/
def act (s : Store) (call : Call) (answer : Answer) : Option (Store × Call) :=
  if call.isWorker ∧ answer.restart then some (s.tick answer.elapsed, .idle)
  else actAt (s.tick answer.elapsed) call answer

/-! ### What is so between two actions -/

variable {s s' : Store} {call call' l : Call} {answer : Answer} {d e row : Delivery} {rest rows : List Delivery}
  {handovers : List Handover} {attemptNo : ℕ} {id : String} {f : Delivery → Delivery}

/-- What the row of a delivery says of the times it was handed over. -/
structure Counted (handovers : List Handover) (d : Delivery) : Prop where
  bounded : d.attempts ≤ maxAttempts
  handed : ∀ h ∈ handovers, h.deliveryId = d.id → h.attempt ≤ d.attempts
  waits : ∀ t, d.status = .pending ∨ d.status = .failed → d.nextAttemptAt = some t →
    d.attempts < maxAttempts ∧ ∀ h ∈ handovers, h.deliveryId = d.id → h.sentAt + backoff h.attempt ≤ t

/-- A later hand-over of the same delivery is of a later attempt, after the wait, or the text in place of the photo. -/
def After (later earlier : Handover) : Prop :=
  earlier.attempt < later.attempt ∧ earlier.sentAt + backoff earlier.attempt ≤ later.sentAt ∨
    earlier.attempt = later.attempt ∧ earlier.photo = true ∧ later.photo = false

structure Ledger (s : Store) : Prop where
  counted : ∀ d ∈ s.deliveries.rows, Counted s.handovers d
  known : ∀ h ∈ s.handovers, ∃ d ∈ s.deliveries.rows, d.id = h.deliveryId ∧ (h.photo = true → d.channelType = "telegram")
  numbered : ∀ h ∈ s.handovers, 1 ≤ h.attempt ∧ h.attempt ≤ maxAttempts
  spaced : s.handovers.Pairwise fun later earlier => later.deliveryId = earlier.deliveryId → After later earlier
  channels : ∀ d ∈ s.deliveries.rows, ∀ e ∈ s.deliveries.rows, d.notificationId = e.notificationId →
    d.channelType = e.channelType → d = e
  events : ∀ n ∈ s.notifications.rows, ∀ m ∈ s.notifications.rows, n.userId = m.userId → n.eventId = m.eventId → n = m

/-- The rest of a batch is as it was read. -/
structure Waiting (s : Store) (rest : List Delivery) : Prop where
  nodup : (rest.map Delivery.id).Nodup
  due : ∀ d ∈ rest, d ∈ s.deliveries.rows ∧ isDue s.clock d = true

structure Attempted (s : Store) (d : Delivery) (attemptNo : ℕ) (rest : List Delivery) : Prop where
  waiting : Waiting s rest
  apart : d.id ∉ rest.map Delivery.id
  numbered : 1 ≤ attemptNo ∧ attemptNo ≤ maxAttempts
  row : ∃ row ∈ s.deliveries.rows, row.id = d.id ∧ row.channelType = d.channelType ∧ row.attempts = attemptNo ∧
    row.status ≠ .pending ∧ row.status ≠ .failed
  waited : ∀ h ∈ s.handovers, h.deliveryId = d.id → h.sentAt + backoff h.attempt ≤ s.clock + backoff attemptNo

/-- What the worker may rely on. -/
def Fits (s : Store) : Call → Prop
  | .checking d rest | .starting d rest => Waiting s (d :: rest)
  | .cancelling d _ rest => Waiting s rest ∧ d.id ∉ rest.map Delivery.id
  | .sending d attemptNo rest => Attempted s d attemptNo rest ∧
      ∀ h ∈ s.handovers, h.deliveryId = d.id → h.attempt < attemptNo ∧ h.sentAt + backoff h.attempt ≤ s.clock
  | .sendingPlain d attemptNo rest => Attempted s d attemptNo rest ∧
      ∀ h ∈ s.handovers, h.deliveryId = d.id → After ⟨d.id, attemptNo, s.clock, false⟩ h
  | .accepting d attemptNo rest | .recordingSuccess d attemptNo rest | .recordingFailure d attemptNo _ rest
  | .failing d attemptNo _ rest => Attempted s d attemptNo rest
  | _ => True

theorem backoff_nonneg (attempt : ℕ) : 0 ≤ backoff attempt :=
  Int.mul_nonneg (Int.natCast_nonneg _) (by decide)

theorem isDue_iff {now : Instant} : isDue now d = true ↔
    (d.status = .pending ∨ d.status = .failed) ∧ ∃ t, d.nextAttemptAt = some t ∧ t ≤ now := by
  simp [isDue, Option.any_eq_true]

theorem isDue_mono {now later : Instant} (h : isDue now d = true) (hle : now ≤ later) : isDue later d = true := by
  obtain ⟨hstatus, t, ht, hnow⟩ := isDue_iff.1 h
  exact isDue_iff.2 ⟨hstatus, t, ht, hnow.trans hle⟩

/-- Time passes, and rows are added. -/
structure Grows (s s' : Store) : Prop where
  rows : ∀ d ∈ s.deliveries.rows, d ∈ s'.deliveries.rows
  handovers : s'.handovers = s.handovers
  clock : s.clock ≤ s'.clock

theorem Grows.waiting (h : Grows s s') (hwaiting : Waiting s rest) : Waiting s' rest :=
  ⟨hwaiting.nodup, fun d hd => ⟨h.rows d (hwaiting.due d hd).1, isDue_mono (hwaiting.due d hd).2 h.clock⟩⟩

theorem Grows.attempted (h : Grows s s') (hattempted : Attempted s d attemptNo rest) : Attempted s' d attemptNo rest := by
  obtain ⟨row, hrow, hstate⟩ := hattempted.row
  refine ⟨h.waiting hattempted.waiting, hattempted.apart, hattempted.numbered, ⟨row, h.rows row hrow, hstate⟩, ?_⟩
  rw [h.handovers]
  exact fun handover hmem hid => (hattempted.waited handover hmem hid).trans (Int.add_le_add_right h.clock _)

theorem Grows.fits (h : Grows s s') (hfits : Fits s l) : Fits s' l := by
  cases l with
  | checking | starting => exact h.waiting hfits
  | cancelling => exact ⟨h.waiting hfits.1, hfits.2⟩
  | sending =>
    refine ⟨h.attempted hfits.1, ?_⟩
    rw [h.handovers]
    exact fun handover hmem hid => ⟨(hfits.2 handover hmem hid).1, (hfits.2 handover hmem hid).2.trans h.clock⟩
  | sendingPlain =>
    refine ⟨h.attempted hfits.1, ?_⟩
    rw [h.handovers]
    exact fun handover hmem hid => (hfits.2 handover hmem hid).imp_left fun hlater => ⟨hlater.1, hlater.2.trans h.clock⟩
  | accepting | recordingSuccess | recordingFailure | failing => exact h.attempted hfits
  | _ => trivial

/-! ### What one action does -/

theorem Waiting.tail (h : Waiting s (d :: rest)) : Waiting s rest ∧ d.id ∉ rest.map Delivery.id := by
  obtain ⟨hapart, hnodup⟩ := List.nodup_cons.1 h.nodup
  exact ⟨⟨hnodup, fun e he => h.due e (List.mem_cons_of_mem d he)⟩, hapart⟩

theorem proceed_fits (h : Waiting s rest) : Fits s (proceed rest) := by
  cases rest with
  | nil => trivial
  | cons d rest => exact h

theorem proceed_isWorker : (proceed rest).isWorker = true := by
  cases rest <;> rfl

theorem due_waiting (s : Store) : Waiting s s.due := by
  have hsub : s.due.Sublist ((s.deliveries.rows.filter (isDue s.clock)).insertionSort fun d e => d.createdAt ≤ e.createdAt) :=
    List.take_sublist batch _
  have hperm := List.perm_insertionSort (fun d e : Delivery => d.createdAt ≤ e.createdAt) (s.deliveries.rows.filter (isDue s.clock))
  refine ⟨?_, fun d hd => List.mem_filter.1 (hperm.mem_iff.1 (hsub.subset hd))⟩
  have hnodup : ((s.deliveries.rows.filter (isDue s.clock)).map Delivery.id).Nodup :=
    s.deliveries.nodup.sublist (List.filter_sublist.map Delivery.id)
  exact ((hperm.map Delivery.id).nodup_iff.2 hnodup).sublist (hsub.map Delivery.id)

theorem mem_updateDelivery {hf : ∀ d, (f d).id = d.id} : row ∈ (s.updateDelivery id f hf).deliveries.rows ↔
    ∃ d ∈ s.deliveries.rows, (if d.id = id then f d else d) = row := List.mem_map

theorem mem_updateDelivery_of_ne {hf : ∀ d, (f d).id = d.id} (hd : d ∈ s.deliveries.rows) (hid : d.id ≠ id) :
    d ∈ (s.updateDelivery id f hf).deliveries.rows := mem_updateDelivery.2 ⟨d, hd, if_neg hid⟩

theorem Waiting.update {hf : ∀ d, (f d).id = d.id} (h : Waiting s rest) (hapart : id ∉ rest.map Delivery.id) :
    Waiting (s.updateDelivery id f hf) rest := by
  refine ⟨h.nodup, fun d hd => ⟨mem_updateDelivery_of_ne (h.due d hd).1 ?_, (h.due d hd).2⟩⟩
  rintro rfl
  exact hapart (List.mem_map_of_mem hd)

/-- A change to one row, which leaves what it is a delivery of. -/
theorem Ledger.update {hf : ∀ d, (f d).id = d.id} (h : Ledger s)
    (hkept : ∀ d, (f d).notificationId = d.notificationId ∧ (f d).channelType = d.channelType)
    (hcounted : ∀ d ∈ s.deliveries.rows, d.id = id → Counted s.handovers (f d)) : Ledger (s.updateDelivery id f hf) := by
  have hsame : ∀ d, (if d.id = id then f d else d).notificationId = d.notificationId ∧
      (if d.id = id then f d else d).channelType = d.channelType := by
    intro d
    split_ifs
    · exact hkept d
    · exact ⟨rfl, rfl⟩
  refine ⟨fun row hrow => ?_, fun handover hmem => ?_, h.numbered, h.spaced, fun d hd e he hnotification hchannel => ?_, h.events⟩
  · obtain ⟨d, hd, rfl⟩ := mem_updateDelivery.1 hrow
    split_ifs with hid
    · exact hcounted d hd hid
    · exact h.counted d hd
  · obtain ⟨d, hd, hid, hphoto⟩ := h.known handover hmem
    refine ⟨_, mem_updateDelivery.2 ⟨d, hd, rfl⟩, ?_, fun h => (hsame d).2.trans (hphoto h)⟩
    split_ifs
    · exact (hf d).trans hid
    · exact hid
  · obtain ⟨d₀, hd₀, rfl⟩ := mem_updateDelivery.1 hd
    obtain ⟨e₀, he₀, rfl⟩ := mem_updateDelivery.1 he
    rw [(hsame d₀).1, (hsame e₀).1] at hnotification
    rw [(hsame d₀).2, (hsame e₀).2] at hchannel
    rw [h.channels d₀ hd₀ e₀ he₀ hnotification hchannel]

theorem Counted.settle (h : Counted handovers d) (hid : row.id = d.id) (hattempts : row.attempts = d.attempts)
    (hstatus : row.nextAttemptAt = none ∨ row.status ≠ .pending ∧ row.status ≠ .failed) : Counted handovers row := by
  refine ⟨hattempts ▸ h.bounded, fun handover hmem heq => hattempts ▸ h.handed handover hmem (heq.trans hid), fun t ht hnext => ?_⟩
  rcases hstatus with hnone | ⟨hpending, hfailed⟩
  · rw [hnone] at hnext
    cases hnext
  · rcases ht with ht | ht
    · exact absurd ht hpending
    · exact absurd ht hfailed

theorem Grows.tick (s : Store) (elapsed : ℕ) : Grows s (s.tick elapsed) :=
  ⟨fun _ h => h, rfl, Int.le_add_of_nonneg_right (Int.natCast_nonneg _)⟩

theorem Ledger.tick (h : Ledger s) (elapsed : ℕ) : Ledger (s.tick elapsed) :=
  ⟨h.counted, h.known, h.numbered, h.spaced, h.channels, h.events⟩

theorem createNotification_ledger {userId eventId : String} (hledger : Ledger s)
    (hnew : ∀ n ∈ s.notifications.rows, n.userId = userId → n.eventId ≠ eventId)
    (h : createNotification s userId eventId id = some s') : Ledger s' ∧ Grows s s' := by
  obtain ⟨notifications, hinsert, rfl⟩ := Option.map_eq_some_iff.1 h
  refine ⟨⟨hledger.counted, hledger.known, hledger.numbered, hledger.spaced, hledger.channels, ?_⟩, fun _ h => h, rfl, le_rfl⟩
  intro n hn m hm huser hevent
  rw [Table.rows_of_insert hinsert, List.mem_append, List.mem_singleton] at hn hm
  rcases hn with hn | rfl <;> rcases hm with hm | rfl
  · exact hledger.events n hn m hm huser hevent
  · exact absurd hevent (hnew n hn huser)
  · exact absurd hevent.symm (hnew m hm huser.symm)
  · rfl

theorem createDelivery_ledger {userId notificationId channel : String} (hledger : Ledger s)
    (hnew : ∀ d ∈ s.deliveries.rows, d.notificationId = notificationId → d.channelType ≠ channel)
    (h : createDelivery s userId notificationId channel id = some s') : Ledger s' ∧ Grows s s' := by
  obtain ⟨deliveries, hinsert, rfl⟩ := Option.map_eq_some_iff.1 h
  have hrows := Table.rows_of_insert hinsert
  have hold : ∀ d ∈ s.deliveries.rows, d ∈ deliveries.rows := fun d hd => hrows ▸ List.mem_append_left _ hd
  refine ⟨⟨fun d hd => ?_, fun handover hmem => ?_, hledger.numbered, hledger.spaced, ?_, hledger.events⟩, hold, rfl, le_rfl⟩
  · rw [hrows, List.mem_append, List.mem_singleton] at hd
    rcases hd with hd | rfl
    · exact hledger.counted d hd
    · -- the id is new, so nothing was handed over under it
      have hnone : ∀ handover ∈ s.handovers, handover.deliveryId ≠ id := by
        rintro handover hmem rfl
        obtain ⟨d, hd, hid, -⟩ := hledger.known handover hmem
        have hfree := Table.find_eq_none_of_insert hinsert List.mem_cons_self
        rw [← hid, Table.find_key hd] at hfree
        cases hfree
      exact ⟨Nat.zero_le _, fun handover hmem hid => absurd hid (hnone handover hmem),
        fun t _ _ => ⟨Nat.zero_lt_succ 2, fun handover hmem hid => absurd hid (hnone handover hmem)⟩⟩
  · obtain ⟨d, hd, hid⟩ := hledger.known handover hmem
    exact ⟨d, hold d hd, hid⟩
  · intro d hd e he hnotification hchannel
    rw [hrows, List.mem_append, List.mem_singleton] at hd he
    rcases hd with hd | rfl <;> rcases he with he | rfl
    · exact hledger.channels d hd e he hnotification hchannel
    · exact absurd hchannel (hnew d hd hnotification)
    · exact absurd hchannel.symm (hnew e he hnotification.symm)
    · rfl

theorem dispatch_grows (hledger : Ledger s) (hcall : call.isWorker = false) (h : actAt s call answer = some (s', call')) :
    Ledger s' ∧ Grows s s' ∧ call'.isWorker = false := by
  have hsame : Ledger s ∧ Grows s s := ⟨hledger, fun _ h => h, rfl, le_rfl⟩
  cases call with
  | dispatch userId eventId channels =>
    dsimp only [actAt] at h
    split_ifs at h with herror htaken
    · cases h
      exact ⟨hsame.1, hsame.2, rfl⟩
    · cases h
      exact ⟨hsame.1, hsame.2, rfl⟩
    · obtain ⟨created, hcreate, heq⟩ := Option.map_eq_some_iff.1 h
      cases heq
      have hnew : ∀ n ∈ s.notifications.rows, n.userId = userId → n.eventId ≠ eventId := by simpa using htaken
      obtain ⟨hledger', hgrows⟩ := createNotification_ledger hledger hnew hcreate
      exact ⟨hledger', hgrows, rfl⟩
  | lookingUp userId eventId channels =>
    dsimp only [actAt] at h
    split_ifs at h
    · cases h
      exact ⟨hsame.1, hsame.2, rfl⟩
    · split at h <;> cases h <;> exact ⟨hsame.1, hsame.2, rfl⟩
  | queueing userId notificationId channels =>
    cases channels with
    | nil =>
      cases h
      exact ⟨hsame.1, hsame.2, rfl⟩
    | cons channel rest =>
      dsimp only [actAt] at h
      split_ifs at h with htaken
      · cases h
        exact ⟨hsame.1, hsame.2, rfl⟩
      · obtain ⟨created, hcreate, heq⟩ := Option.map_eq_some_iff.1 h
        cases heq
        have hnew : ∀ d ∈ s.deliveries.rows, d.notificationId = notificationId → d.channelType ≠ channel := by
          simp only [Bool.or_eq_true, List.any_eq_true, Bool.and_eq_true, decide_eq_true_eq, not_or, not_exists, not_and] at htaken
          exact htaken.2
        obtain ⟨hledger', hgrows⟩ := createDelivery_ledger hledger hnew hcreate
        exact ⟨hledger', hgrows, rfl⟩
  | dispatched => cases h
  | _ => cases hcall

theorem handOver_cases {reached : Bool} {handover last : Handover} (h : handover ∈ (s.handOver reached last).handovers) :
    handover = last ∨ handover ∈ s.handovers := by
  cases reached with
  | false => exact .inr h
  | true => exact List.mem_cons.1 h

theorem Ledger.handOver (photo reached : Bool) (hledger : Ledger s) (hattempted : Attempted s d attemptNo rest)
    (hphoto : photo = true → d.channelType = "telegram")
    (hafter : ∀ h ∈ s.handovers, h.deliveryId = d.id → After ⟨d.id, attemptNo, s.clock, photo⟩ h) :
    Ledger (s.handOver reached ⟨d.id, attemptNo, s.clock, photo⟩) ∧
      Attempted (s.handOver reached ⟨d.id, attemptNo, s.clock, photo⟩) d attemptNo rest := by
  obtain ⟨row, hrow, hid, hchannel, hattempts, hpending, hfailed⟩ := hattempted.row
  cases reached with
  | false => exact ⟨hledger, hattempted⟩
  | true =>
    refine ⟨⟨fun other hother => ?_, ?_, ?_, ?_, hledger.channels, hledger.events⟩,
      ⟨hattempted.waiting.nodup, hattempted.waiting.due⟩, hattempted.apart, hattempted.numbered, hattempted.row, ?_⟩
    · by_cases hsame : other.id = d.id
      · rw [Table.eq_of_key hother hrow (hsame.trans hid.symm)]
        refine ⟨(hledger.counted row hrow).bounded, fun handover hmem heq => ?_, fun t ht _ => ?_⟩
        · rcases List.mem_cons.1 hmem with rfl | hmem
          · exact hattempts.ge
          · exact (hledger.counted row hrow).handed handover hmem heq
        · rcases ht with ht | ht
          · exact absurd ht hpending
          · exact absurd ht hfailed
      · obtain ⟨hbounded, hhanded, hwaits⟩ := hledger.counted other hother
        refine ⟨hbounded, fun handover hmem heq => ?_, fun t ht hnext => ⟨(hwaits t ht hnext).1, fun handover hmem heq => ?_⟩⟩ <;>
          rcases List.mem_cons.1 hmem with rfl | hmem
        · exact absurd heq.symm hsame
        · exact hhanded handover hmem heq
        · exact absurd heq.symm hsame
        · exact (hwaits t ht hnext).2 handover hmem heq
    · exact List.forall_mem_cons.2 ⟨⟨row, hrow, hid, fun h => hchannel.trans (hphoto h)⟩, hledger.known⟩
    · exact List.forall_mem_cons.2 ⟨hattempted.numbered, hledger.numbered⟩
    · exact List.pairwise_cons.2 ⟨fun earlier hmem heq => hafter earlier hmem heq.symm, hledger.spaced⟩
    · exact List.forall_mem_cons.2 ⟨fun _ => le_rfl, hattempted.waited⟩

/-- An attempt begins: it is a later one than all before it, and their waits are over. -/
theorem Ledger.start (hledger : Ledger s) (h : Waiting s (d :: rest)) :
    Ledger (s.updateDelivery d.id fun row => { row with status := .sending, attempts := d.attempts + 1 }) ∧
      Fits (s.updateDelivery d.id fun row => { row with status := .sending, attempts := d.attempts + 1 })
        (.sending d (d.attempts + 1) rest) := by
  obtain ⟨hrest, hapart⟩ := h.tail
  obtain ⟨hrow, hdue⟩ := h.due d List.mem_cons_self
  have hcounted := hledger.counted d hrow
  obtain ⟨hstatus, t, hnext, ht⟩ := isDue_iff.1 hdue
  obtain ⟨hless, hwaited⟩ := hcounted.waits t hstatus hnext
  refine ⟨hledger.update (fun _ => ⟨rfl, rfl⟩) fun row hrow' hid => ?_, ⟨hrest.update hapart, hapart, ⟨by omega, hless⟩,
    ⟨_, mem_updateDelivery.2 ⟨d, hrow, if_pos rfl⟩, rfl, rfl, rfl, nofun, nofun⟩, ?_⟩, ?_⟩
  · rw [Table.eq_of_key hrow' hrow hid]
    refine ⟨hless, fun handover hmem heq => (hcounted.handed handover hmem heq).trans (Nat.le_succ _), fun t ht _ => ?_⟩
    rcases ht with ht | ht <;> cases ht
  · exact fun handover hmem hid => ((hwaited handover hmem hid).trans ht).trans (Int.le_add_of_nonneg_right (backoff_nonneg _))
  · exact fun handover hmem hid => ⟨Nat.lt_succ_of_le (hcounted.handed handover hmem hid), (hwaited handover hmem hid).trans ht⟩

/-- An attempt fails, and another one is left to wait for. -/
theorem Ledger.fail {message : String} (hledger : Ledger s) (h : Attempted s d attemptNo rest)
    (hleft : ¬maxAttempts ≤ attemptNo) : Ledger (s.updateDelivery d.id fun row =>
      { row with
        status := .failed
        lastError := some (.ofList (message.toList.take 500))
        nextAttemptAt := some (s.clock + backoff attemptNo)
        completedAt := none }) := by
  obtain ⟨row, hrow, hid, -, hattempts, -⟩ := h.row
  refine hledger.update (fun _ => ⟨rfl, rfl⟩) fun other hother hsame => ?_
  rw [Table.eq_of_key hother hrow (hsame.trans hid.symm)]
  have hcounted := hledger.counted row hrow
  refine ⟨hcounted.bounded, hcounted.handed, fun t _ hnext => ?_⟩
  cases hnext
  refine ⟨?_, fun handover hmem heq => h.waited handover hmem (heq.trans hid)⟩
  dsimp only
  omega

theorem worker_fits (hledger : Ledger s) (hfits : Fits s call) (hcall : call.isWorker = true)
    (h : actAt s call answer = some (s', call')) : Ledger s' ∧ Fits s' call' ∧ call'.isWorker = true := by
  cases call with
  | dispatch | lookingUp | queueing | dispatched => cases hcall
  | idle =>
    cases h
    split_ifs
    · exact ⟨hledger, trivial, rfl⟩
    · exact ⟨hledger, proceed_fits (due_waiting s), proceed_isWorker⟩
  | checking d rest =>
    obtain ⟨hrest, hapart⟩ := hfits.tail
    cases h
    split_ifs
    · exact ⟨hledger, proceed_fits hrest, proceed_isWorker⟩
    · split
      · exact ⟨hledger, ⟨hrest, hapart⟩, rfl⟩
      · exact ⟨hledger, hfits, rfl⟩
  | cancelling d reason rest =>
    obtain ⟨hrest, hapart⟩ := hfits
    cases h
    split_ifs
    · exact ⟨hledger, proceed_fits hrest, proceed_isWorker⟩
    · refine ⟨hledger.update (fun _ => ⟨rfl, rfl⟩) fun row hrow _ => ?_, proceed_fits (hrest.update hapart), proceed_isWorker⟩
      exact (hledger.counted row hrow).settle rfl rfl (.inl rfl)
  | starting d rest =>
    dsimp only [actAt] at h
    split_ifs at h
    · cases h
      exact ⟨hledger, proceed_fits hfits.tail.1, proceed_isWorker⟩
    · cases h
      obtain ⟨hledger', hfits'⟩ := hledger.start hfits
      exact ⟨hledger', hfits', rfl⟩
  | sending d attemptNo rest =>
    obtain ⟨hattempted, hbefore⟩ := hfits
    dsimp only [actAt] at h
    split at h
    · cases h
      exact ⟨hledger, ⟨hattempted.waiting, hattempted.apart⟩, rfl⟩
    · generalize hphoto : (decide (d.channelType = "telegram") && answer.photo) = photo at h
      cases h
      obtain ⟨hledger', hattempted'⟩ := hledger.handOver photo answer.handedOver hattempted
        (fun h => of_decide_eq_true (Bool.and_eq_true_iff.1 (hphoto.trans h)).1)
        fun earlier hmem hid => .inl (hbefore earlier hmem hid)
      refine ⟨hledger', ?_⟩
      cases answer.error with
      | none => exact ⟨hattempted', rfl⟩
      | some message =>
        cases photo with
        | false => exact ⟨hattempted', rfl⟩
        | true =>
          refine ⟨⟨hattempted', fun handover hmem hid => ?_⟩, rfl⟩
          rcases handOver_cases hmem with rfl | hmem
          · exact .inr ⟨rfl, rfl, rfl⟩
          · exact .inl (hbefore handover hmem hid)
  | sendingPlain d attemptNo rest =>
    obtain ⟨hledger', hattempted'⟩ := hledger.handOver false answer.handedOver hfits.1 nofun hfits.2
    cases h
    refine ⟨hledger', ?_⟩
    cases answer.error <;> exact ⟨hattempted', rfl⟩
  | accepting d attemptNo rest =>
    obtain ⟨row, hrow, hid, hchannel, hattempts, hpending, hfailed⟩ := hfits.row
    dsimp only [actAt] at h
    split at h
    · cases h
      exact ⟨hledger, hfits, rfl⟩
    · cases h
      refine ⟨hledger.update (fun _ => ⟨rfl, rfl⟩) fun other hother _ => ?_, ⟨hfits.waiting.update hfits.apart, hfits.apart,
        hfits.numbered, ⟨_, mem_updateDelivery.2 ⟨row, hrow, if_pos hid⟩, hid, hchannel, hattempts, nofun, nofun⟩, hfits.waited⟩, rfl⟩
      exact (hledger.counted other hother).settle rfl rfl (.inr ⟨nofun, nofun⟩)
  | recordingSuccess d attemptNo rest =>
    cases h
    split
    · exact ⟨hledger, hfits, rfl⟩
    · exact ⟨hledger, proceed_fits hfits.waiting, proceed_isWorker⟩
  | recordingFailure d attemptNo message rest =>
    cases h
    split_ifs
    · exact ⟨hledger, proceed_fits hfits.waiting, proceed_isWorker⟩
    · exact ⟨hledger, hfits, rfl⟩
  | failing d attemptNo message rest =>
    cases h
    split_ifs with herror hexhausted
    · exact ⟨hledger, proceed_fits hfits.waiting, proceed_isWorker⟩
    · refine ⟨hledger.update (fun _ => ⟨rfl, rfl⟩) fun other hother _ => ?_, proceed_fits (hfits.waiting.update hfits.apart),
        proceed_isWorker⟩
      exact (hledger.counted other hother).settle rfl rfl (.inl rfl)
    · exact ⟨hledger.fail hfits hexhausted, proceed_fits (hfits.waiting.update hfits.apart), proceed_isWorker⟩

/-! ### Runs -/

variable {ι : Type*} [DecidableEq ι] {allowed : Config ι Store Call → ι → Prop} {start c : Config ι Store Call}

/-- At most one of them is the worker. -/
def OneWorker (k l : Call) : Prop := k.isWorker = false ∨ l.isWorker = false

theorem fits_of_dispatch (h : l.isWorker = false) : Fits s l := by
  cases l with
  | dispatch | lookingUp | queueing | dispatched => trivial
  | _ => cases h

theorem run_ledger (hstart : Inv Ledger Fits OneWorker start) (h : Run act allowed start c) : Inv Ledger Fits OneWorker c := by
  refine h.invariant hstart ?_
  intro c i answer s k hinv _ hact
  have hsymm : ∀ k l, OneWorker k l → OneWorker l k := fun _ _ => Or.symm
  have hgrows := Grows.tick c.store answer.elapsed
  have hledger := hinv.store.tick answer.elapsed
  unfold act at hact
  cases hworker : (c.call i).isWorker with
  | true =>
    -- the others are dispatches, which rely on nothing
    have hothers : ∀ j, j ≠ i → (c.call j).isWorker = false := by
      intro j hj
      rcases hinv.pair i j hj.symm with hi | hj
      · rw [hworker] at hi
        cases hi
      · exact hj
    have hnext : Ledger s ∧ Fits s k := by
      split_ifs at hact
      · cases hact
        exact ⟨hledger, trivial⟩
      · obtain ⟨hledger', hfits, -⟩ := worker_fits hledger (hgrows.fits (hinv.call i)) hworker hact
        exact ⟨hledger', hfits⟩
    exact hinv.update hsymm hnext.1 hnext.2 fun j hj => ⟨fits_of_dispatch (hothers j hj), .inr (hothers j hj)⟩
  | false =>
    rw [if_neg (by simp [hworker])] at hact
    obtain ⟨hledger', hgrows', hk⟩ := dispatch_grows hledger hworker hact
    have hgrown : Grows c.store s := ⟨fun d hd => hgrows'.rows d hd, hgrows'.handovers, hgrows.clock.trans hgrows'.clock⟩
    exact hinv.update hsymm hledger' (fits_of_dispatch hk) fun j _ => ⟨hgrown.fits (hinv.call j), .inl hk⟩

/-- What was handed over for one event to one person through one channel. -/
def handedOver (s : Store) (userId eventId channel : String) : List Handover := s.handovers.filter fun h =>
  s.deliveries.rows.any fun d => d.id = h.deliveryId && d.channelType = channel &&
    s.notifications.rows.any fun n => n.id = d.notificationId && n.userId = userId && n.eventId = eventId

/-- They are of one delivery. -/
theorem Ledger.one_delivery (h : Ledger s) {userId eventId channel : String} {a b : Handover}
    (ha : a ∈ handedOver s userId eventId channel) (hb : b ∈ handedOver s userId eventId channel) :
    a.deliveryId = b.deliveryId := by
  simp only [handedOver, List.mem_filter, List.any_eq_true, Bool.and_eq_true, decide_eq_true_eq] at ha hb
  obtain ⟨-, d, hd, ⟨hda, hdc⟩, n, hn, ⟨hnd, hnu⟩, hne⟩ := ha
  obtain ⟨-, e, he, ⟨heb, hec⟩, m, hm, ⟨hme, hmu⟩, hmv⟩ := hb
  have hnm := h.events n hn m hm (hnu.trans hmu.symm) (hne.trans hmv.symm)
  have hde := h.channels d hd e he (by rw [← hnd, ← hme, hnm]) (hdc.trans hec.symm)
  rw [← hda, ← heb, hde]

/-- What there is to begin with: dispatches, and the worker between two ticks. -/
def isEntry : Call → Bool
  | .dispatch .. | .idle => true
  | _ => false

/-- Those of one kind are at most three. -/
theorem Ledger.length_le (h : Ledger s) {sent : List Handover} (photo : Bool) (hsent : ∀ a ∈ sent, a ∈ s.handovers)
    (hafter : sent.Pairwise After) : (sent.filter (·.photo = photo)).length ≤ maxAttempts := by
  have hkind : ∀ a ∈ sent.filter (·.photo = photo), a ∈ sent ∧ a.photo = photo := fun a ha => by simpa using ha
  have hless : (sent.filter (·.photo = photo)).Pairwise fun later earlier => later.attempt ≠ earlier.attempt := by
    refine (hafter.sublist List.filter_sublist).imp_of_mem fun {later earlier} hlater hearlier hab => ?_
    rcases hab with ⟨hlt, -⟩ | ⟨-, hphoto, htext⟩
    · exact (Nat.ne_of_lt hlt).symm
    · rw [(hkind later hlater).2] at htext
      rw [(hkind earlier hearlier).2, htext] at hphoto
      cases hphoto
  have hrange : (sent.filter (·.photo = photo)).map Handover.attempt ⊆ [1, 2, 3] := by
    intro attempt hattempt
    obtain ⟨handover, hmem, rfl⟩ := List.mem_map.1 hattempt
    obtain ⟨hone, hmax⟩ := h.numbered handover (hsent handover (hkind handover hmem).1)
    unfold maxAttempts at hmax
    simp only [List.mem_cons, List.not_mem_nil, or_false]
    omega
  have hle := (List.subperm_of_subset (List.pairwise_map.2 hless) hrange).length_le
  rwa [List.length_map] at hle

/-- What a person is sent of one event through one channel: at most three texts and, through Telegram, three photos;
each is of a later attempt than the one before, after the wait, or the text in place of a photo. -/
def Limited (channel : String) (sent : List Handover) : Prop :=
  (∀ photo, (sent.filter (·.photo = photo)).length ≤ maxAttempts) ∧
    (channel ≠ "telegram" → ∀ h ∈ sent, h.photo = false) ∧ sent.Pairwise After

/-- Whatever fails, and however often the same event is dispatched. -/
theorem run_handedOver (hledger : Ledger start.store) (hentry : ∀ i, isEntry (start.call i) = true)
    (hone : ∀ i j, i ≠ j → OneWorker (start.call i) (start.call j)) (h : Run act allowed start c)
    (userId eventId channel : String) : Limited channel (handedOver c.store userId eventId channel) := by
  have hfits : ∀ i, Fits start.store (start.call i) := by
    intro i
    have hi := hentry i
    cases hcall : start.call i with
    | dispatch | idle => trivial
    | _ =>
      rw [hcall] at hi
      cases hi
  have hledger := (run_ledger ⟨hledger, hfits, hone⟩ h).store
  have hafter : (handedOver c.store userId eventId channel).Pairwise After := by
    have hspaced := hledger.spaced.sublist (List.filter_sublist (p := fun h =>
      c.store.deliveries.rows.any fun d => d.id = h.deliveryId && d.channelType = channel &&
        c.store.notifications.rows.any fun n => n.id = d.notificationId && n.userId = userId && n.eventId = eventId))
    exact hspaced.imp_of_mem fun ha hb hspaced => hspaced (hledger.one_delivery ha hb)
  refine ⟨fun photo => hledger.length_le photo (fun a ha => List.mem_of_mem_filter ha) hafter, fun hchannel a ha => ?_, hafter⟩
  by_contra hphoto
  rw [Bool.not_eq_false] at hphoto
  obtain ⟨d, hd, hid, htelegram⟩ := hledger.known a (List.mem_of_mem_filter ha)
  simp only [handedOver, List.mem_filter, List.any_eq_true, Bool.and_eq_true, decide_eq_true_eq] at ha
  obtain ⟨-, e, he, ⟨hea, hec⟩, -⟩ := ha
  rw [Table.eq_of_key he hd (hea.trans hid.symm), htelegram hphoto] at hec
  exact hchannel hec.symm

/-- One event dispatched twice to one person, and the worker. -/
def redelivered : Config (Fin 3) Store Call where
  store := { clock := 0, notifications := ⟨[], List.nodup_nil⟩, deliveries := ⟨[], List.nodup_nil⟩, handovers := [] }
  call := fun i => if i.val = 2 then .idle else .dispatch "user" "event" ["telegram"]

theorem redelivered_ledger : Ledger redelivered.store where
  counted _ hd := absurd hd List.not_mem_nil
  known _ hh := absurd hh List.not_mem_nil
  numbered _ hh := absurd hh List.not_mem_nil
  spaced := .nil
  channels _ hd := absurd hd List.not_mem_nil
  events _ hn := absurd hn List.not_mem_nil

/-- The answer about the photo is lost, that about the text too, and the worker is restarted before it tries again. -/
theorem redelivered_handedOver : ∃ c, Run act (fun _ _ => True) redelivered c ∧
    (handedOver c.store "user" "event" "telegram").map (fun h => (h.attempt, h.photo)) = [(2, true), (1, false), (1, true)] ∧
    Limited "telegram" (handedOver c.store "user" "event" "telegram") := by
  obtain ⟨c, hrun, hattempts⟩ := run_of_exec_any act (fun _ _ => True) redelivered
    [(0, { id := "n" }), (1, {}), (0, { id := "d" }), (1, {}), (1, {}), (2, {}), (2, {}), (2, {}),
      (2, { error := some "lost", photo := true }), (2, { error := some "lost" }), (2, {}), (2, {}), (2, { restart := true }),
      (2, { elapsed := 59999 }), (2, { elapsed := 1 }), (2, {}), (2, {}), (2, { photo := true })]
    (fun c => (handedOver c.store "user" "event" "telegram").map (fun h => (h.attempt, h.photo)) =
      [(2, true), (1, false), (1, true)]) (by decide +kernel)
  have hone : ∀ i j, i ≠ j → OneWorker (redelivered.call i) (redelivered.call j) := by
    unfold OneWorker
    decide
  exact ⟨c, hrun, of_decide_eq_true hattempts,
    run_handedOver redelivered_ledger (by decide) hone hrun "user" "event" "telegram"⟩

end UltraTorrent.Notifications.Deliveries
