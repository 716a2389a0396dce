import Mathlib.Data.Fintype.Basic
import Mathlib.Data.List.Nodup
import UltraTorrent.Library.Interleaving

/-! The numbering of a job's events. The counter is kept in memory, is seeded from the table by a read
that other calls may overtake, and is forgotten when a run of the job ends; the table refuses a
number it has. -/
namespace UltraTorrent.Jobs.JobEvents

open Library Library.Interleaving

variable {ι : Type*}

/-- A row of `platform_job_events`, by the call that stored it; `none` stands for earlier ones. -/
structure PlatformJobEvent (ι : Type*) where
  sequence : ℕ
  call : Option ι
  deriving DecidableEq

/-- The job's entry in the cache of the process, and the job's rows. -/
structure Numbering (ι : Type*) where
  seq : Option ℕ
  rows : List (PlatformJobEvent ι)

namespace Numbering

def sequences (s : Numbering ι) : List ℕ := s.rows.map (·.sequence)

/-- The number of the last row, and zero while there is none. -/
def last (s : Numbering ι) : ℕ := s.sequences.max?.getD 0

end Numbering

/-- Where a call stands. -/
inductive Call (ι : Type*) where
  /-- About to look at the cache. -/
  | recordEvent (call : ι)
  /-- Not cached: about to read the last row. -/
  | find (call : ι)
  /-- The last row has been read, and nothing done about it. -/
  | found (call : ι) (last : ℕ)
  /-- It has its number, and is about to create its row. -/
  | create (call : ι) (sequence : ℕ)
  | done
  /-- The `finally` of `runHandler`. -/
  | leave
  | left
  deriving DecidableEq

/-- The unique index refuses a number twice, and the refusal is swallowed. -/
def Numbering.create (s : Numbering ι) (call : ι) (sequence : ℕ) : Numbering ι :=
  if sequence ∈ s.sequences then s else { s with rows := ⟨sequence, some call⟩ :: s.rows }

/-- One step of a call. -/
def act (s : Numbering ι) : Call ι → Unit → Option (Numbering ι × Call ι)
  | .recordEvent call, _ =>
    match s.seq with
    | none => some (s, .find call)
    | some n => some ({ s with seq := some (n + 1) }, .create call (n + 1))
  | .find call, _ => some (s, .found call s.last)
  | .found call last, _ => some ({ s with seq := some (last + 1) }, .create call (last + 1))
  | .create call sequence, _ => some (s.create call sequence, .done)
  | .leave, _ => some ({ s with seq := none }, .left)
  | .done, _ => none
  | .left, _ => none

namespace Call

/-- The number a call is about to store. -/
def holds : Call ι → Option ℕ
  | .create _ sequence => some sequence
  | _ => none

def seeds : Call ι → Option ℕ
  | .found _ last => some last
  | _ => none

def owner : Call ι → Option ι
  | .recordEvent call | .find call | .found call _ | .create call _ => some call
  | .done | .leave | .left => none

def stored : Call ι → ℕ
  | .done => 1
  | _ => 0

end Call

abbrev Config (ι : Type*) := Interleaving.Config ι (Numbering ι) (Call ι)

/-- The cache is read while another call is seeding it, or the table is read while another call is
seeding the cache or about to store a number beyond the last row. -/
def disturbs (s : Numbering ι) (k l : Call ι) : Bool :=
  match k with
  | .recordEvent _ => s.seq.isSome && l.seeds.isSome
  | .find _ => l.seeds.isSome || l.holds.any (s.last < ·)
  | _ => false

def Undisturbed (c : Config ι) (i : ι) : Prop := ∀ j, disturbs c.store (c.call i) (c.call j) = false

instance [Fintype ι] (c : Config ι) (i : ι) : Decidable (Undisturbed c i) :=
  inferInstanceAs (Decidable (∀ j, disturbs c.store (c.call i) (c.call j) = false))

/-! ### What holds of a run -/

/-- The last number given out is `top`. -/
def Bounded (top : ℕ) (s : Numbering ι) : Prop :=
  (∀ n ∈ s.seq, n = top) ∧ (∀ n ∈ s.sequences, n ≤ top) ∧ s.sequences.Nodup

def Fresh (top : ℕ) (s : Numbering ι) (k : Call ι) : Prop :=
  (∀ n ∈ k.holds, n ≤ top ∧ n ∉ s.sequences) ∧ ∀ last ∈ k.seeds, last = top

def Apart (k l : Call ι) : Prop := (∀ n ∈ k.holds, n ∉ l.holds) ∧ (k.seeds = none ∨ l.seeds = none)

/-- The numbers beyond `base` have gone to calls or rows one by one. -/
def Reached (base top : ℕ) (c : Config ι) : Prop :=
  base ≤ c.store.last ∧
    ∀ n, base < n → n ≤ top → n ∈ c.store.sequences ∨ ∃ j, n ∈ (c.call j).holds

def Numbered (base : ℕ) (c : Config ι) : Prop :=
  ∃ top, Inv (Bounded top) (Fresh top) Apart c ∧ Reached base top c

variable {s s' : Numbering ι} {k k' l : Call ι} {base top : ℕ} {u : Unit}

theorem Apart.symm (k l : Call ι) (h : Apart k l) : Apart l k :=
  ⟨fun n hl hk => h.1 n hk hl, h.2.symm⟩

theorem le_last {n : ℕ} (h : n ∈ s.sequences) : n ≤ s.last := by
  cases hmax : s.sequences.max? with
  | none =>
    rw [List.max?_eq_none_iff.1 hmax] at h
    cases h
  | some top =>
    rw [Numbering.last, hmax]
    exact (List.max?_eq_some_iff.1 hmax).2 n h

theorem last_mem : s.last = 0 ∨ s.last ∈ s.sequences := by
  cases hmax : s.sequences.max? with
  | none => exact .inl (by rw [Numbering.last, hmax, Option.getD_none])
  | some top =>
    rw [Numbering.last, hmax, Option.getD_some]
    exact .inr (List.max?_eq_some_iff.1 hmax).1

theorem mem_sequences_create {call : ι} {sequence n : ℕ} :
    n ∈ (s.create call sequence).sequences ↔ n = sequence ∨ n ∈ s.sequences := by
  unfold Numbering.create
  split_ifs with h
  · exact ⟨.inr, fun hn => hn.elim (fun hn => hn ▸ h) id⟩
  · exact List.mem_cons

theorem nodup_create {call : ι} {sequence : ℕ} (h : s.sequences.Nodup) :
    (s.create call sequence).sequences.Nodup := by
  unfold Numbering.create
  split_ifs with hmem
  · exact h
  · exact List.nodup_cons.2 ⟨hmem, h⟩

theorem last_le_create {call : ι} {sequence : ℕ} : s.last ≤ (s.create call sequence).last := by
  rcases @last_mem ι s with hzero | hmem
  · rw [hzero]
    exact Nat.zero_le _
  · exact le_last (mem_sequences_create.2 (.inr hmem))

/-! ### One step -/

variable [DecidableEq ι] {c : Config ι} {i : ι}

/-- What another call holds it goes on holding. -/
theorem exists_held {n : ℕ} (hi : n ∉ (c.call i).holds) (h : ∃ j, n ∈ (c.call j).holds) :
    ∃ j, n ∈ (Function.update c.call i k' j).holds := by
  obtain ⟨j, hj⟩ := h
  have hji : j ≠ i := by
    rintro rfl
    exact hi hj
  exact ⟨j, by rwa [Function.update_of_ne hji]⟩

theorem numbered_next (hinv : Inv (Bounded top) (Fresh top) Apart c) (hreached : Reached base top c)
    (hi : (c.call i).holds = none) (hseeds : ∀ j, j ≠ i → (c.call j).seeds = none) (call : ι) :
    Numbered base ⟨{ c.store with seq := some (top + 1) },
      Function.update c.call i (.create call (top + 1))⟩ := by
  obtain ⟨-, hle, hnodup⟩ := hinv.store
  refine ⟨top + 1, .of_update Apart.symm hinv.pair ⟨?_, ?_, hnodup⟩ ⟨?_, nofun⟩ fun j hj => ?_,
    hreached.1, fun n hbase hn => ?_⟩
  · exact fun n hn => (Option.some.inj hn).symm
  · exact fun n hn => (hle n hn).trans (Nat.le_succ top)
  · intro n hn
    cases hn
    exact ⟨le_rfl, fun hmem => absurd (hle _ hmem) (by simp)⟩
  · obtain ⟨hholds, -⟩ := hinv.call j
    refine ⟨⟨fun n hn => ⟨(hholds n hn).1.trans (Nat.le_succ top), (hholds n hn).2⟩, ?_⟩, ?_, .inl rfl⟩
    · simp [hseeds j hj]
    · intro n hn hj
      cases hn
      exact absurd (hholds _ hj).1 (by simp)
  · rcases Nat.le_succ_iff.1 hn with hn | rfl
    · exact (hreached.2 n hbase hn).imp_right (exists_held (by simp [hi]))
    · exact .inr ⟨i, by simp [Call.holds]⟩

theorem numbered_rest (hinv : Inv (Bounded top) (Fresh top) Apart c) (hreached : Reached base top c)
    (hi : (c.call i).holds = none) (hseq : ∀ n ∈ s'.seq, n = top) (hrows : s'.rows = c.store.rows)
    (hholds : k'.holds = none) (hseeds : ∀ last ∈ k'.seeds, last = top)
    (hothers : ∀ j, j ≠ i → k'.seeds = none ∨ (c.call j).seeds = none) :
    Numbered base ⟨s', Function.update c.call i k'⟩ := by
  obtain ⟨-, hle, hnodup⟩ := hinv.store
  obtain ⟨seq, rows⟩ := s'
  obtain rfl : rows = c.store.rows := hrows
  refine ⟨top, .of_update Apart.symm hinv.pair ⟨hseq, hle, hnodup⟩ ⟨?_, hseeds⟩
    fun j hj => ⟨hinv.call j, ?_⟩, hreached.1, fun n hbase hn => ?_⟩
  · simp [hholds]
  · exact ⟨by simp [hholds], hothers j hj⟩
  · exact (hreached.2 n hbase hn).imp_right (exists_held (by simp [hi]))

theorem numbered_create (hinv : Inv (Bounded top) (Fresh top) Apart c)
    (hreached : Reached base top c) {call : ι} {sequence : ℕ} (hi : c.call i = .create call sequence) :
    Numbered base ⟨c.store.create call sequence, Function.update c.call i .done⟩ := by
  obtain ⟨hcache, hle, hnodup⟩ := hinv.store
  have hholds : sequence ∈ (c.call i).holds := by rw [hi]; rfl
  have hseq : (c.store.create call sequence).seq = c.store.seq := by
    unfold Numbering.create
    split_ifs <;> rfl
  refine ⟨top, .of_update Apart.symm hinv.pair ⟨?_, ?_, nodup_create hnodup⟩ ⟨nofun, nofun⟩
    fun j hj => ⟨⟨fun n hn => ⟨((hinv.call j).1 n hn).1, ?_⟩, (hinv.call j).2⟩, nofun, .inl rfl⟩,
    hreached.1.trans last_le_create, fun n hbase hn => ?_⟩
  · rwa [hseq]
  · intro n hn
    rcases mem_sequences_create.1 hn with rfl | hn
    · exact ((hinv.call i).1 n hholds).1
    · exact hle n hn
  · rw [mem_sequences_create, not_or]
    refine ⟨?_, ((hinv.call j).1 n hn).2⟩
    rintro rfl
    exact (hinv.pair i j hj.symm).1 n hholds hn
  · rw [mem_sequences_create]
    rcases hreached.2 n hbase hn with hmem | hheld
    · exact .inl (.inr hmem)
    · by_cases heq : n = sequence
      · exact .inl (.inl heq)
      · exact .inr (exists_held (by simpa [hi, Call.holds] using Ne.symm heq) hheld)

omit [DecidableEq ι] in
/-- Nobody is about to store a number beyond the last row, so that one is the last given out. -/
theorem last_eq_top (hinv : Inv (Bounded top) (Fresh top) Apart c) (hreached : Reached base top c)
    (hbehind : ∀ j, ∀ n ∈ (c.call j).holds, n ≤ c.store.last) : c.store.last = top := by
  refine le_antisymm ?_ ?_
  · rcases @last_mem ι c.store with hzero | hmem
    · omega
    · exact hinv.store.2.1 _ hmem
  · by_cases hbase : base < top
    · rcases hreached.2 top hbase le_rfl with hmem | ⟨j, hj⟩
      · exact le_last hmem
      · exact hbehind j top hj
    · exact (not_lt.1 hbase).trans hreached.1

theorem numbered_step (hnumbered : Numbered base c) (hallowed : Undisturbed c i)
    (h : act c.store (c.call i) u = some (s', k')) :
    Numbered base ⟨s', Function.update c.call i k'⟩ := by
  obtain ⟨top, hinv, hreached⟩ := hnumbered
  obtain ⟨hcache, hle, -⟩ := hinv.store
  cases hi : c.call i with
  | recordEvent call =>
    rw [hi, act] at h
    cases hseq : c.store.seq with
    | none =>
      rw [hseq] at h
      cases h
      exact numbered_rest hinv hreached (by rw [hi]; rfl) hcache rfl rfl nofun fun _ _ => .inl rfl
    | some n =>
      rw [hseq] at h
      cases h
      obtain rfl := hcache n hseq
      refine numbered_next hinv hreached (by rw [hi]; rfl) (fun j _ => ?_) call
      simpa [disturbs, hi, hseq] using hallowed j
  | find call =>
    have hseeds : ∀ j, (c.call j).seeds = none ∧ ∀ n ∈ (c.call j).holds, n ≤ c.store.last := by
      intro j
      simpa [disturbs, hi, Option.any_eq_false] using hallowed j
    have htop := last_eq_top hinv hreached fun j => (hseeds j).2
    rw [hi] at h
    cases h
    exact numbered_rest hinv hreached (by rw [hi]; rfl) hcache rfl rfl
      (fun last hlast => (Option.some.inj hlast).symm.trans htop) fun j _ => .inr (hseeds j).1
  | found call last =>
    rw [hi] at h
    cases h
    obtain rfl := (hinv.call i).2 last (by rw [hi]; rfl)
    refine numbered_next hinv hreached (by rw [hi]; rfl) (fun j hj => ?_) call
    exact (hinv.pair i j hj.symm).2.resolve_left (by simp [hi, Call.seeds])
  | create call sequence =>
    rw [hi] at h
    cases h
    exact numbered_create hinv hreached hi
  | leave =>
    rw [hi] at h
    cases h
    exact numbered_rest hinv hreached (by rw [hi]; rfl) nofun rfl rfl nofun fun _ _ => .inl rfl
  | done | left =>
    rw [hi] at h
    cases h

/-! ### Runs -/

/-- Rows of the calls that are over, and of no others. -/
def Recorded (c : Config ι) : Prop :=
  (∀ j, ∀ call ∈ (c.call j).owner, call = j) ∧
    ∀ j, c.store.rows.countP (·.call = some j) = (c.call j).stored

omit [DecidableEq ι] in
/-- A step stores a row and ends the call, or leaves the rows and goes on with the call's event. -/
theorem act_cases (h : act s k u = some (s', k')) :
    (∃ call sequence, k = .create call sequence ∧ s' = s.create call sequence ∧ k' = .done) ∨
      s'.rows = s.rows ∧ k'.stored = k.stored ∧ ∀ call ∈ k'.owner, call ∈ k.owner := by
  cases k with
  | create call sequence =>
    cases h
    exact .inl ⟨call, sequence, rfl, rfl, rfl⟩
  | recordEvent call =>
    rw [act] at h
    cases hseq : s.seq with
    | none =>
      rw [hseq] at h
      cases h
      exact .inr ⟨rfl, rfl, fun _ => id⟩
    | some n =>
      rw [hseq] at h
      cases h
      exact .inr ⟨rfl, rfl, fun _ => id⟩
  | done | left => cases h
  | find | found | leave =>
    cases h
    exact .inr ⟨rfl, rfl, fun _ => id⟩

theorem recorded_rest (hrecorded : Recorded c) (hrows : s'.rows = c.store.rows)
    (hstored : k'.stored = (c.call i).stored) (hown : ∀ call ∈ k'.owner, call ∈ (c.call i).owner) :
    Recorded ⟨s', Function.update c.call i k'⟩ := by
  obtain ⟨howner, hcount⟩ := hrecorded
  refine ⟨fun j => ?_, fun j => ?_⟩ <;> dsimp only
  · by_cases hj : j = i
    · rw [hj, Function.update_self]
      exact fun call hcall => howner i call (hown call hcall)
    · rw [Function.update_of_ne hj]
      exact howner j
  · rw [hrows, hcount]
    by_cases hj : j = i
    · rw [hj, Function.update_self, hstored]
    · rw [Function.update_of_ne hj]

theorem recorded_step (hnumbered : Numbered base c) (hrecorded : Recorded c)
    (h : act c.store (c.call i) u = some (s', k')) : Recorded ⟨s', Function.update c.call i k'⟩ := by
  rcases act_cases h with ⟨call, sequence, hi, rfl, rfl⟩ | ⟨hrows, hstored, hown⟩
  · obtain ⟨howner, hcount⟩ := hrecorded
    obtain ⟨top, hinv, -⟩ := hnumbered
    have hfresh : sequence ∉ c.store.sequences := ((hinv.call i).1 sequence (by rw [hi]; rfl)).2
    obtain rfl : call = i := howner i call (by rw [hi]; rfl)
    refine ⟨fun j => ?_, fun j => ?_⟩ <;> dsimp only
    · by_cases hj : j = call
      · rw [hj, Function.update_self]
        nofun
      · rw [Function.update_of_ne hj]
        exact howner j
    · rw [Numbering.create, if_neg hfresh, List.countP_cons, hcount]
      by_cases hj : j = call
      · rw [hj, hi, Function.update_self, if_pos (by simp)]
        rfl
      · rw [Function.update_of_ne hj, if_neg (by simpa using Ne.symm hj), Nat.add_zero]
  · exact recorded_rest hrecorded hrows hstored hown

/-- Nothing is cached, and every call is still to look at the cache or to forget it. -/
structure Unbegun (c : Config ι) : Prop where
  seq : c.store.seq = none
  nodup : c.store.sequences.Nodup
  earlier : ∀ row ∈ c.store.rows, row.call = none
  calls : ∀ i, c.call i = .recordEvent i ∨ c.call i = .leave

omit [DecidableEq ι] in
theorem Unbegun.numbered (h : Unbegun c) : Numbered c.store.last c := by
  have hidle : ∀ i, (c.call i).holds = none ∧ (c.call i).seeds = none := by
    intro i
    rcases h.calls i with hi | hi <;> rw [hi] <;> exact ⟨rfl, rfl⟩
  refine ⟨c.store.last, ⟨⟨?_, fun n hn => le_last hn, h.nodup⟩, fun i => ?_, fun i j _ => ?_⟩,
    le_rfl, fun n hbase hn => absurd hn (not_le.2 hbase)⟩
  · simp [h.seq]
  · simp [Fresh, hidle i]
  · simp [Apart, hidle i]

theorem Unbegun.recorded (h : Unbegun c) : Recorded c := by
  refine ⟨fun i => ?_, fun i => ?_⟩
  · rcases h.calls i with hi | hi <;> rw [hi]
    · exact fun call hcall => (Option.some.inj hcall).symm
    · nofun
  · rw [List.countP_eq_zero.2 fun row hrow => by simp [h.earlier row hrow]]
    rcases h.calls i with hi | hi <;> rw [hi] <;> rfl

theorem numbered_of_undisturbed {start : Config ι} (hstart : Unbegun start)
    (hrun : Run act Undisturbed start c) : Numbered start.store.last c ∧ Recorded c := by
  refine hrun.invariant (P := fun c => Numbered start.store.last c ∧ Recorded c)
    ⟨hstart.numbered, hstart.recorded⟩ ?_
  rintro c i answer s' k' ⟨hnumbered, hrecorded⟩ hallowed hact
  exact ⟨numbered_step hnumbered hallowed hact, recorded_step hnumbered hrecorded hact⟩

/-- In an undisturbed run every call that is over has stored its event, once and under a number of
its own. -/
theorem stored_of_undisturbed {start : Config ι} (hstart : Unbegun start)
    (hrun : Run act Undisturbed start c) : c.store.sequences.Nodup ∧
      ∀ i, c.call i = .done → c.store.rows.countP (·.call = some i) = 1 := by
  obtain ⟨⟨top, hnumbered, -⟩, -, hcount⟩ := numbered_of_undisturbed hstart hrun
  exact ⟨hnumbered.store.2.2, fun i hi => by rw [hcount, hi]; rfl⟩

/-- Two calls of a process that has nothing cached, for a job with one event. -/
def twoEvents : Config Bool where
  store := ⟨none, [⟨1, none⟩]⟩
  call := .recordEvent

theorem twoEvents_unbegun : Unbegun twoEvents where
  seq := rfl
  nodup := by decide
  earlier := by decide
  calls i := .inl rfl

/-- One call after the other. -/
theorem twoEvents_stored : ∃ c, Run act Undisturbed twoEvents c ∧
    c.store.sequences = [3, 2, 1] ∧ c.store.sequences.Nodup ∧
      ∀ i, c.call i = .done → c.store.rows.countP (·.call = some i) = 1 := by
  obtain ⟨c, hrun, hc⟩ := run_of_exec_any act Undisturbed twoEvents
    [(true, ()), (true, ()), (true, ()), (true, ()), (false, ()), (false, ())]
    (fun c => c.store.sequences = [3, 2, 1]) (by decide)
  exact ⟨c, hrun, of_decide_eq_true hc, stored_of_undisturbed twoEvents_unbegun hrun⟩

/-- Both find nothing cached and read the same last row: the second event is lost. -/
theorem twoEvents_lost : ¬ ∀ c, Run act (fun _ _ => True) twoEvents c →
    c.store.sequences.Nodup ∧ ∀ i, c.call i = .done → c.store.rows.countP (·.call = some i) = 1 := by
  intro h
  obtain ⟨c, hrun, hc⟩ := run_of_exec_any act (fun _ _ => True) twoEvents
    [(true, ()), (false, ()), (true, ()), (false, ()), (true, ()), (false, ()), (true, ()), (false, ())]
    (fun c => c.call false = .done && c.store.rows.countP (·.call = some false) = 0) (by decide)
  simp only [Bool.and_eq_true, decide_eq_true_eq] at hc
  have hone := (h c hrun).2 false hc.1
  rw [hc.2] at hone
  cases hone

end UltraTorrent.Jobs.JobEvents
