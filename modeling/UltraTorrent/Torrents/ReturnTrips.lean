import Mathlib.Data.Fintype.Basic
import UltraTorrent.Torrents.Parking

/-! When no call is in progress, what parking has paused has its row, and parking has paused
nothing again that was released. Runs, and the releases by hand, must not work on one engine at
once, and neither a pause nor a removal of a row may fail halfway. -/
namespace UltraTorrent.Torrents.Parking

open Library Library.Interleaving

/-! ### What parking promises -/

def Store.has (s : Store) (key : Key) : Bool := (s.parkedTorrents.find key).isSome

/-- Parking is never a one-way trip. -/
structure Returns (s : Store) : Prop where
  recorded : ∀ key, s.parked key = true → s.has key = true
  once : s.again = false

/-- Before anything has been released: what parking has paused has its row. -/
structure Fresh {ι : Type*} (c : Config ι Store Call) : Prop where
  idle : ∀ i, c.call i = .idle
  parked : ∀ key, c.store.parked key = true → key ∈ c.store.torrents ∧ c.store.has key = true
  released : ∀ key, c.store.released key = false
  once : c.store.again = false

/-! ### What it depends on -/

def Call.visits (engineId : String) : Call → Bool
  | .visit _ v => v.engineId = engineId
  | _ => false

/-- The engine is visited, or a torrent of it released by hand. -/
def Call.worksOn (engineId : String) : Call → Bool
  | .visit _ v => v.engineId = engineId
  | .unparking id _ _ => id = engineId
  | _ => false

def Call.clashes (k l : Call) : Bool :=
  match k with
  | .run pass => pass.engines.head?.any l.worksOn
  | .unpark engineId _ => l.visits engineId
  | _ => false

/-- A visit begins when nothing works on its engine, a release when nothing visits it. -/
def Undisturbed {ι : Type*} (c : Config ι Store Call) (i : ι) : Prop :=
  ∀ j, j ≠ i → (c.call i).clashes (c.call j) = false

instance {ι : Type*} [Fintype ι] [DecidableEq ι] (c : Config ι Store Call) (i : ι) :
    Decidable (Undisturbed c i) :=
  inferInstanceAs (Decidable (∀ j, j ≠ i → (c.call i).clashes (c.call j) = false))

/-- A torrent is not paused without a word, its row is written once it is paused, and the row of
a released torrent is removed. -/
def orderly (_ : Store) (k : Call) (answer : Answer) : Bool :=
  match k, answer with
  | .visit _ v, .op outcome _ =>
    match v.ops with
    | [.pause, .create _] => outcome ≠ .lost
    | [.create _] => outcome ≠ .failed
    | _ => true
  | .unpark _ hash, _ => hash.lowerCase
  | .unparking _ _ [.forget], .op outcome _ => outcome ≠ .failed
  | _, _ => true

/-! ### Single operations -/

section Operations

variable {s : Store} {k l : Key} {n : ℤ}

theorem has_perform (op : Op) :
    (s.perform k n op).has l =
      match op with
      | .create row => s.has l || decide (row.key = l)
      | .forget => s.has l && decide (l ≠ k)
      | _ => s.has l := by
  cases op with
  | forceStart => rfl
  | pause =>
    unfold Store.perform
    dsimp only
    split_ifs <;> rfl
  | resume => rfl
  | create row =>
    simp only [Store.perform, Store.has, Table.find_addMissing]
    cases s.parkedTorrents.find l with
    | none => by_cases h : row.key = l <;> simp [h]
    | some => rfl
  | judged lastSeeders =>
    exact Table.isSome_find_updateAt (f := fun row : ParkedTorrent => row.judgedAt n lastSeeders)
      (fun _ => rfl) l
  | probing =>
    exact Table.isSome_find_updateAt (f := fun row : ParkedTorrent => row.probedAt n)
      (fun _ => rfl) l
  | forget =>
    simp only [Store.perform, Store.has, Table.find_erase]
    by_cases h : l = k <;> simp [h]

theorem parked_perform (op : Op) :
    (s.perform k n op).parked l =
      match op with
      | .pause => s.parked l || (decide (l = k) && decide (k ∈ s.torrents))
      | .resume => s.parked l && decide (l ≠ k)
      | _ => s.parked l := by
  cases op with
  | pause =>
    unfold Store.perform
    dsimp only
    split_ifs with h
    · by_cases hl : l = k
      · simp [hl, h]
      · simp [hl]
    · simp [h]
  | resume =>
    by_cases hl : l = k
    · simp [Store.perform, hl]
    · simp [Store.perform, hl]
  | _ => rfl

theorem again_perform (op : Op) :
    (s.perform k n op).again = true →
      s.again = true ∨ op = .pause ∧ s.released k = true := by
  intro h
  cases op with
  | pause =>
    unfold Store.perform at h
    dsimp only at h
    split_ifs at h
    · rcases Bool.or_eq_true _ _ ▸ h with h | h
      · exact .inl h
      · exact .inr ⟨rfl, h⟩
    · exact .inl h
  | _ => exact .inl h

/-- No operation changes what there is, or what was released. -/
theorem perform_frame (op : Op) :
    (s.perform k n op).torrents = s.torrents ∧
    (s.perform k n op).released = s.released ∧
    (s.perform k n op).releases = s.releases := by
  cases op with
  | pause =>
    unfold Store.perform
    dsimp only
    split_ifs <;> exact ⟨rfl, rfl, rfl⟩
  | _ => exact ⟨rfl, rfl, rfl⟩

end Operations

/-! ### The invariant -/

/-- Nothing that is released has a row, so nothing released is paused. -/
structure Sane (s : Store) : Prop where
  present : ∀ key, s.parked key = true → key ∈ s.torrents
  rowless : ∀ key, s.released key = true → s.has key = false
  once : s.again = false

/-- What a visit may still have to do about a torrent, and what it relies on. -/
inductive Sound (s : Store) (listed : List String) (key : Key) : List Op → Prop
  | nothing : Sound s listed key []
  | release : Sound s listed key [.forceStart false, .resume, .forget]
  | resume : Sound s listed key [.resume, .forget]
  | forget : s.parked key = false → Sound s listed key [.forget]
  | judge (lastSeeders : ℤ) : s.has key = true → key.2 ∈ listed →
      Sound s listed key [.forceStart false, .pause, .judged lastSeeders]
  | pauseAgain (lastSeeders : ℤ) : s.has key = true → key.2 ∈ listed →
      Sound s listed key [.pause, .judged lastSeeders]
  | judged (lastSeeders : ℤ) : Sound s listed key [.judged lastSeeders]
  | park (row : ParkedTorrent) : row.key = key → s.released key = false → key.2 ∈ listed →
      Sound s listed key [.pause, .create row]
  | create (row : ParkedTorrent) : row.key = key → s.released key = false →
      Sound s listed key [.create row]
  | probe : Sound s listed key [.forceStart true, .probing]
  | probing : Sound s listed key [.probing]

def Visit.listed (v : Visit) : List String := v.torrents.map (·.hash)

def Visit.key (v : Visit) : Key := (v.engineId, v.hash)

/-- What the loop of a visit has in front of it. -/
def Ahead (s : Store) (v : Visit) : Stage → Prop
  | .judging todo => (todo.map (·.hash)).Nodup ∧ ∀ row ∈ todo,
      s.has (v.engineId, row.hash) = true ∧ (v.ops ≠ [] → row.hash ≠ v.hash)
  | .parking todo _ => ∀ t ∈ todo, t ∈ v.torrents
  | _ => True

structure Knows (s : Store) (v : Visit) : Prop where
  unlisted : ∀ hash, hash ∉ v.listed → s.parked (v.engineId, hash) = false
  seen : ∀ hash, v.seen (v.engineId, hash) = s.releases (v.engineId, hash)
  ahead : Ahead s v v.stage
  sound : Sound s v.listed v.key v.ops

def Releasing (s : Store) (key : Key) (ops : List Op) : Prop :=
  ops = [.forceStart false, .resume, .forget] ∨ ops = [.resume, .forget] ∨
    ops = [.forget] ∧ s.parked key = false

def Holds (s : Store) : Call → Prop
  | .visit _ v => Knows s v
  | .unparking engineId hash ops =>
    hash.lowerCase = true ∧ Releasing s (engineId, hash.hash) ops
  | _ => True

/-- Nothing else works on an engine that is visited. -/
def Apart (k l : Call) : Prop :=
  ∀ engineId, (k.visits engineId = true → l.worksOn engineId = false) ∧
    (l.visits engineId = true → k.worksOn engineId = false)

theorem Apart.symm {k l : Call} (h : Apart k l) : Apart l k :=
  fun engineId => ⟨(h engineId).2, (h engineId).1⟩

/-- The call has paused a torrent and is about to write its row. -/
def Call.creates (key : Key) : Call → Prop
  | .visit _ v => (∃ row, v.ops = [.create row]) ∧ key = v.key
  | _ => False

/-- A torrent that parking has paused has its row, or is about to get it. -/
def Covered {ι : Type*} (c : Config ι Store Call) : Prop :=
  ∀ key, c.store.parked key = true → c.store.has key = true ∨ ∃ i, (c.call i).creates key

section Visits

variable {s s' : Store} {listed : List String} {key : Key} {op : Op} {rest : List Op}
  {outcome : Outcome} {now : ℤ}

/-! ### What others leave alone -/

/-- Nothing of an engine changes, except that torrents are resumed and shown dead. -/
structure Kept (engineId : String) (s s' : Store) : Prop where
  parked : ∀ hash, s'.parked (engineId, hash) = true → s.parked (engineId, hash) = true
  has : ∀ hash, s'.has (engineId, hash) = s.has (engineId, hash)
  released : ∀ hash, s'.released (engineId, hash) = true → s.released (engineId, hash) = true
  releases : ∀ hash, s'.releases (engineId, hash) = s.releases (engineId, hash)

theorem eq_false_of_imp {a b : Bool} (h : a = true → b = true) (hb : b = false) : a = false := by
  cases a with
  | false => rfl
  | true => rw [h rfl] at hb; cases hb

theorem Sound.kept {ops : List Op} (h : Sound s listed key ops) (hkept : Kept key.1 s s') :
    Sound s' listed key ops := by
  cases h with
  | nothing => exact .nothing
  | release => exact .release
  | resume => exact .resume
  | forget hparked => exact .forget (eq_false_of_imp (hkept.parked _) hparked)
  | judge n hrow hmem => exact .judge n ((hkept.has _).trans hrow) hmem
  | pauseAgain n hrow hmem => exact .pauseAgain n ((hkept.has _).trans hrow) hmem
  | judged n => exact .judged n
  | park row hkey hreleased hmem =>
    exact .park row hkey (eq_false_of_imp (hkept.released _) hreleased) hmem
  | create row hkey hreleased =>
    exact .create row hkey (eq_false_of_imp (hkept.released _) hreleased)
  | probe => exact .probe
  | probing => exact .probing

theorem Ahead.kept {v : Visit} {stage : Stage} (h : Ahead s v stage)
    (hhas : ∀ hash, s'.has (v.engineId, hash) = s.has (v.engineId, hash)) : Ahead s' v stage := by
  cases stage with
  | judging todo =>
    exact ⟨h.1, fun row hrow => ⟨(hhas _).trans (h.2 row hrow).1, (h.2 row hrow).2⟩⟩
  | parking => exact h
  | _ => trivial

theorem Knows.kept {v : Visit} (h : Knows s v) (hkept : Kept v.engineId s s') : Knows s' v where
  unlisted hash hmem := eq_false_of_imp (hkept.parked hash) (h.unlisted hash hmem)
  seen hash := (h.seen hash).trans (hkept.releases hash).symm
  ahead := h.ahead.kept hkept.has
  sound := h.sound.kept hkept

/-! ### One operation of a visit -/

theorem Sound.of_pause (h : Sound s listed key (.pause :: rest)) (hsane : Sane s) :
    s.released key = false ∧ key.2 ∈ listed := by
  cases h with
  | pauseAgain n hrow hmem =>
    refine ⟨?_, hmem⟩
    by_contra hreleased
    rw [hsane.rowless _ (Bool.eq_true_of_not_eq_false hreleased)] at hrow
    cases hrow
  | park row hkey hreleased hmem => exact ⟨hreleased, hmem⟩

theorem Sound.of_create {row : ParkedTorrent} (h : Sound s listed key (.create row :: rest)) :
    row.key = key ∧ s.released key = false := by
  cases h with
  | create _ hkey hreleased => exact ⟨hkey, hreleased⟩

theorem Sound.of_forget (h : Sound s listed key (.forget :: rest)) : s.parked key = false := by
  cases h with
  | forget hparked => exact hparked

theorem Sane.perform (hsane : Sane s) (hpause : op = .pause → s.released key = false)
    (hcreate : ∀ row, op = .create row → row.key = key ∧ s.released key = false) :
    Sane (s.perform key now op) := by
  obtain ⟨htorrents, hreleased, -⟩ := perform_frame (s := s) (k := key) (n := now) op
  refine ⟨fun l hl => ?_, fun l hl => ?_, ?_⟩
  · rw [htorrents]
    rw [parked_perform] at hl
    cases op with
    | pause =>
      rcases Bool.or_eq_true _ _ ▸ hl with hold | hnew
      · exact hsane.present l hold
      · simp only [Bool.and_eq_true, decide_eq_true_eq] at hnew
        exact hnew.1 ▸ hnew.2
    | resume => exact hsane.present l (Bool.and_eq_true _ _ ▸ hl).1
    | _ => exact hsane.present l hl
  · rw [hreleased] at hl
    have hnone := hsane.rowless l hl
    rw [has_perform]
    cases op with
    | create row =>
      obtain ⟨hkey, hnot⟩ := hcreate row rfl
      have hne : row.key ≠ l := by
        rintro rfl
        rw [hkey, hnot] at hl
        cases hl
      simp [hnone, hne]
    | forget => simp [hnone]
    | _ => exact hnone
  · by_contra hagain
    rcases again_perform op (Bool.eq_true_of_not_eq_false hagain) with h | ⟨rfl, h⟩
    · rw [hsane.once] at h
      cases h
    · rw [hpause rfl] at h
      cases h

theorem Sound.sane (hsane : Sane s) (h : Sound s listed key (op :: rest)) :
    Sane (s.apply key op outcome now) := by
  unfold Store.apply
  split_ifs
  · exact hsane
  · refine hsane.perform ?_ ?_
    · rintro rfl
      exact (h.of_pause hsane).1
    · rintro row rfl
      exact h.of_create

/-- The rest of a block relies on what the operation has done. -/
theorem Sound.next (h : Sound s listed key (op :: rest)) (outcome : Outcome) (now : ℤ) :
    Sound (s.apply key op outcome now) listed key (after op outcome rest) := by
  by_cases hforget : op = .forget
  · subst hforget
    cases h
    rw [after, ite_self]
    exact .nothing
  by_cases hdone : outcome = .done
  · subst hdone
    have hperform : s.apply key op .done now = s.perform key now op := if_neg (by decide)
    obtain ⟨-, hreleased, -⟩ := perform_frame (s := s) (k := key) (n := now) op
    rw [after, if_pos (.inl rfl), hperform]
    cases h with
    | release => exact .resume
    | resume => exact .forget (by rw [parked_perform]; simp)
    | forget => exact absurd rfl hforget
    | judge n hrow hmem => exact .pauseAgain n hrow hmem
    | pauseAgain n hrow hmem => exact .judged n
    | judged n => exact .nothing
    | park row hkey hrel hmem => exact .create row hkey (hreleased ▸ hrel)
    | create row hkey hrel => exact .nothing
    | probe => exact .probing
    | probing => exact .nothing
  · rw [after, if_neg (not_or.2 ⟨hdone, hforget⟩)]
    exact .nothing

theorem Knows.answered {v : Visit} {o : Op} (hknows : Knows s v) (hsane : Sane s) (hops : v.ops = o :: rest) :
    Knows (s.apply v.key o outcome now) { v with ops := after o outcome rest } := by
  have hsound : Sound s v.listed v.key (o :: rest) := hops ▸ hknows.sound
  refine ⟨fun hash hmem => ?_, fun hash => ?_, ?_, hsound.next _ _⟩
  · have hold := hknows.unlisted hash hmem
    unfold Store.apply
    split_ifs
    · exact hold
    · rw [parked_perform]
      cases o with
      | pause =>
        have hne : hash ≠ v.hash := by
          rintro rfl
          exact hmem (hsound.of_pause hsane).2
        simp [hold, Visit.key, hne]
      | resume => simp [hold]
      | _ => exact hold
  · unfold Store.apply
    split_ifs
    · exact hknows.seen hash
    · rw [(perform_frame o).2.2]
      exact hknows.seen hash
  · have hahead := hknows.ahead
    cases hstage : v.stage with
    | judging todo =>
      rw [hstage] at hahead
      refine ⟨hahead.1, fun row hrow => ?_⟩
      obtain ⟨hhas, hne⟩ := hahead.2 row hrow
      have hne := hne (hops ▸ List.cons_ne_nil _ _)
      refine ⟨?_, fun _ => hne⟩
      unfold Store.apply
      split_ifs
      · exact hhas
      · rw [has_perform]
        cases o with
        | create => exact Bool.or_eq_true _ _ ▸ .inl hhas
        | forget => simp [hhas, Visit.key, hne]
        | _ => exact hhas
    | parking todo already =>
      rw [hstage] at hahead
      exact hahead
    | _ => trivial

/-! ### What becomes of paused torrents -/

/-- A torrent that is paused afterwards has its row, or is about to get it from this call, or was
paused before and has not lost anything. -/
def Carries (s : Store) (k : Call) (s' : Store) (k' : Call) : Prop :=
  ∀ key, s'.parked key = true → s'.has key = true ∨ k'.creates key ∨
    (s.parked key = true ∧ ¬ k.creates key ∧ (s.has key = true → s'.has key = true))

theorem carries_answered {pass : Pass} {v : Visit} {o : Op} (hknows : Knows s v)
    (hops : v.ops = o :: rest)
    (horderly : orderly s (.visit pass v) (.op outcome now) = true) :
    Carries s (.visit pass v) (s.apply v.key o outcome now)
      (.visit pass { v with ops := after o outcome rest }) := by
  have hsound : Sound s v.listed v.key (o :: rest) := hops ▸ hknows.sound
  intro key hkey
  unfold orderly at horderly
  dsimp only at horderly
  rw [hops] at horderly
  have hplain (hcreate : ∀ row, o ≠ .create row) : ¬ (Call.visit pass v).creates key := by
    rintro ⟨⟨row, hrow⟩, -⟩
    rw [hops] at hrow
    exact hcreate row (List.cons.inj hrow).1
  unfold Store.apply at hkey ⊢
  by_cases hfailed : outcome = .failed
  · rw [if_pos hfailed] at hkey ⊢
    refine .inr (.inr ⟨hkey, hplain ?_, id⟩)
    rintro row rfl
    cases hsound
    simp [hfailed] at horderly
  · rw [if_neg hfailed] at hkey ⊢
    rw [parked_perform] at hkey
    rw [has_perform]
    cases o with
    | pause =>
      rcases Bool.or_eq_true _ _ ▸ hkey with hold | hnew
      · exact .inr (.inr ⟨hold, hplain (by simp), id⟩)
      · have heq : key = v.key := of_decide_eq_true (Bool.and_eq_true _ _ ▸ hnew).1
        subst heq
        cases hsound with
        | pauseAgain n hrow => exact .inl hrow
        | park row =>
          have hdone : outcome = .done := by
            cases outcome <;> simp_all
          exact .inr (.inl ⟨⟨row, by rw [after, if_pos (.inl hdone)]⟩, rfl⟩)
    | create row =>
      by_cases heq : key = v.key
      · left
        simp [heq, hsound.of_create.1]
      · exact .inr (.inr ⟨hkey, fun h => heq h.2, fun h => by simp [h]⟩)
    | forget =>
      have hne : key ≠ v.key := by
        rintro rfl
        rw [hsound.of_forget] at hkey
        cases hkey
      exact .inr (.inr ⟨hkey, hplain (by simp), fun h => by simp [h, hne]⟩)
    | resume => exact .inr (.inr ⟨(Bool.and_eq_true _ _ ▸ hkey).1, hplain (by simp), id⟩)
    | _ => exact .inr (.inr ⟨hkey, hplain (by simp), id⟩)

/-- A call that was not about to write a row, and has left the table and what is paused alone. -/
theorem carries_of_same {k k' : Call} (hparked : ∀ key, s'.parked key = true → s.parked key = true)
    (hhas : ∀ key, s.has key = true → s'.has key = true) (hcreates : ∀ key, ¬ k.creates key) :
    Carries s k s' k' :=
  fun key hkey => .inr (.inr ⟨hparked key hkey, hcreates key, hhas key⟩)

/-! ### The loops of a visit -/

theorem not_creates {pass : Pass} {v : Visit} (hops : v.ops = []) (key : Key) :
    ¬ (Call.visit pass v).creates key := by
  rintro ⟨⟨row, hrow⟩, -⟩
  rw [hops] at hrow
  cases hrow

theorem has_of_mem_rowsOf {engineId : String} {row : ParkedTorrent} (h : row ∈ s.rowsOf engineId) :
    s.has (engineId, row.hash) = true := by
  obtain ⟨hmem, hengine⟩ := List.mem_filter.1 h
  have hkey : row.key = (engineId, row.hash) := Prod.ext (of_decide_eq_true hengine) rfl
  rw [Store.has, ← hkey, Table.find_key hmem]
  rfl

theorem nodup_rowsOf (engineId : String) : ((s.rowsOf engineId).map (·.hash)).Nodup := by
  refine (List.nodup_map_iff_inj_on ((List.Nodup.of_map _ s.parkedTorrents.nodup).filter _)).2 ?_
  intro row hrow other hother heq
  obtain ⟨hrow, hengine⟩ := List.mem_filter.1 hrow
  obtain ⟨hother, hengine'⟩ := List.mem_filter.1 hother
  exact Table.eq_of_key hrow hother
    (Prod.ext ((of_decide_eq_true hengine).trans (of_decide_eq_true hengine').symm) heq)

theorem Knows.query {pass : Pass} {v v' : Visit} (hknows : Knows s v) (hops : v.ops = [])
    (h : query s pass v now = some v') : Knows s v' := by
  have hsound : Sound s v.listed v.key v.ops := hknows.sound
  unfold Parking.query at h
  dsimp only at h
  split at h
  · cases h
    refine ⟨hknows.unlisted, hknows.seen, ⟨?_, fun row hrow => ⟨?_, ?_⟩⟩, hsound⟩
    · exact (nodup_rowsOf v.engineId).sublist (List.filter_sublist.map _)
    · exact has_of_mem_rowsOf (List.mem_of_mem_filter hrow)
    · exact fun hne => absurd hops hne
  · cases h
    exact ⟨hknows.unlisted, hknows.seen, fun t ht => ht, hsound⟩
  · cases h
    exact ⟨hknows.unlisted, hknows.seen, trivial, hsound⟩
  · cases h

theorem query_engineId {pass : Pass} {v v' : Visit} (h : query s pass v now = some v') :
    v'.engineId = v.engineId := by
  unfold Parking.query at h
  dsimp only at h
  split at h <;> cases h <;> rfl

theorem kept_shown (v : Visit) (rules : ParkingRules) (now : ℤ) (engineId : String) :
    Kept engineId s (s.shown v rules now) :=
  ⟨fun _ h => h, fun _ => rfl, fun _ h => (Bool.and_eq_true _ _ ▸ h).1, fun _ => rfl⟩

theorem Sane.shown {v : Visit} {rules : ParkingRules} (h : Sane s) : Sane (s.shown v rules now) :=
  ⟨h.present, fun key hkey => h.rowless key (Bool.and_eq_true _ _ ▸ hkey).1, h.once⟩

theorem Knows.byHash_none {v : Visit} {hash : String} (hknows : Knows s v)
    (h : v.byHash hash = none) : s.parked (v.engineId, hash) = false := by
  refine hknows.unlisted hash fun hmem => ?_
  obtain ⟨t, ht, rfl⟩ := List.mem_map.1 hmem
  have hsome := EcmaScript.isSome_mapGet (List.mem_map_of_mem (f := fun t => (t.hash, t)) ht)
  rw [← Visit.byHash, h] at hsome
  cases hsome

theorem mem_listed_of_byHash {v : Visit} {hash : String} {t : NormalizedTorrent}
    (h : v.byHash hash = some t) : hash ∈ v.listed := by
  obtain ⟨t', ht', heq⟩ := List.mem_map.1 (EcmaScript.mem_of_mapGet h)
  cases heq
  exact List.mem_map_of_mem ht'

theorem Knows.judgeProbe {v : Visit} {row : ParkedTorrent} (hknows : Knows s v)
    (hhas : s.has (v.engineId, row.hash) = true) :
    Sound s v.listed (v.engineId, row.hash) (v.judgeProbe row) := by
  unfold Visit.judgeProbe
  split
  · rename_i hnone
    exact .forget (hknows.byHash_none hnone)
  · rename_i t hsome
    dsimp only
    split_ifs
    · exact .release
    · exact .judge _ hhas (mem_listed_of_byHash hsome)

theorem Knows.startProbe {v : Visit} (hknows : Knows s v) (row : ParkedTorrent) :
    Sound s v.listed (v.engineId, row.hash) (v.startProbe row) := by
  unfold Visit.startProbe
  split
  · rename_i hnone
    exact .forget (hknows.byHash_none hnone)
  · exact .probe

theorem released_shown {v : Visit} {t : NormalizedTorrent} {rules : ParkingRules} {reason : Reason}
    (hknows : Knows s v) (ht : t ∈ v.torrents) (hreason : deadReason t rules now = some reason) :
    (s.shown v rules now).released (v.engineId, t.hash) = false := by
  have hany : (v.torrents.any fun u => u.hash = t.hash && (deadReason u rules now).isSome) = true :=
    List.any_eq_true.2 ⟨t, ht, by simp [hreason]⟩
  simp [Store.shown, Store.shownDead, hknows.seen, hany]

theorem proceed_frame {pass : Pass} {v : Visit} {k' : Call}
    (h : proceed s pass v now = some (s', k')) :
    (s' = s ∨ s' = s.shown v pass.rules now) ∧
      (k' = .run pass ∨ ∃ v', k' = .visit pass v' ∧ v'.engineId = v.engineId) := by
  unfold proceed at h
  split at h
  · cases h
    exact ⟨.inl rfl, .inr ⟨_, rfl, rfl⟩⟩
  · cases h
    exact ⟨.inl rfl, .inr ⟨_, rfl, rfl⟩⟩
  · cases h
    exact ⟨.inl rfl, .inr ⟨_, rfl, rfl⟩⟩
  · dsimp only at h
    split_ifs at h
    · cases h
      exact ⟨.inl rfl, .inr ⟨_, rfl, rfl⟩⟩
    · split at h
      · cases h
        exact ⟨.inl rfl, .inr ⟨_, rfl, rfl⟩⟩
      · cases h
        exact ⟨.inr rfl, .inr ⟨_, rfl, rfl⟩⟩
  · cases h
    exact ⟨.inl rfl, .inl rfl⟩
  · cases h
    exact ⟨.inl rfl, .inr ⟨_, rfl, rfl⟩⟩
  · cases h

theorem Knows.proceed {pass : Pass} {v : Visit} {k' : Call} (hknows : Knows s v) (hops : v.ops = [])
    (h : proceed s pass v now = some (s', k')) : Holds s' k' := by
  have hahead := hknows.ahead
  have hidle : Sound s v.listed v.key [] := .nothing
  unfold Parking.proceed at h
  split at h
  · cases h
    exact ⟨hknows.unlisted, hknows.seen, trivial, hops ▸ hidle⟩
  · rename_i row todo hstage
    cases h
    rw [hstage] at hahead
    obtain ⟨hnodup, hrows⟩ := hahead
    rw [List.map_cons, List.nodup_cons] at hnodup
    refine ⟨hknows.unlisted, hknows.seen, ⟨hnodup.2, fun other hother => ⟨?_, fun _ heq => ?_⟩⟩, ?_⟩
    · exact (hrows other (List.mem_cons_of_mem _ hother)).1
    · exact hnodup.1 (List.mem_map.2 ⟨other, hother, heq⟩)
    · exact hknows.judgeProbe (hrows row List.mem_cons_self).1
  · cases h
    exact ⟨hknows.unlisted, hknows.seen, trivial, hops ▸ hidle⟩
  · rename_i t todo already hstage
    rw [hstage] at hahead
    have hrest : ∀ u ∈ todo, u ∈ v.torrents := fun u hu => hahead u (List.mem_cons_of_mem _ hu)
    dsimp only at h
    split_ifs at h
    · cases h
      exact ⟨hknows.unlisted, hknows.seen, hrest, hops ▸ hidle⟩
    · split at h
      · cases h
        exact ⟨hknows.unlisted, hknows.seen, hrest, hops ▸ hidle⟩
      · rename_i reason hreason
        cases h
        have ht := hahead t List.mem_cons_self
        have hkept := hknows.kept (kept_shown v pass.rules now v.engineId)
        exact ⟨hkept.unlisted, hkept.seen, hrest,
          .park _ rfl (released_shown hknows ht hreason) (List.mem_map_of_mem ht)⟩
  · cases h
    trivial
  · rename_i row todo hstage
    cases h
    exact ⟨hknows.unlisted, hknows.seen, trivial, hknows.startProbe row⟩
  · cases h

/-! ### What a call can do -/

inductive Acts (s : Store) : Call → Answer → Store → Call → Prop
  | user (action : UserAction) : Acts s .idle (.user action) (s.user action) .idle
  /-- Nothing but the flag changes, and the call works on nothing afterwards. -/
  | quiet {k k' : Call} {answer : Answer} (running : Bool) : (∀ key, ¬ k.creates key) →
      (∀ engineId, k'.worksOn engineId = false) → Acts s k answer { s with running := running } k'
  | listed {pass : Pass} {engineId : String} {engines : List String}
      {torrents : List NormalizedTorrent} {now : ℤ} : pass.engines = engineId :: engines →
      s.lists engineId torrents = true →
      Acts s (.run pass) (.listed (some torrents) now)
        (s.shown (visitOf s engineId torrents) pass.rules now)
        (.visit { pass with engines := engines } (visitOf s engineId torrents))
  | answered {pass : Pass} {v : Visit} {op : Op} {rest : List Op} {outcome : Outcome} {now : ℤ} :
      v.ops = op :: rest → Acts s (.visit pass v) (.op outcome now) (s.apply v.key op outcome now)
        (.visit pass { v with ops := after op outcome rest })
  | found {pass : Pass} {v v' : Visit} {now : ℤ} : v.ops = [] → query s pass v now = some v' →
      Acts s (.visit pass v) (.found false now) s (.visit pass v')
  | next {pass : Pass} {v : Visit} {now : ℤ} {s' : Store} {k' : Call} : v.ops = [] →
      proceed s pass v now = some (s', k') → Acts s (.visit pass v) (.next now) s' k'
  | resolved (engineId : String) (hash : Spelled) :
      Acts s (.unpark engineId hash) (.resolved true) s
        (.unparking engineId hash [.forceStart false, .resume, .forget])
  | released (engineId : String) (hash : Spelled) (op : Op) (rest : List Op) (outcome : Outcome)
      (now : ℤ) : Acts s (.unparking engineId hash (op :: rest)) (.op outcome now)
        (unparkStep s engineId hash op rest outcome now).1
        (unparkStep s engineId hash op rest outcome now).2

theorem acts_of_act {k k' : Call} {answer : Answer} (h : act s k answer = some (s', k')) :
    Acts s k answer s' k' := by
  have hquiet {k k' : Call} {answer : Answer} (hcreates : ∀ key, ¬ k.creates key)
      (hworks : ∀ engineId, k'.worksOn engineId = false) : Acts s k answer s k' :=
    .quiet s.running hcreates hworks
  have hid (key : Key) : ¬ False := id
  have hnot (engineId : String) : false = false := rfl
  unfold act at h
  split at h
  · cases h
    exact .user _
  · split_ifs at h
    · cases h
      exact hquiet hid hnot
    · cases h
      exact .quiet true hid hnot
  · cases h
    exact hquiet hid hnot
  · cases h
    exact hquiet hid hnot
  · split at h
    · cases h
      exact .quiet _ hid hnot
    · split_ifs at h
      · cases h
        exact hquiet hid hnot
      · cases h
        exact .quiet _ hid hnot
  · split at h
    · cases h
      exact .quiet _ hid hnot
    · cases h
      exact hquiet hid hnot
    · rename_i engineId engines torrents hengines
      dsimp only at h
      split_ifs at h with hlists
      cases h
      exact .listed hengines hlists
  · rename_i pass v
    split at h
    · rename_i op rest outcome now hops
      cases h
      exact .answered hops
    · rename_i fails now hops
      obtain ⟨v', hquery, heq⟩ := Option.map_eq_some_iff.1 h
      split_ifs at heq with hfails
      · cases heq
        exact .quiet _ (not_creates hops) hnot
      · cases heq
        rw [Bool.eq_false_of_not_eq_true hfails]
        exact .found hops hquery
    · rename_i now hops
      exact .next hops h
    · cases h
  · rename_i engineId hash available
    cases available with
    | true =>
      cases h
      exact .resolved engineId hash
    | false =>
      cases h
      exact hquiet hid hnot
  · rename_i engineId hash op rest outcome now
    have hreleased := Acts.released (s := s) engineId hash op rest outcome now
    rwa [Option.some.inj h] at hreleased
  · cases h

/-! ### What one action keeps -/

theorem holds_of_idle {k : Call} (h : ∀ engineId, k.worksOn engineId = false) (s : Store) :
    Holds s k := by
  cases k with
  | visit pass v =>
    have hv := h v.engineId
    simp [Call.worksOn] at hv
  | unparking engineId =>
    have hv := h engineId
    simp [Call.worksOn] at hv
  | _ => trivial

theorem user_spec (s : Store) (action : UserAction) :
    (∀ key, (s.user action).parked key = true → s.parked key = true) ∧
    ((∀ key, s.parked key = true → key ∈ s.torrents) →
      ∀ key, (s.user action).parked key = true → key ∈ (s.user action).torrents) := by
  have hupdate (key l : Key) (h : Function.update s.parked key false l = true) :
      l ≠ key ∧ s.parked l = true := by
    by_cases hl : l = key
    · rw [hl, Function.update_self] at h
      cases h
    · rw [Function.update_of_ne hl] at h
      exact ⟨hl, h⟩
  cases action with
  | add key => exact ⟨fun l h => h, fun hall l h => List.mem_cons_of_mem _ (hall l h)⟩
  | remove key =>
    refine ⟨fun l h => (hupdate key l h).2, fun hall l h => ?_⟩
    obtain ⟨hne, hold⟩ := hupdate key l h
    exact List.mem_filter.2 ⟨hall l hold, by simpa using hne⟩
  | pause key | resume key =>
    exact ⟨fun l h => (hupdate key l h).2, fun hall l h => hall l (hupdate key l h).2⟩

theorem user_frame (s : Store) (action : UserAction) :
    (s.user action).parkedTorrents = s.parkedTorrents ∧ (s.user action).released = s.released ∧
    (s.user action).releases = s.releases ∧ (s.user action).again = s.again := by
  cases action <;> exact ⟨rfl, rfl, rfl, rfl⟩

/-- The last operation of a release. -/
theorem unparkStep_forget {engineId : String} {hash : Spelled} (now : ℤ) (rest : List Op)
    (hsane : Sane s)
    (hparked : s.parked (engineId, hash.hash) = false) (hcase : hash.lowerCase = true)
    (hout : outcome ≠ .failed) :
    Sane (unparkStep s engineId hash .forget rest outcome now).1 ∧
    Carries s (.unparking engineId hash [.forget])
      (unparkStep s engineId hash .forget rest outcome now).1 .idle := by
  have hstore : (unparkStep s engineId hash .forget rest outcome now).1 =
      (s.perform (engineId, hash.hash) now .forget).release (engineId, hash.hash) := by
    simp [unparkStep, hcase, Store.apply, hout]
  rw [hstore]
  have hhas (l : Key) : ((s.perform (engineId, hash.hash) now .forget).release
      (engineId, hash.hash)).has l = (s.has l && decide (l ≠ (engineId, hash.hash))) :=
    has_perform (n := now) .forget
  refine ⟨⟨hsane.present, fun l hl => ?_, hsane.once⟩, fun l hl => ?_⟩
  · rw [hhas]
    by_cases heq : l = (engineId, hash.hash)
    · simp [heq]
    · have hold : s.released l = true := by
        simpa [Store.release, Store.perform, Function.update_of_ne heq] using hl
      simp [hsane.rowless l hold]
  · have hne : l ≠ (engineId, hash.hash) := by
      rintro rfl
      cases hparked.symm.trans hl
    exact .inr (.inr ⟨hl, id, fun h => by simp [hhas, h, hne]⟩)

theorem after_eq (op : Op) (outcome : Outcome) (rest : List Op) :
    after op outcome rest = rest ∨ after op outcome rest = [] := by
  unfold after
  split_ifs
  · exact .inl rfl
  · exact .inr rfl

theorem Releasing.own {engineId : String} {hash : Spelled} {answer : Answer} (hsane : Sane s)
    (hcase : hash.lowerCase = true) (h : Releasing s (engineId, hash.hash) (op :: rest))
    (hanswer : answer = .op outcome now)
    (horderly : orderly s (.unparking engineId hash (op :: rest)) answer = true) :
    Sane (unparkStep s engineId hash op rest outcome now).1 ∧
    Holds (unparkStep s engineId hash op rest outcome now).1
      (unparkStep s engineId hash op rest outcome now).2 ∧
    Carries s (.unparking engineId hash (op :: rest))
      (unparkStep s engineId hash op rest outcome now).1
      (unparkStep s engineId hash op rest outcome now).2 := by
  subst hanswer
  rcases h with h | h | ⟨h, hparked⟩
  · cases h
    have hstore : s.apply (engineId, hash.hash) (.forceStart false) outcome now = s := ite_self s
    simp only [unparkStep, hstore, reduceCtorEq, if_false]
    refine ⟨hsane, ?_, carries_of_same (fun _ h => h) (fun _ h => h) fun _ => id⟩
    rcases after_eq (.forceStart false) outcome [.resume, .forget] with h | h <;> rw [h]
    · exact ⟨hcase, .inr (.inl rfl)⟩
    · trivial
  · cases h
    have hsound : Sound s [] (engineId, hash.hash) [.resume, .forget] := .resume
    simp only [unparkStep, reduceCtorEq, if_false]
    refine ⟨hsound.sane hsane, ?_, carries_of_same ?_ ?_ fun _ => id⟩
    · have hnext := hsound.next outcome now
      rcases after_eq .resume outcome [.forget] with h | h <;> rw [h]
      · rw [h] at hnext
        exact ⟨hcase, .inr (.inr ⟨rfl, hnext.of_forget⟩)⟩
      · trivial
    · intro key hkey
      unfold Store.apply at hkey
      split_ifs at hkey
      · exact hkey
      · rw [parked_perform] at hkey
        exact (Bool.and_eq_true _ _ ▸ hkey).1
    · intro key hkey
      unfold Store.apply
      split_ifs
      · exact hkey
      · rw [has_perform]
        exact hkey
  · cases h
    have hout : outcome ≠ .failed := by
      simpa [orderly] using horderly
    obtain ⟨hsane', hcarries⟩ := unparkStep_forget now [] hsane hparked hcase hout
    exact ⟨hsane', trivial, hcarries⟩

theorem Acts.own {k k' : Call} {answer : Answer} (h : Acts s k answer s' k') (hsane : Sane s)
    (hholds : Holds s k) (horderly : orderly s k answer = true) :
    Sane s' ∧ Holds s' k' ∧ Carries s k s' k' := by
  have hsame {l l' : Call} (hl : ∀ key, ¬ l.creates key) : Carries s l s l' :=
    carries_of_same (fun _ h => h) (fun _ h => h) hl
  cases h with
  | user action =>
    obtain ⟨hparked, hpresent⟩ := user_spec s action
    obtain ⟨hrows, hreleased, -, hagain⟩ := user_frame s action
    have hhas (key : Key) : (s.user action).has key = s.has key := by
      rw [Store.has, hrows, Store.has]
    refine ⟨⟨hpresent hsane.present, fun key hkey => ?_, hagain.trans hsane.once⟩, trivial,
      carries_of_same hparked (fun key h => (hhas key).trans h) fun _ => id⟩
    rw [hhas]
    exact hsane.rowless key (hreleased ▸ hkey)
  | quiet running hcreates hworks =>
    exact ⟨⟨hsane.present, hsane.rowless, hsane.once⟩, holds_of_idle hworks _,
      carries_of_same (fun _ h => h) (fun _ h => h) hcreates⟩
  | @listed pass engineId engines torrents now hengines hlists =>
    refine ⟨hsane.shown, ⟨fun hash hmem => ?_, fun _ => rfl, trivial, .nothing⟩,
      carries_of_same (fun _ h => h) (fun _ h => h) fun _ => id⟩
    by_contra hparked
    have hpresent := hsane.present (engineId, hash) (Bool.eq_true_of_not_eq_false hparked)
    have hlisted := List.all_eq_true.1 hlists _ hpresent
    simp only [ne_eq, not_true_eq_false, decide_false, Bool.false_or, List.any_eq_true,
      decide_eq_true_eq] at hlisted
    obtain ⟨t, ht, rfl⟩ := hlisted
    exact hmem (List.mem_map_of_mem ht)
  | answered hops =>
    have hsound : Sound s _ _ _ := hops ▸ hholds.sound
    exact ⟨hsound.sane hsane, hholds.answered hsane hops, carries_answered hholds hops horderly⟩
  | found hops hquery =>
    exact ⟨hsane, hholds.query hops hquery, hsame (not_creates hops)⟩
  | next hops hproceed =>
    refine ⟨?_, hholds.proceed hops hproceed, ?_⟩
    · rcases (proceed_frame hproceed).1 with rfl | rfl
      · exact hsane
      · exact hsane.shown
    · rcases (proceed_frame hproceed).1 with rfl | rfl
      · exact hsame (not_creates hops)
      · exact carries_of_same (fun _ h => h) (fun _ h => h) (not_creates hops)
  | resolved engineId hash => exact ⟨hsane, ⟨horderly, .inl rfl⟩, hsame fun _ => id⟩
  | released engineId hash op rest outcome now =>
    exact hholds.2.own hsane hholds.1 rfl horderly

/-! ### What an action leaves to the other calls -/

theorem kept_apply {engineId : String} (hne : key.1 ≠ engineId)
    (hcreate : ∀ row, op = .create row → row.key = key) :
    Kept engineId s (s.apply key op outcome now) := by
  have hkey (hash : String) : (engineId, hash) ≠ key := by
    rintro rfl
    exact hne rfl
  obtain ⟨-, hreleased, hreleases⟩ := perform_frame (s := s) (k := key) (n := now) op
  unfold Store.apply
  split_ifs
  · exact ⟨fun _ h => h, fun _ => rfl, fun _ h => h, fun _ => rfl⟩
  · refine ⟨fun hash h => ?_, fun hash => ?_, fun hash h => hreleased ▸ h, fun hash => ?_⟩
    · rw [parked_perform] at h
      cases op with
      | pause => simpa [hkey hash] using h
      | resume => exact (Bool.and_eq_true _ _ ▸ h).1
      | _ => exact h
    · rw [has_perform]
      cases op with
      | create row =>
        have hrow : row.key ≠ (engineId, hash) := fun h => hkey hash (h.symm.trans (hcreate row rfl))
        simp [hrow]
      | forget => simp [hkey hash]
      | _ => rfl
    · rw [hreleases]

theorem unparkStep_of_ne {engineId : String} {hash : Spelled} (h : op ≠ .forget) :
    (unparkStep s engineId hash op rest outcome now).1 =
      s.apply (engineId, hash.hash) op outcome now := by
  rw [unparkStep, if_neg h]

theorem Releasing.kept {engineId id : String} {hash : Spelled}
    (h : Releasing s (id, hash.hash) (op :: rest)) (hne : id ≠ engineId) :
    Kept engineId s (unparkStep s id hash op rest outcome now).1 := by
  have happly (o : Op) (hcreate : ∀ row, o ≠ .create row) :
      Kept engineId s (s.apply (id, hash.hash) o outcome now) :=
    kept_apply hne fun row h => absurd h (hcreate row)
  rcases h with h | h | ⟨h, -⟩
  · cases h
    rw [unparkStep_of_ne (by decide)]
    exact happly _ (by simp)
  · cases h
    rw [unparkStep_of_ne (by decide)]
    exact happly _ (by simp)
  · cases h
    have hkey (h' : String) : (engineId, h') ≠ (id, hash.hash) := by
      rintro heq
      exact hne (Prod.mk.inj heq).1.symm
    have hrelease (t : Store) (ht : Kept engineId s t) : Kept engineId s (t.release (id, hash.hash)) :=
      ⟨ht.parked, ht.has, fun h' hr => ht.released h' (by
          simpa [Store.release, Function.update_of_ne (hkey h')] using hr),
        fun h' => by simpa [Store.release, Function.update_of_ne (hkey h')] using ht.releases h'⟩
    rw [unparkStep, if_pos rfl]
    refine hrelease _ ?_
    split_ifs
    · exact happly _ (by simp)
    · exact ⟨fun _ h => h, fun _ => rfl, fun _ h => h, fun _ => rfl⟩

theorem Acts.kept {k k' : Call} {answer : Answer} {engineId : String} (h : Acts s k answer s' k')
    (hholds : Holds s k) (hworks : k.worksOn engineId = false) : Kept engineId s s' := by
  have hsame : Kept engineId s s := ⟨fun _ h => h, fun _ => rfl, fun _ h => h, fun _ => rfl⟩
  cases h with
  | user action =>
    obtain ⟨hparked, -⟩ := user_spec s action
    obtain ⟨hrows, hreleased, hreleases, -⟩ := user_frame s action
    exact ⟨fun _ h => hparked _ h, fun _ => by rw [Store.has, hrows, Store.has],
      fun _ h => hreleased ▸ h, fun _ => by rw [hreleases]⟩
  | quiet => exact ⟨fun _ h => h, fun _ => rfl, fun _ h => h, fun _ => rfl⟩
  | listed => exact kept_shown _ _ _ _
  | answered hops =>
    have hsound : Sound s _ _ _ := hops ▸ hholds.sound
    refine kept_apply (of_decide_eq_false hworks) ?_
    rintro row rfl
    exact hsound.of_create.1
  | found => exact hsame
  | next hops hproceed =>
    rcases (proceed_frame hproceed).1 with rfl | rfl
    · exact hsame
    · exact kept_shown _ _ _ _
  | resolved => exact hsame
  | released => exact hholds.2.kept (of_decide_eq_false hworks)

theorem Releasing.parked {id : String} {hash : Spelled}
    (h : Releasing s (id, hash.hash) (op :: rest)) {l : Key}
    (hl : (unparkStep s id hash op rest outcome now).1.parked l = true) : s.parked l = true := by
  rcases h with h | h | ⟨h, -⟩
  · cases h
    rw [unparkStep_of_ne (by decide), Store.apply, Store.perform, ite_self] at hl
    exact hl
  · cases h
    rw [unparkStep_of_ne (by decide), Store.apply] at hl
    split_ifs at hl
    · exact hl
    · rw [parked_perform] at hl
      exact (Bool.and_eq_true _ _ ▸ hl).1
  · cases h
    rw [unparkStep, if_pos rfl, Store.apply] at hl
    split_ifs at hl
    · exact hl
    · exact hl
    · exact hl

theorem Acts.parked {k k' : Call} {answer : Answer} {engineId hash : String}
    (h : Acts s k answer s' k') (hholds : Holds s k) (hvisits : k.visits engineId = false)
    (hparked : s'.parked (engineId, hash) = true) : s.parked (engineId, hash) = true := by
  cases h with
  | released => exact hholds.2.parked hparked
  | resolved => exact hparked
  | answered hops => exact ((Acts.answered hops).kept hholds hvisits).parked hash hparked
  | found hops hquery => exact ((Acts.found hops hquery).kept hholds hvisits).parked hash hparked
  | next hops hproceed => exact ((Acts.next hops hproceed).kept hholds hvisits).parked hash hparked
  | user action => exact (user_spec s action).1 _ hparked
  | quiet => exact hparked
  | listed => exact hparked

/-- The call is about to begin a visit of the engine. -/
def Call.enters (engineId : String) : Call → Prop
  | .run pass => pass.engines.head? = some engineId
  | _ => False

def Call.frees (engineId : String) : Call → Prop
  | .unpark id _ => id = engineId
  | _ => False

theorem Acts.visits {k k' : Call} {answer : Answer} {engineId : String}
    (h : Acts s k answer s' k') (hvisits : k'.visits engineId = true) :
    k.visits engineId = true ∨ k.enters engineId := by
  cases h with
  | user => exact .inl hvisits
  | quiet _ _ hworks =>
    cases k' with
    | visit => cases (hworks engineId).symm.trans hvisits
    | _ => cases hvisits
  | listed hengines =>
    right
    rw [Call.enters, hengines, ← of_decide_eq_true hvisits]
    rfl
  | answered => exact .inl hvisits
  | found hops hquery =>
    left
    rw [Call.visits, ← query_engineId hquery]
    exact hvisits
  | next hops hproceed =>
    obtain ⟨-, rfl | ⟨v', rfl, heq⟩⟩ := proceed_frame hproceed
    · cases hvisits
    · left
      rw [Call.visits, ← heq]
      exact hvisits
  | resolved => cases hvisits
  | released =>
    unfold unparkStep at hvisits
    dsimp only at hvisits
    split_ifs at hvisits <;> cases hvisits

theorem Acts.worksOn {k k' : Call} {answer : Answer} {engineId : String}
    (h : Acts s k answer s' k') (hworks : k'.worksOn engineId = true) :
    k.worksOn engineId = true ∨ k.enters engineId ∨ k.frees engineId := by
  have hvisit {pass : Pass} {v : Visit} (hk : k' = .visit pass v) :
      k.visits engineId = true ∨ k.enters engineId := by
    subst hk
    exact h.visits hworks
  have hof (hk : k.visits engineId = true) : k.worksOn engineId = true := by
    cases k with
    | visit => exact hk
    | _ => cases hk
  cases h with
  | user => exact .inl hworks
  | quiet _ _ hidle => cases (hidle engineId).symm.trans hworks
  | listed => exact .inr (.inl ((hvisit rfl).resolve_left (by simp [Call.visits])))
  | answered => exact .inl hworks
  | found => exact (hvisit rfl).imp hof .inl
  | next hops hproceed =>
    obtain ⟨-, rfl | ⟨v', rfl, -⟩⟩ := proceed_frame hproceed
    · cases hworks
    · exact (hvisit rfl).imp hof .inl
  | resolved id =>
    have hid : id = engineId := of_decide_eq_true hworks
    exact .inr (.inr hid)
  | released id hash op rest outcome now =>
    unfold unparkStep at hworks
    dsimp only at hworks
    rw [apply_ite Prod.snd] at hworks
    dsimp only at hworks
    split_ifs at hworks
    · cases hworks
    · cases hworks
    · exact .inl hworks

/-- Calls stay apart, as nothing is entered or freed that another call is at. -/
theorem Acts.apart {k k' l : Call} {answer : Answer} (h : Acts s k answer s' k') (hapart : Apart k l)
    (hclash : k.clashes l = false) : Apart k' l := by
  have henters (engineId : String) (he : k.enters engineId) : l.worksOn engineId = false := by
    cases k with
    | run pass =>
      rw [Call.enters] at he
      simpa [Call.clashes, he] using hclash
    | _ => cases he
  have hworks (engineId : String) (hl : l.visits engineId = true) : l.worksOn engineId = true := by
    cases l with
    | visit => exact hl
    | _ => cases hl
  intro engineId
  refine ⟨fun hk => ?_, fun hl => ?_⟩
  · rcases h.visits hk with hold | he
    · exact (hapart engineId).1 hold
    · exact henters engineId he
  · by_contra hk
    rcases h.worksOn (Bool.eq_true_of_not_eq_false hk) with hold | he | hfree
    · rw [(hapart engineId).2 hl] at hold
      cases hold
    · cases (henters engineId he).symm.trans (hworks engineId hl)
    · cases k with
      | unpark id hash =>
        rw [Call.frees] at hfree
        subst hfree
        cases hclash.symm.trans hl
      | _ => cases hfree

end Visits

/-! ### Runs -/

section Runs

variable {ι : Type*} [DecidableEq ι] {start c : Config ι Store Call}

theorem run_invariant (hstart : Fresh start)
    (hrun : Run (guarded orderly act) Undisturbed start c) :
    Inv Sane Holds Apart c ∧ Covered c := by
  refine hrun.invariant (P := fun c => Inv Sane Holds Apart c ∧ Covered c) ?_ ?_
  · refine ⟨⟨⟨fun key h => (hstart.parked key h).1, fun key h => ?_, hstart.once⟩, fun i => ?_,
      fun i j _ engineId => ?_⟩, fun key h => .inl (hstart.parked key h).2⟩
    · cases (hstart.released key).symm.trans h
    · rw [hstart.idle i]
      trivial
    · rw [hstart.idle i, hstart.idle j]
      exact ⟨fun _ => rfl, fun _ => rfl⟩
  · rintro c i answer s k ⟨hinv, hcovered⟩ hallowed hact
    obtain ⟨horderly, hact⟩ := guarded_eq_some.1 hact
    have hacts := acts_of_act hact
    obtain ⟨hsane, hholds, hcarries⟩ := hacts.own hinv.store (hinv.call i) horderly
    refine ⟨hinv.update (fun _ _ => Apart.symm) hsane hholds fun j hj => ⟨?_, ?_⟩, fun key hkey => ?_⟩
    · have hapart := hinv.pair i j hj.symm
      have hj := hinv.call j
      cases hcall : c.call j with
      | visit pass v =>
        rw [hcall] at hj hapart
        exact hj.kept (hacts.kept (hinv.call i) ((hapart v.engineId).2 (decide_eq_true rfl)))
      | unparking engineId hash ops =>
        rw [hcall] at hj hapart
        refine ⟨hj.1, hj.2.imp_right (Or.imp_right (And.imp_right fun hparked => ?_))⟩
        refine eq_false_of_imp (hacts.parked (hinv.call i) ?_) hparked
        by_contra hvisits
        have hnot := (hapart engineId).1 (Bool.eq_true_of_not_eq_false hvisits)
        cases hnot.symm.trans (decide_eq_true rfl)
      | _ => trivial
    · exact hacts.apart (hinv.pair i j hj.symm) (hallowed j hj)
    · rcases hcarries key hkey with hhas | hcreates | ⟨hparked, hnot, hhas⟩
      · exact .inl hhas
      · exact .inr ⟨i, by simpa using hcreates⟩
      · refine (hcovered key hparked).imp hhas ?_
        rintro ⟨j, hj⟩
        have hne : j ≠ i := by
          rintro rfl
          exact hnot hj
        exact ⟨j, by simpa [Function.update_of_ne hne] using hj⟩

/-- If a run has an engine to itself, nothing is paused without a word, no row fails to be written
after the pause, and a release by hand removes its row, parking keeps its promise whenever no call
is in progress. -/
theorem orderly_returns (hstart : Fresh start)
    (hrun : Run (guarded orderly act) Undisturbed start c) (hidle : ∀ i, c.call i = .idle) :
    Returns c.store := by
  obtain ⟨hinv, hcovered⟩ := run_invariant hstart hrun
  refine ⟨fun key hkey => (hcovered key hkey).resolve_right ?_, hinv.store.once⟩
  rintro ⟨i, hi⟩
  rw [hidle i] at hi
  exact hi

end Runs

/-! ### A torrent without seeders -/

/-- Added at the epoch, and nothing has come of it. -/
def seedless : NormalizedTorrent where
  hash := "a"
  name := "Seedless"
  state := .downloading
  progress := 0
  downloadRate := 0
  seedsConnected := 0
  seedsTotal := 0
  peersConnected := 0
  addedAt := some 0

def oneHour : ℤ := 3600000

def enabledRules : ParkingRules := { defaultParkingRules with enabled := true }

def seedlessRow : ParkedTorrent where
  engineId := "qb"
  hash := "a"
  name := "Seedless"
  reason := .noSeeders
  lastSeeders := 0
  probingSince := some 0

/-- The engine holds the torrent; it is parked and being probed, or has never been. -/
def seedlessStart (parked : Bool) : Config Bool Store Call where
  store :=
    { parkedTorrents := if parked then ⟨[seedlessRow], List.nodup_singleton _⟩ else ⟨[], List.nodup_nil⟩
      running := false
      torrents := [("qb", "a")]
      parked := fun key => parked && decide (key = ("qb", "a"))
      releases := fun _ => 0
      released := fun _ => false
      again := false }
  call := fun _ => .idle

theorem fresh_seedlessStart (parked : Bool) : Fresh (seedlessStart parked) where
  idle _ := rfl
  parked key hkey := by
    obtain ⟨rfl, hkey⟩ := Bool.and_eq_true _ _ ▸ hkey
    rw [of_decide_eq_true hkey]
    exact ⟨List.mem_cons_self, by decide +kernel⟩
  released _ := rfl
  once := rfl

/-- A run by hand comes to list the torrent. -/
def listing (i : Bool) : List (Bool × Answer) :=
  [(i, .runNow), (i, .rules (some enabledRules) ["qb"]), (i, .listed (some [seedless]) oneHour)]

/-- `unpark`, with nothing failing. -/
def unparking (i : Bool) : List (Bool × Answer) :=
  [(i, .unpark "qb" ⟨"a", true⟩), (i, .resolved true), (i, .op .done oneHour),
   (i, .op .done oneHour), (i, .op .done oneHour)]

/-- The queries that find nothing to judge, and the pause. -/
def pausing (i : Bool) : List (Bool × Answer) :=
  [(i, .found false oneHour), (i, .next oneHour), (i, .found false oneHour), (i, .next oneHour),
   (i, .op .done oneHour)]

/-- Writing the row, and the end of a run that fails to query the probes. -/
def recording (i : Bool) (outcome : Outcome) : List (Bool × Answer) :=
  [(i, .op outcome oneHour), (i, .next oneHour), (i, .found true oneHour)]

def Call.isIdle : Call → Bool
  | .idle => true
  | _ => false

theorem eq_idle_of_isIdle {k : Call} (h : k.isIdle = true) : k = .idle := by
  cases k with
  | idle => rfl
  | _ => cases h

def allIdle (c : Config Bool Store Call) : Bool := (c.call false).isIdle && (c.call true).isIdle

theorem idle_of_allIdle {c : Config Bool Store Call} (h : allIdle c = true) (i : Bool) :
    c.call i = .idle := by
  obtain ⟨hfalse, htrue⟩ := Bool.and_eq_true _ _ ▸ h
  cases i with
  | false => exact eq_idle_of_isIdle hfalse
  | true => exact eq_idle_of_isIdle htrue

/-- Parked, released by hand, and parked again by a run that lists it afterwards. -/
def seedlessSchedule : List (Bool × Answer) :=
  listing false ++ pausing false ++ recording false .done ++ unparking true ++
  listing false ++ pausing false ++ recording false .done

theorem seedless_run : ∃ c, Run (guarded orderly act) Undisturbed (seedlessStart false) c ∧
    (allIdle c && c.store.parked ("qb", "a") && decide (c.store.releases ("qb", "a") = 1)) = true :=
  run_of_exec_any _ _ _ seedlessSchedule _ (by decide +kernel)

theorem orderly_returns_seedless : ∃ c,
    Run (guarded orderly act) Undisturbed (seedlessStart false) c ∧
    c.store.parked ("qb", "a") = true ∧ c.store.releases ("qb", "a") = 1 ∧ Returns c.store := by
  obtain ⟨c, hrun, hend⟩ := seedless_run
  simp only [Bool.and_eq_true, decide_eq_true_eq] at hend
  exact ⟨c, hrun, hend.1.2, hend.2,
    orderly_returns (fresh_seedlessStart false) hrun (idle_of_allIdle hend.1.1)⟩

/-- One run on its own, whose row is not written once the torrent is paused; and a run that judges
a probe that is released at the same time, where nothing fails. -/
theorem parking_strands :
    (∃ c, Run act Undisturbed (seedlessStart false) c ∧ (∀ i, c.call i = .idle) ∧
      c.store.parked ("qb", "a") = true ∧ c.store.has ("qb", "a") = false) ∧
    (∃ c, Run (guarded orderly act) (fun _ _ => True) (seedlessStart true) c ∧
      (∀ i, c.call i = .idle) ∧ c.store.again = true ∧
      c.store.parked ("qb", "a") = true ∧ c.store.has ("qb", "a") = false) := by
  constructor
  · obtain ⟨c, hrun, hend⟩ := run_of_exec_any act Undisturbed (seedlessStart false)
      (listing false ++ pausing false ++ recording false .failed)
      (fun c => allIdle c && c.store.parked ("qb", "a") && !c.store.has ("qb", "a"))
      (by decide +kernel)
    simp only [Bool.and_eq_true, Bool.not_eq_true'] at hend
    exact ⟨c, hrun, idle_of_allIdle hend.1.1, hend.1.2, hend.2⟩
  · obtain ⟨c, hrun, hend⟩ := run_of_exec_any (guarded orderly act) (fun _ _ => True)
      (seedlessStart true)
      (listing false ++ [(false, .found false oneHour)] ++ unparking true ++
        [(false, .next oneHour), (false, .op .done oneHour), (false, .op .done oneHour),
         (false, .op .done oneHour), (false, .next oneHour), (false, .found true oneHour)])
      (fun c => allIdle c && c.store.again && c.store.parked ("qb", "a") &&
        !c.store.has ("qb", "a"))
      (by decide +kernel)
    simp only [Bool.and_eq_true, Bool.not_eq_true'] at hend
    exact ⟨c, hrun, idle_of_allIdle hend.1.1.1, hend.1.1.2, hend.1.2, hend.2⟩

end UltraTorrent.Torrents.Parking
