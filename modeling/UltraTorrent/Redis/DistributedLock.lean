import UltraTorrent.Library.EcmaScript
import UltraTorrent.Library.Interleaving

/-! A lock that is a lease in Redis, or a guard within one process where Redis cannot be had. Any number of
processes run calls of it at once; Redis carries a command out, or it does not, and its answer may be lost. -/
namespace UltraTorrent.Redis.DistributedLock

open Library Library.EcmaScript Library.Interleaving

structure Lease where
  token : String
  expiresAt : Instant
  deriving DecidableEq

variable {ρ κ : Type*}

structure Store (ρ κ : Type*) where
  leases : κ → Option Lease
  clock : Instant
  /-- The tokens drawn so far. -/
  drawn : List String
  redisDisabled : ρ → Bool
  localLocks : ρ → κ → Bool

/-- A call of `withLock` in one of the processes. -/
structure Request (ρ κ : Type*) where
  replica : ρ
  key : κ
  ttlMs : ℕ
  deriving DecidableEq

/-- Where a call stands; the clock of Redis and the connections of the processes go on beside the calls. -/
inductive Call (ρ κ : Type*) where
  | withLock (q : Request ρ κ)
  | setting (q : Request ρ κ) (token : String)
  | awaiting (q : Request ρ κ) (token : String) (acquired : Option Instant)
  | leased (q : Request ρ κ) (token : String) (expiresAt : Instant)
  | releasing (q : Request ρ κ) (token : String) (failed : Bool)
  | guarded (q : Request ρ κ)
  | ran
  | refused
  | threw
  | clock
  | connection (replica : ρ)
  deriving DecidableEq

/-- Whether a command or the body fails, whether Redis carries the command out, the token drawn, and the time that passes. -/
structure Answer where
  error : Bool := false
  executed : Bool := true
  token : String := ""
  elapsed : ℕ := 0

namespace Store

variable [DecidableEq ρ] [DecidableEq κ] (s : Store ρ κ)

/-- `SET key token PX ttl NX`, with when the lease expires if it was had. -/
def setNx (key : κ) (token : String) (ttlMs : ℕ) : Store ρ κ × Option Instant :=
  if (s.leases key).any (s.clock < ·.expiresAt) then (s, none)
  else ({ s with leases := Function.update s.leases key (some ⟨token, s.clock + ttlMs⟩) }, some (s.clock + ttlMs))

/-- Deletes the lease only if we still own it. -/
def releaseRedis (key : κ) (token : String) : Store ρ κ :=
  if (s.leases key).any fun lease => lease.token = token ∧ s.clock < lease.expiresAt then
    { s with leases := Function.update s.leases key none }
  else s

def disableRedis (replica : ρ) : Store ρ κ := { s with redisDisabled := Function.update s.redisDisabled replica true }

def setLocal (replica : ρ) (key : κ) (held : Bool) : Store ρ κ :=
  { s with localLocks := Function.update s.localLocks replica (Function.update (s.localLocks replica) key held) }

def fallback (q : Request ρ κ) : Store ρ κ × Call ρ κ :=
  if s.localLocks q.replica q.key then (s, .refused) else (s.setLocal q.replica q.key true, .guarded q)

/-- Redis went away mid-flight, or the body threw. -/
def recover (q : Request ρ κ) : Store ρ κ × Call ρ κ := (s.disableRedis q.replica).fallback q

end Store

/-- One action; `none` when the call has returned. A token is drawn that was not drawn before. -/
def act [DecidableEq ρ] [DecidableEq κ] (s : Store ρ κ) (call : Call ρ κ) (answer : Answer) : Option (Store ρ κ × Call ρ κ) :=
  match call with
  | .withLock q =>
    if s.redisDisabled q.replica then some (s.fallback q)
    else if answer.error then some (s.recover q)
    else if answer.token ∈ s.drawn then none
    else some ({ s with drawn := answer.token :: s.drawn }, .setting q answer.token)
  | .setting q token =>
    if answer.executed then
      some ((s.setNx q.key token q.ttlMs).1, .awaiting q token (s.setNx q.key token q.ttlMs).2)
    else some (s.recover q)
  | .awaiting q token acquired =>
    if answer.error then some (s.recover q)
    else
      match acquired with
      | none => some (s, .refused)
      | some expiresAt => some (s, .leased q token expiresAt)
  | .leased q token _ => some (s, .releasing q token answer.error)
  | .releasing q token failed =>
    -- a failed release just means the lease expires on its own
    let s := if answer.executed then s.releaseRedis q.key token else s
    some (if failed then s.recover q else (s, .ran))
  | .guarded q => some (s.setLocal q.replica q.key false, if answer.error then .threw else .ran)
  | .clock => some ({ s with clock := s.clock + answer.elapsed }, .clock)
  | .connection replica => some (s.disableRedis replica, .connection replica)
  | .ran | .refused | .threw => none

/-! ### What each call may rely on -/

def Call.token : Call ρ κ → Option String
  | .setting _ token | .awaiting _ token _ | .leased _ token _ | .releasing _ token _ => some token
  | _ => none

def Call.lease : Call ρ κ → Option (κ × Lease)
  | .awaiting q token (some expiresAt) | .leased q token expiresAt => some (q.key, ⟨token, expiresAt⟩)
  | _ => none

def Call.guard : Call ρ κ → Option (ρ × κ)
  | .guarded q => some (q.replica, q.key)
  | _ => none

/-- A token that was sent was drawn, a lease that has not expired is there, and a guard is set where Redis is not used. -/
structure Holds (s : Store ρ κ) (call : Call ρ κ) : Prop where
  drawn : ∀ token ∈ call.token, token ∈ s.drawn
  lease : ∀ held ∈ call.lease, s.clock < held.2.expiresAt → s.leases held.1 = some held.2
  guard : ∀ held ∈ call.guard, s.localLocks held.1 held.2 = true ∧ s.redisDisabled held.1 = true

/-- No two calls share a token or a guard. -/
structure Apart (k l : Call ρ κ) : Prop where
  token : ∀ token ∈ k.token, token ∉ l.token
  guard : ∀ held ∈ k.guard, held ∉ l.guard

theorem Apart.symm {k l : Call ρ κ} (h : Apart k l) : Apart l k :=
  ⟨fun token hl hk => h.token token hk hl, fun held hl hk => h.guard held hk hl⟩

variable {s s' : Store ρ κ} {call call' l : Call ρ κ} {q : Request ρ κ} {answer : Answer} {token : String}

/-- What one call does leaves the others what they rely on. -/
structure Leaves (s s' : Store ρ κ) (l : Call ρ κ) : Prop where
  drawn : ∀ token ∈ s.drawn, token ∈ s'.drawn
  clock : s.clock ≤ s'.clock
  lease : ∀ held ∈ l.lease, s'.clock < held.2.expiresAt → s.leases held.1 = some held.2 → s'.leases held.1 = some held.2
  guard : ∀ held ∈ l.guard, s.localLocks held.1 held.2 = true → s'.localLocks held.1 held.2 = true
  disabled : ∀ replica, s.redisDisabled replica = true → s'.redisDisabled replica = true

theorem Leaves.refl (s : Store ρ κ) (l : Call ρ κ) : Leaves s s l :=
  ⟨fun _ h => h, le_rfl, fun _ _ _ h => h, fun _ _ h => h, fun _ h => h⟩

theorem Leaves.trans {s'' : Store ρ κ} (h : Leaves s s' l) (h' : Leaves s' s'' l) : Leaves s s'' l :=
  ⟨fun token ht => h'.drawn token (h.drawn token ht), h.clock.trans h'.clock,
    fun held hl hlt hs => h'.lease held hl hlt (h.lease held hl (lt_of_le_of_lt h'.clock hlt) hs),
    fun held hl hs => h'.guard held hl (h.guard held hl hs), fun replica hs => h'.disabled replica (h.disabled replica hs)⟩

theorem Leaves.holds (h : Leaves s s' l) (hholds : Holds s l) : Holds s' l :=
  ⟨fun token ht => h.drawn token (hholds.drawn token ht),
    fun held hl hlt => h.lease held hl hlt (hholds.lease held hl (lt_of_le_of_lt h.clock hlt)),
    fun held hl => ⟨h.guard held hl (hholds.guard held hl).1, h.disabled _ (hholds.guard held hl).2⟩⟩

theorem leaves_disableRedis [DecidableEq ρ] (replica : ρ) : Leaves s (s.disableRedis replica) l := by
  refine ⟨fun _ h => h, le_rfl, fun _ _ _ h => h, fun _ _ h => h, fun other h => ?_⟩
  dsimp only [Store.disableRedis]
  rw [Function.update_apply]
  split_ifs
  · rfl
  · exact h

theorem setLocal_apply [DecidableEq ρ] [DecidableEq κ] (replica other : ρ) (key key' : κ) (held : Bool) :
    (s.setLocal replica key held).localLocks other key' =
      if other = replica ∧ key' = key then held else s.localLocks other key' := by
  dsimp only [Store.setLocal]
  rw [Function.update_apply]
  by_cases hother : other = replica
  · simp only [hother, if_true, true_and, Function.update_apply]
  · simp only [hother, if_false, false_and]

/-- A lease is had only where there is none that has not expired. -/
theorem leaves_setNx [DecidableEq κ] (key : κ) (token : String) (ttlMs : ℕ) : Leaves s (s.setNx key token ttlMs).1 l := by
  unfold Store.setNx
  split_ifs with hheld
  · exact .refl s l
  · refine ⟨fun _ h => h, le_rfl, fun held hl hlt hs => ?_, fun _ _ h => h, fun _ h => h⟩
    dsimp only at hlt ⊢
    rw [Function.update_apply]
    split_ifs with hkey
    · rw [hkey] at hs
      rw [hs] at hheld
      simp [hlt] at hheld
    · exact hs

theorem setNx_drawn [DecidableEq κ] (key : κ) (token : String) (ttlMs : ℕ) : (s.setNx key token ttlMs).1.drawn = s.drawn := by
  unfold Store.setNx
  split_ifs <;> rfl

theorem setNx_lease [DecidableEq κ] : ∀ held ∈ (Call.awaiting q token (s.setNx q.key token q.ttlMs).2).lease,
    (s.setNx q.key token q.ttlMs).1.clock < held.2.expiresAt →
      (s.setNx q.key token q.ttlMs).1.leases held.1 = some held.2 := by
  unfold Store.setNx
  split_ifs
  · exact nofun
  · rintro held ⟨⟩ _
    exact Function.update_self ..

theorem leaves_releaseRedis [DecidableEq κ] (key : κ) (htoken : token ∉ l.token) :
    Leaves s (s.releaseRedis key token) l := by
  unfold Store.releaseRedis
  split_ifs with hheld
  · refine ⟨fun _ h => h, le_rfl, fun held hl hlt hs => ?_, fun _ _ h => h, fun _ h => h⟩
    dsimp only
    rw [Function.update_apply]
    split_ifs with hkey
    · rw [← hkey, hs] at hheld
      simp only [Option.any_some, decide_eq_true_eq] at hheld
      refine absurd ?_ htoken
      unfold Call.lease at hl
      split at hl <;> cases hl
      · exact hheld.1 ▸ rfl
      · exact hheld.1 ▸ rfl
    · exact hs
  · exact .refl s l

/-! ### What one action does -/

variable [DecidableEq ρ] [DecidableEq κ]

theorem leaves_setLocal {replica : ρ} {key : κ} {held : Bool} (h : held = true ∨ (replica, key) ∉ l.guard) :
    Leaves s (s.setLocal replica key held) l := by
  refine ⟨fun _ h => h, le_rfl, fun _ _ _ h => h, fun other hl hs => ?_, fun _ h => h⟩
  rw [setLocal_apply]
  split_ifs with heq
  · rcases h with h | h
    · exact h
    · exact absurd (heq.1 ▸ heq.2 ▸ hl) h
  · exact hs

theorem fallback_spec (hdisabled : s.redisDisabled q.replica = true) :
    Holds (s.fallback q).1 (s.fallback q).2 ∧
      ∀ l, Holds s l → Leaves s (s.fallback q).1 l ∧ Apart (s.fallback q).2 l := by
  unfold Store.fallback
  split_ifs with hheld
  · exact ⟨⟨nofun, nofun, nofun⟩, fun l _ => ⟨.refl s l, nofun, nofun⟩⟩
  · refine ⟨⟨nofun, nofun, ?_⟩, fun l hl => ⟨leaves_setLocal (.inl rfl), nofun, ?_⟩⟩
    · rintro held hguard
      cases hguard
      exact ⟨by rw [setLocal_apply, if_pos ⟨rfl, rfl⟩], hdisabled⟩
    · rintro held hguard hl'
      cases hguard
      exact hheld (hl.guard _ hl').1

theorem recover_spec : Holds (s.recover q).1 (s.recover q).2 ∧
    ∀ l, Holds s l → Leaves s (s.recover q).1 l ∧ Apart (s.recover q).2 l := by
  have hdisabled : (s.disableRedis q.replica).redisDisabled q.replica = true := Function.update_self ..
  obtain ⟨hholds, hrest⟩ := fallback_spec hdisabled
  refine ⟨hholds, fun l hl => ?_⟩
  have hleaves : Leaves s (s.disableRedis q.replica) l := leaves_disableRedis q.replica
  obtain ⟨hleaves', hapart⟩ := hrest l (hleaves.holds hl)
  exact ⟨hleaves.trans hleaves', hapart⟩

/-- What a call does keeps what it relies on, leaves what the others do, and keeps it apart from them. -/
def Keeps (s : Store ρ κ) (call : Call ρ κ) (next : Store ρ κ × Call ρ κ) : Prop :=
  Holds next.1 next.2 ∧ ∀ l, Holds s l → Apart call l → Leaves s next.1 l ∧ Apart next.2 l

theorem act_keeps (hcall : Holds s call) (h : act s call answer = some (s', call')) : Keeps s call (s', call') := by
  have hrecover : ∀ {q}, s.recover q = (s', call') → Keeps s call (s', call') := by
    intro q heq
    rw [← heq]
    exact ⟨recover_spec.1, fun l hl _ => recover_spec.2 l hl⟩
  cases call with
  | withLock q =>
    dsimp only [act] at h
    split_ifs at h with hdisabled herror hdrawn
    · rw [← Option.some.inj h]
      exact ⟨(fallback_spec hdisabled).1, fun l hl _ => (fallback_spec hdisabled).2 l hl⟩
    · exact hrecover (Option.some.inj h)
    · cases h
      refine ⟨⟨?_, nofun, nofun⟩, fun l hl _ => ⟨⟨fun _ h => List.mem_cons_of_mem _ h, le_rfl, fun _ _ _ h => h,
        fun _ _ h => h, fun _ h => h⟩, ?_, nofun⟩⟩
      · rintro token ⟨⟩
        exact List.mem_cons_self
      · rintro token ⟨⟩ hl'
        exact hdrawn (hl.drawn _ hl')
  | setting q token =>
    dsimp only [act] at h
    split_ifs at h
    · cases h
      refine ⟨⟨?_, ?_, nofun⟩, fun l _ hapart => ⟨leaves_setNx q.key token q.ttlMs, hapart.token, nofun⟩⟩
      · intro other hother
        rw [setNx_drawn]
        exact hcall.drawn other hother
      · exact setNx_lease
    · exact hrecover (Option.some.inj h)
  | awaiting q token acquired =>
    cases acquired with
    | none =>
      dsimp only [act] at h
      split_ifs at h
      · exact hrecover (Option.some.inj h)
      · cases h
        exact ⟨⟨nofun, nofun, nofun⟩, fun l _ _ => ⟨.refl s l, nofun, nofun⟩⟩
    | some expiresAt =>
      dsimp only [act] at h
      split_ifs at h
      · exact hrecover (Option.some.inj h)
      · cases h
        exact ⟨⟨hcall.drawn, hcall.lease, nofun⟩, fun l _ hapart => ⟨.refl s l, hapart.token, nofun⟩⟩
  | leased q token expiresAt =>
    cases h
    exact ⟨⟨hcall.drawn, nofun, nofun⟩, fun l _ hapart => ⟨.refl s l, hapart.token, nofun⟩⟩
  | releasing q token failed =>
    obtain ⟨released, hreleased⟩ : ∃ released, released = if answer.executed then s.releaseRedis q.key token else s := ⟨_, rfl⟩
    have hleaves : ∀ l, Apart (.releasing q token failed) l → Leaves s released l := by
      intro l hapart
      rw [hreleased]
      split_ifs
      · exact leaves_releaseRedis q.key (hapart.token token rfl)
      · exact .refl s l
    have hnext : (if failed then released.recover q else (released, .ran)) = (s', call') := by
      rw [hreleased]
      exact Option.some.inj h
    split_ifs at hnext
    · rw [← hnext]
      refine ⟨recover_spec.1, fun l hl hapart => ?_⟩
      obtain ⟨hrecovered, hapart'⟩ := recover_spec.2 l ((hleaves l hapart).holds hl)
      exact ⟨(hleaves l hapart).trans hrecovered, hapart'⟩
    · cases hnext
      exact ⟨⟨nofun, nofun, nofun⟩, fun l _ hapart => ⟨hleaves l hapart, nofun, nofun⟩⟩
  | guarded q =>
    cases h
    refine ⟨?_, fun l hl hapart => ⟨leaves_setLocal (.inr (hapart.guard _ rfl)), ?_⟩⟩
    · split_ifs <;> exact ⟨nofun, nofun, nofun⟩
    · split_ifs <;> exact ⟨nofun, nofun⟩
  | clock =>
    cases h
    refine ⟨⟨nofun, nofun, nofun⟩, fun l _ _ => ⟨⟨fun _ h => h, ?_, fun _ _ _ h => h, fun _ _ h => h, fun _ h => h⟩, nofun, nofun⟩⟩
    exact Int.le_add_of_nonneg_right (Int.natCast_nonneg _)
  | connection replica =>
    cases h
    exact ⟨⟨nofun, nofun, nofun⟩, fun l _ _ => ⟨leaves_disableRedis replica, nofun, nofun⟩⟩
  | ran | refused | threw => cases h

/-! ### Runs -/

variable {ι : Type*} [DecidableEq ι] {allowed : Config ι (Store ρ κ) (Call ρ κ) → ι → Prop}
  {start c : Config ι (Store ρ κ) (Call ρ κ)}

/-- What a call starts as, and what goes on beside the calls. -/
def isEntry : Call ρ κ → Bool
  | .withLock _ | .clock | .connection _ => true
  | _ => false

/-- Two bodies run at once under one key only when the lease of one has expired, or when one of the processes has
lost Redis, and then not in one process. -/
structure Exclusive (c : Config ι (Store ρ κ) (Call ρ κ)) : Prop where
  leases : ∀ i j q q' token token' expiresAt expiresAt', i ≠ j → c.call i = .leased q token expiresAt →
    c.call j = .leased q' token' expiresAt' → q.key = q'.key → expiresAt ≤ c.store.clock ∨ expiresAt' ≤ c.store.clock
  disabled : ∀ i q, c.call i = .guarded q → c.store.redisDisabled q.replica = true
  guards : ∀ i j q q', i ≠ j → c.call i = .guarded q → c.call j = .guarded q' → q.key = q'.key → q.replica ≠ q'.replica

/-- However the calls are interleaved, and whatever is lost between the processes and Redis. -/
theorem run_exclusive (hentry : ∀ i, isEntry (start.call i) = true) (h : Run act allowed start c) : Exclusive c := by
  have hidle : ∀ i, Holds start.store (start.call i) ∧ ∀ l, Apart (start.call i) l := by
    intro i
    have hi := hentry i
    cases hcall : start.call i with
    | withLock | clock | connection => exact ⟨⟨nofun, nofun, nofun⟩, fun l => ⟨nofun, nofun⟩⟩
    | _ =>
      rw [hcall] at hi
      cases hi
  have hstart : Inv (fun _ => True) Holds Apart start := ⟨trivial, fun i => (hidle i).1, fun i j _ => (hidle i).2 _⟩
  have hinv : Inv (fun _ => True) Holds Apart c := by
    refine h.invariant hstart ?_
    intro c i answer s k hinv _ hact
    obtain ⟨hholds, hrest⟩ := act_keeps (hinv.call i) hact
    refine hinv.update (fun _ _ => Apart.symm) trivial hholds fun j hj => ?_
    obtain ⟨hleaves, hapart⟩ := hrest _ (hinv.call j) (hinv.pair i j hj.symm)
    exact ⟨hleaves.holds (hinv.call j), hapart⟩
  refine ⟨?_, fun i q hi => ?_, ?_⟩
  · intro i j q q' token token' expiresAt expiresAt' hij hi hj hkey
    by_contra hlive
    push Not at hlive
    have hi' := (hinv.call i).lease
    have hj' := (hinv.call j).lease
    have hpair := (hinv.pair i j hij).token
    rw [hi] at hi' hpair
    rw [hj] at hj' hpair
    have hsame := (hi' _ rfl hlive.1).symm.trans (hkey ▸ hj' _ rfl hlive.2)
    cases hsame
    exact hpair token rfl rfl
  · have hguard := (hinv.call i).guard
    rw [hi] at hguard
    exact (hguard _ rfl).2
  · intro i j q q' hij hi hj hkey hreplica
    have hpair := (hinv.pair i j hij).guard
    rw [hi, hj] at hpair
    exact hpair _ rfl (by rw [hkey, hreplica]; rfl)

/-- Two processes want one lock, and the second loses Redis. -/
def contended : Config (Fin 3) (Store Bool String) (Call Bool String) where
  store :=
    { leases := fun _ => none
      clock := 0
      drawn := []
      redisDisabled := fun _ => false
      localLocks := fun _ _ => false }
  call := fun i => if i.val = 0 then .withLock ⟨false, "lock", 10⟩ else if i.val = 1 then .withLock ⟨true, "lock", 10⟩ else .connection true

theorem contended_exclusive : ∃ c, Run act (fun _ _ => True) contended c ∧ c.call 0 = .leased ⟨false, "lock", 10⟩ "a" 10 ∧
    c.call 1 = .guarded ⟨true, "lock", 10⟩ ∧ Exclusive c := by
  obtain ⟨c, hrun, hcalls⟩ := run_of_exec_any act (fun _ _ => True) contended
    [(0, { token := "a" }), (0, {}), (0, {}), (2, {}), (1, {})]
    (fun c => c.call 0 = .leased ⟨false, "lock", 10⟩ "a" 10 && c.call 1 = .guarded ⟨true, "lock", 10⟩) (by decide +kernel)
  simp only [Bool.and_eq_true, decide_eq_true_eq] at hcalls
  have hentry : ∀ i, isEntry (contended.call i) = true := by decide
  exact ⟨c, hrun, hcalls.1, hcalls.2, run_exclusive hentry hrun⟩

end UltraTorrent.Redis.DistributedLock
