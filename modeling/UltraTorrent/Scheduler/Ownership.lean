import UltraTorrent.Scheduler.Sweeps

/-! Whose pauses the scheduler undoes. A note is never taken back when somebody else
resumes the torrent or pauses it again, so it may come to stand for a pause that is not
the scheduler's; as long as that does not happen, only its own pauses are undone. -/
namespace UltraTorrent.Scheduler.Ownership

open Library Library.EcmaScript
open Occupancy Planner Assignments Preview Reconciliation Sweeps

variable (rt : Runtime)

/-- Some note claims the torrent's pause for the scheduler. -/
def MarkedAt (w : World) (k : TorrentKey) : Prop :=
  ∃ r ∈ w.states, IsMark r ∧ key rt r.engineId r.hash = k

/-- Every note that claims a pause speaks the truth. -/
def Owned (w : World) : Prop :=
  ∀ r ∈ w.states, IsMark r → (w.engines (key rt r.engineId r.hash)).pausedBy = .scheduler

/-- Nobody else pauses a torrent the notes claim, and no sweep reads as transferring a
torrent that somebody else holds paused. -/
def Undisturbed (v : World × Event) : Prop :=
  match v.2 with
  | .pausedOutside engineId hash | .addedOutside engineId hash true =>
    ¬ MarkedAt rt v.1 (key rt engineId hash)
  | .sweep s => ∀ snap ∈ s.tables.snapshots, snap.engineId = s.engineId →
      snap.state.transfers = true → ¬ (v.1.engines (key rt s.engineId snap.hash)).IsForeign
  | .resumedOutside .. | .removedOutside .. | .addedOutside _ _ false => True

instance (w : World) (k : TorrentKey) : Decidable (MarkedAt rt w k) :=
  inferInstanceAs (Decidable (∃ r ∈ w.states, IsMark r ∧ key rt r.engineId r.hash = k))

instance : DecidablePred (Undisturbed rt)
  | (w, .pausedOutside engineId hash) | (w, .addedOutside engineId hash true) =>
    inferInstanceAs (Decidable (¬ MarkedAt rt w (key rt engineId hash)))
  | (w, .sweep s) => inferInstanceAs (Decidable (∀ snap ∈ s.tables.snapshots,
      snap.engineId = s.engineId → snap.state.transfers = true →
        ¬ (w.engines (key rt s.engineId snap.hash)).IsForeign))
  | (_, .resumedOutside ..) | (_, .removedOutside ..) | (_, .addedOutside _ _ false) =>
    isTrue trivial

/-- The torrent was last paused by the scheduler, or the engine reports it queued, or it
carries a `force_start` override. -/
def Sanctioned (s : Sweep) (call : ResumeCall) : Prop :=
  call.pausedBy = .scheduler ∨
  (∃ snap ∈ s.tables.snapshots,
    snap.engineId = s.engineId ∧ snap.hash = call.hash ∧ snap.state = .queued) ∨
  active rt s.tables.overrides s.engineId s.now (rt.toLowerCase call.hash) .forceStart = true

/-- Every resume call of every sweep of a run is sanctioned. -/
def UndoesOnlyItsOwn (w : World) (events : List Event) : Prop :=
  ∀ v ∈ Walk.visits (step rt) w events, ∀ s, v.2 = .sweep s →
    ∀ call ∈ (s.run rt v.1).2, Sanctioned rt s call

variable {rt} {s : Sweep} {w : World}

/-! ### One command -/

section Command

variable {h : Hold} {engines : Engines} {d : TorrentDecision} {k : TorrentKey}

theorem afterCommand_scheduler (hh : h.pausedBy = .scheduler) :
    (s.afterCommand d h).pausedBy = .scheduler := by
  unfold Sweep.afterCommand Hold.pause Hold.resume
  split_ifs <;> first | exact hh | rfl

theorem afterCommand_not_foreign (hh : ¬ h.IsForeign) : ¬ (s.afterCommand d h).IsForeign := by
  unfold Sweep.afterCommand Hold.pause Hold.resume
  split_ifs
  · exact hh
  · exact fun hforeign => absurd hforeign.2 nofun
  · exact fun hforeign => absurd hforeign.1 nofun
  · exact hh

theorem afterCommand_paused (hpause : d.action = .pause) (htakes : s.takesEffect d = true) :
    (s.afterCommand d h).paused = true := by
  unfold Sweep.afterCommand Hold.pause
  rw [if_pos htakes, if_pos hpause]
  split_ifs with hpaused
  · exact hpaused
  · rfl

theorem command_scheduler (hk : (engines k).pausedBy = .scheduler) :
    ((s.command rt engines d).1 k).pausedBy = .scheduler := by
  unfold Sweep.command
  by_cases hkey : k = key rt s.engineId d.hash
  · subst hkey
    simpa using afterCommand_scheduler hk
  · simpa [Function.update_of_ne hkey] using hk

theorem command_not_foreign (hk : ¬ (engines k).IsForeign) :
    ¬ ((s.command rt engines d).1 k).IsForeign := by
  unfold Sweep.command
  by_cases hkey : k = key rt s.engineId d.hash
  · subst hkey
    simpa using afterCommand_not_foreign hk
  · simpa [Function.update_of_ne hkey] using hk

end Command

/-! ### One sweep -/

section Sweep

variable {engines : Engines} {ds : List TorrentDecision} {k : TorrentKey}

theorem finish_scheduler (hk : (engines k).pausedBy = .scheduler) :
    (Walk.finish (s.command rt) engines ds k).pausedBy = .scheduler :=
  Walk.finish_invariant (I := fun e : Engines => (e k).pausedBy = .scheduler) (C := fun _ => True)
    (fun _ _ => command_scheduler) hk fun _ _ => trivial

theorem finish_not_foreign (hk : ¬ (engines k).IsForeign) :
    ¬ (Walk.finish (s.command rt) engines ds k).IsForeign :=
  Walk.finish_invariant (I := fun e : Engines => ¬ (e k).IsForeign) (C := fun _ => True)
    (fun _ _ => command_not_foreign) hk fun _ _ => trivial

/-- A pause that takes effect on a torrent nobody else holds is the scheduler's. -/
theorem finish_pause {d : TorrentDecision} (hd : d ∈ ds) (hpause : d.action = .pause)
    (htakes : s.takesEffect d = true)
    (hstart : ¬ (engines (key rt s.engineId d.hash)).IsForeign) :
    (Walk.finish (s.command rt) engines ds (key rt s.engineId d.hash)).pausedBy = .scheduler := by
  obtain ⟨pre, post, rfl⟩ := List.append_of_mem hd
  rw [Walk.finish_append, Walk.finish]
  apply finish_scheduler
  have hbefore := @finish_not_foreign rt s engines pre _ hstart
  have hafter := @command_not_foreign rt s _ d _ hbefore
  have hheld : ((s.command rt (Walk.finish (s.command rt) engines pre) d).1
      (key rt s.engineId d.hash)).paused = true := by
    simpa [Sweep.command] using afterCommand_paused hpause htakes
  cases hby : ((s.command rt (Walk.finish (s.command rt) engines pre) d).1
      (key rt s.engineId d.hash)).pausedBy with
  | scheduler => rfl
  | somebodyElse => exact absurd ⟨hheld, hby⟩ hafter

theorem run_owned (howned : Owned rt w) (h : Undisturbed rt (w, .sweep s)) :
    Owned rt (s.run rt w).1 := by
  cases hplan : s.plan rt w with
  | none =>
    rw [Sweep.run_of_no_plan hplan]
    exact howned
  | some plan =>
    rw [Sweep.run_of_plan hplan]
    intro r hr hmark
    obtain hr | ⟨d, hd, hmarks⟩ := apply_marked hr hmark
    · exact finish_scheduler (howned r hr hmark)
    · obtain ⟨t, ht⟩ := Sweep.exists_assigned (Sweep.mem_decisions.2 ⟨plan, hplan, hd⟩)
      obtain ⟨snap, hsnap, hengine, hhash, htransfers⟩ := Sweep.paused_transfers ht hmarks.action
      have hstart := h snap hsnap hengine htransfers
      have htakes : s.takesEffect d = true := by
        simp [Sweep.takesEffect, hmarks.action, hmarks.confirmed]
      rw [hmarks.engineId, hmarks.hash, Sweep.plan_engineId hplan]
      rw [hhash] at hstart
      exact finish_pause (mem_commands.2 ⟨hd, by rw [hmarks.action]; nofun⟩) hmarks.action htakes
        hstart

theorem run_sanctioned (howned : Owned rt w) : ∀ call ∈ (s.run rt w).2, Sanctioned rt s call := by
  cases hplan : s.plan rt w with
  | none =>
    rw [Sweep.run_of_no_plan hplan]
    exact fun call hcall => absurd hcall List.not_mem_nil
  | some plan =>
    rw [Sweep.run_of_plan hplan]
    intro call hcall
    rw [List.reduceOption_mem_iff, Walk.outputs_eq_map] at hcall
    obtain ⟨v, hv, hcall⟩ := List.mem_map.1 hcall
    obtain ⟨pre, post, hsplit, hbefore⟩ := (Walk.mem_visits_iff _).1 hv
    have hd : v.2 ∈ commands plan := hsplit ▸ List.mem_append_right _ List.mem_cons_self
    unfold Sweep.command at hcall
    dsimp only at hcall
    split_ifs at hcall with hresume
    obtain rfl := Option.some.inj hcall
    obtain ⟨t, ht⟩ := Sweep.exists_assigned (Sweep.mem_decisions.2 ⟨plan, hplan, (mem_commands.1 hd).1⟩)
    obtain hforced | ⟨r, hr, hmark, hkey⟩ | hqueued := Sweep.resumed_source ht hresume
    · exact .inr (.inr hforced)
    · left
      dsimp only at hkey ⊢
      rw [hbefore, ← hkey]
      exact finish_scheduler (howned r hr hmark)
    · exact .inr (.inl hqueued)

end Sweep

/-! ### Runs -/

section Run

variable {k : TorrentKey} {change : Hold → Hold}

theorem outside_owned (howned : Owned rt w)
    (h : MarkedAt rt w k → (change (w.engines k)).pausedBy = (w.engines k).pausedBy) :
    Owned rt (w.outside k change) := by
  intro r hr hmark
  have hbefore := howned r hr hmark
  unfold World.outside
  by_cases hkey : key rt r.engineId r.hash = k
  · rw [hkey] at hbefore ⊢
    simpa [h ⟨r, hr, hmark, hkey⟩] using hbefore
  · simpa [Function.update_of_ne hkey] using hbefore

theorem step_owned {v : World × Event} (h : Undisturbed rt v) (howned : Owned rt v.1) :
    Owned rt (step rt v.1 v.2).1 := by
  obtain ⟨w, event⟩ := v
  cases event with
  | pausedOutside engineId hash => exact outside_owned howned fun hmarked => absurd hmarked h
  | resumedOutside engineId hash => exact outside_owned howned fun _ => rfl
  | removedOutside engineId hash => exact outside_owned howned fun _ => rfl
  | addedOutside engineId hash paused =>
    cases paused with
    | true => exact outside_owned howned fun hmarked => absurd hmarked h
    | false => exact outside_owned howned fun _ => rfl
  | sweep s => exact run_owned howned h

/-- From a table without notes on, as long as nobody else pauses a torrent that a note
claims and no sweep reads as transferring what somebody else holds paused, the scheduler
undoes its own pauses only. -/
theorem undoesOnlyItsOwn_of_undisturbed (hstart : w.states = []) (events : List Event)
    (h : ∀ v ∈ Walk.visits (step rt) w events, Undisturbed rt v) :
    UndoesOnlyItsOwn rt w events := by
  have howned : Owned rt w := fun r hr => absurd hr (by rw [hstart]; exact List.not_mem_nil)
  intro v hv s hs
  exact run_sanctioned (Walk.visits_invariant (fun v => step_owned) howned h v hv)

end Run

/-! ### A pause taken for the scheduler's own -/

def makingRoom : Sweep :=
  small oneAtATime 0 [download "a" .downloading (1 / 10), download "b" .downloading (1 / 2)]

/-- The scheduler pauses a torrent to make room, a person resumes it and later pauses it
again, and the note about the first pause is still there when a slot comes free. -/
def pausedAgain : List Event :=
  [.sweep makingRoom, .resumedOutside "e" "a", .pausedOutside "e" "a",
   .sweep (small oneAtATime 60000 [download "a" .paused (1 / 10)])]

theorem foreignPause_undone : ¬ UndoesOnlyItsOwn .ascii quiet pausedAgain := by
  intro h
  have hlast := h _ (List.mem_of_getLast? (by rfl)) _ rfl ⟨"a", .somebodyElse⟩ (by decide +kernel)
  obtain hown | ⟨snap, hsnap, -, -, hqueued⟩ | hforced := hlast
  · exact absurd hown nofun
  · obtain rfl := List.mem_singleton.1 hsnap
    exact absurd hqueued nofun
  · exact absurd hforced (by decide +kernel)

/-- A person pauses the torrent the scheduler let run: the scheduler's own pause is undone,
the person's is not. -/
theorem undoesOnlyItsOwn_otherTorrent : UndoesOnlyItsOwn .ascii quiet
    [.sweep makingRoom, .pausedOutside "e" "b",
     .sweep (small oneAtATime 60000 [download "a" .paused (1 / 10), download "b" .paused (1 / 2)])] :=
  undoesOnlyItsOwn_of_undisturbed rfl _ (by decide +kernel)

end UltraTorrent.Scheduler.Ownership
