import UltraTorrent.Cleanup.PlaybackAggregate

/-! History rows that come in another order, or more than once: the aggregate is that of the sessions
as long as equally complete observations of a session say the same. -/
namespace UltraTorrent.Cleanup.ReimportedPlays

open Library Library.EcmaScript BestOf PlaybackAggregate

/-- The rows in any order, any of them repeated any number of times. -/
def Reimports (rows rows' : List PlaybackHistoryRow) : Prop :=
  ∃ copies, (∀ r ∈ copies, r ∈ rows) ∧ rows'.Perm (rows ++ copies)

def CountsSessions (rt : Runtime) (rows : List PlaybackHistoryRow) (threshold : ℚ) : Prop :=
  ∀ rows', Reimports rows rows' →
    aggregatePlays rt rows' threshold = aggregatePlays rt rows threshold

def Best (rows : List PlaybackHistoryRow) (r : PlaybackHistoryRow) : Prop :=
  IsBest sessionKey observed rows r

/-- What the observations of a session that any order could keep must agree on. When a session ended
and who watched it matters only where no other session stands in for it. -/
structure TiesAgree (rt : Runtime) (rows : List PlaybackHistoryRow) : Prop where
  seconds : ∀ r s, Best rows r → Best rows s → sessionKey r = sessionKey s → seconds r = seconds s
  measured : ∀ r s, Best rows r → Best rows s → sessionKey r = sessionKey s →
    r.percentComplete.isSome = s.percentComplete.isSome
  ended : ∀ r, Best rows r → ∃ s, Best rows s ∧
    ∀ s', Best rows s' → sessionKey s' = sessionKey s → endedAt r ≤ endedAt s'
  viewer : ∀ r v, Best rows r → viewer rt r = some v → ∃ s, Best rows s ∧
    ∀ s', Best rows s' → sessionKey s' = sessionKey s → viewer rt s' = some v

variable {rt : Runtime} {rows rows' : List PlaybackHistoryRow} {threshold : ℚ}
  {r s : PlaybackHistoryRow}

theorem Reimports.mem_iff (h : Reimports rows rows') (r : PlaybackHistoryRow) :
    r ∈ rows ↔ r ∈ rows' := by
  obtain ⟨copies, hcopies, hperm⟩ := h
  rw [hperm.mem_iff, List.mem_append]
  exact ⟨.inl, fun hr => hr.elim id (hcopies r)⟩

theorem reimports_append {front : List PlaybackHistoryRow} (h : ∀ r ∈ front, r ∈ rows) :
    Reimports rows (front ++ rows) :=
  ⟨front, h, List.perm_append_comm⟩

/-! ### Where ties agree -/

theorem exists_kept_best (hmem : ∀ r, r ∈ rows ↔ r ∈ rows') (h : Best rows r) :
    ∃ s ∈ dedupe rows', Best rows s ∧ sessionKey s = sessionKey r := by
  obtain ⟨s, hs, hkey⟩ : ∃ s ∈ dedupe rows', sessionKey s = sessionKey r :=
    exists_best ((hmem r).1 h.1)
  exact ⟨s, hs, (isBest_of_mem hs).congr fun b => (hmem b).symm, hkey⟩

theorem best_of_mem (hmem : ∀ r, r ∈ rows ↔ r ∈ rows') (h : r ∈ dedupe rows') : Best rows r :=
  (isBest_of_mem h).congr fun b => (hmem b).symm

/-- What is counted of an observation wherever it is kept. -/
def reading (r : PlaybackHistoryRow) : String × Option ℚ × ℚ :=
  (sessionKey r, r.percentComplete, PlaybackAggregate.seconds r)

theorem TiesAgree.reading_eq (h : TiesAgree rt rows) (hr : Best rows r) (hs : Best rows s)
    (hkey : sessionKey r = sessionKey s) : reading r = reading s := by
  have hrank := hr.rank_eq hs hkey
  have hsome := h.measured r s hr hs hkey
  have hpct : r.percentComplete = s.percentComplete := by
    unfold observed at hrank
    cases hp : r.percentComplete <;> cases hq : s.percentComplete <;> simp_all
  rw [reading, reading, hkey, hpct, h.seconds r s hr hs hkey]

theorem TiesAgree.map_reading (h : TiesAgree rt rows) (hmem : ∀ r, r ∈ rows ↔ r ∈ rows') :
    ((dedupe rows').map reading).Perm ((dedupe rows).map reading) := by
  have hnodup : ∀ rows, ((dedupe rows).map reading).Nodup := by
    intro rows
    apply List.Nodup.of_map Prod.fst
    rw [List.map_map]
    exact nodup_best rows
  rw [List.perm_ext_iff_of_nodup (hnodup _) (hnodup _)]
  intro x
  constructor
  · intro hx
    obtain ⟨r, hr, rfl⟩ := List.mem_map.1 hx
    have hbest := best_of_mem hmem hr
    obtain ⟨s, hs, hsbest, hkey⟩ := exists_kept_best (fun _ => Iff.rfl) hbest
    exact List.mem_map.2 ⟨s, hs, h.reading_eq hsbest hbest hkey⟩
  · intro hx
    obtain ⟨r, hr, rfl⟩ := List.mem_map.1 hx
    have hbest := best_of_mem (fun _ => Iff.rfl) hr
    obtain ⟨s, hs, hsbest, hkey⟩ := exists_kept_best hmem hbest
    exact List.mem_map.2 ⟨s, hs, h.reading_eq hsbest hbest hkey⟩

theorem mem_viewersOf {v : String} : v ∈ viewersOf rt rows ↔ ∃ r ∈ rows, viewer rt r = some v := by
  rw [viewersOf, List.mem_toFinset, List.mem_filterMap]

theorem TiesAgree.viewersOf_subset (h : TiesAgree rt rows) {rows₁ rows₂ : List PlaybackHistoryRow}
    (h₁ : ∀ r, r ∈ rows ↔ r ∈ rows₁) (h₂ : ∀ r, r ∈ rows ↔ r ∈ rows₂) :
    viewersOf rt (dedupe rows₁) ⊆ viewersOf rt (dedupe rows₂) := by
  intro v hv
  obtain ⟨r, hr, hviewer⟩ := mem_viewersOf.1 hv
  obtain ⟨s, hs, hall⟩ := h.viewer r v (best_of_mem h₁ hr) hviewer
  obtain ⟨s', hs', hbest, hkey⟩ := exists_kept_best h₂ hs
  exact mem_viewersOf.2 ⟨s', hs', hall s' hbest hkey⟩

theorem foldl_later (l : List Instant) : l.foldl later none = l.max? := by
  cases l with
  | nil => rfl
  | cons a l =>
    have hsome : ∀ (l : List Instant) (a : Instant), l.foldl later (some a) = some (l.foldl max a) := by
      intro l
      induction l with
      | nil => exact fun _ => rfl
      | cons b l ih =>
        intro a
        rw [List.foldl_cons, List.foldl_cons, ← ih, later, max_def_lt]
        split_ifs <;> rfl
    exact hsome l a

theorem max?_le_max? {l l' : List Instant} (h : ∀ a ∈ l, ∃ b ∈ l', a ≤ b) {m : Instant}
    (hm : l.max? = some m) : ∃ m', l'.max? = some m' ∧ m ≤ m' := by
  obtain ⟨b, hb, hle⟩ := h m (List.max?_mem hm)
  cases hmax : l'.max? with
  | none => rw [List.max?_eq_none_iff.1 hmax] at hb; exact absurd hb List.not_mem_nil
  | some m' => exact ⟨m', rfl, hle.trans ((List.max?_le_iff hmax).1 le_rfl b hb)⟩

theorem max?_eq_max? {l l' : List Instant} (h : ∀ a ∈ l, ∃ b ∈ l', a ≤ b)
    (h' : ∀ b ∈ l', ∃ a ∈ l, b ≤ a) : l.max? = l'.max? := by
  cases hm : l.max? with
  | none =>
    rw [List.max?_eq_none_iff] at hm
    subst hm
    cases l' with
    | nil => rfl
    | cons b l' =>
      obtain ⟨a, ha, -⟩ := h' b List.mem_cons_self
      exact absurd ha List.not_mem_nil
  | some m =>
    obtain ⟨m', hm', hle⟩ := max?_le_max? h hm
    obtain ⟨m'', hm'', hle'⟩ := max?_le_max? h' hm'
    rw [hm, Option.some_inj] at hm''
    rw [hm', le_antisymm hle (hle'.trans_eq hm''.symm)]

theorem TiesAgree.ended_le (h : TiesAgree rt rows) {rows₁ rows₂ : List PlaybackHistoryRow}
    (h₁ : ∀ r, r ∈ rows ↔ r ∈ rows₁) (h₂ : ∀ r, r ∈ rows ↔ r ∈ rows₂) :
    ∀ a ∈ (dedupe rows₁).map endedAt, ∃ b ∈ (dedupe rows₂).map endedAt, a ≤ b := by
  intro a ha
  obtain ⟨r, hr, rfl⟩ := List.mem_map.1 ha
  obtain ⟨s, hs, hall⟩ := h.ended r (best_of_mem h₁ hr)
  obtain ⟨s', hs', hbest, hkey⟩ := exists_kept_best h₂ hs
  exact ⟨endedAt s', List.mem_map.2 ⟨s', hs', rfl⟩, hall s' hbest hkey⟩

theorem TiesAgree.countsSessions (h : TiesAgree rt rows) : CountsSessions rt rows threshold := by
  intro rows' hre
  have hmem := hre.mem_iff
  have hperm := h.map_reading hmem
  have hreadings : (readings (dedupe rows')).Perm (readings (dedupe rows)) := by
    have hmap := hperm.filterMap fun x => x.2.1
    rwa [List.filterMap_map, List.filterMap_map] at hmap
  have hseconds : ((dedupe rows').map PlaybackAggregate.seconds).sum =
      ((dedupe rows).map PlaybackAggregate.seconds).sum := by
    have hmap := (hperm.map fun x => x.2.2).sum_eq
    rwa [List.map_map, List.map_map] at hmap
  have hlength : (dedupe rows').length = (dedupe rows).length := by
    simpa using hperm.length_eq
  have hviewers : viewersOf rt (dedupe rows') = viewersOf rt (dedupe rows) :=
    (h.viewersOf_subset hmem fun _ => Iff.rfl).antisymm (h.viewersOf_subset (fun _ => Iff.rfl) hmem)
  have hended : ((dedupe rows').map endedAt).foldl later none =
      ((dedupe rows).map endedAt).foldl later none := by
    rw [foldl_later, foldl_later]
    exact max?_eq_max? (h.ended_le hmem fun _ => Iff.rfl) (h.ended_le (fun _ => Iff.rfl) hmem)
  have hmax : (readings (dedupe rows')).foldl max 0 = (readings (dedupe rows)).foldl max 0 :=
    hreadings.foldl_eq 0
  simp only [aggregatePlays, foldl_tally, Tally.after, hlength, hviewers, hended, hmax, hseconds,
    hreadings.length_eq, hreadings.sum_eq, hreadings.countP_eq]

/-! ### Where they do not -/

/-- The aggregate of the rows with one of the best observations of a session repeated in front. -/
theorem CountsSessions.first (h : CountsSessions rt rows threshold) (hr : Best rows r) :
    aggregatePlays rt (r :: rows) threshold = aggregatePlays rt rows threshold := by
  have hfront : ∀ s ∈ [r], s ∈ rows := by simpa using hr.1
  exact h (r :: rows) (reimports_append hfront)

/-- The sessions other than that of an observation. -/
def others (rows : List PlaybackHistoryRow) (r : PlaybackHistoryRow) : List PlaybackHistoryRow :=
  (dedupe rows).filter (sessionKey · ≠ sessionKey r)

theorem dedupe_cons (h : Best rows r) : (dedupe (r :: rows)).Perm (r :: others rows r) :=
  best_cons_perm h

theorem others_congr (h : sessionKey r = sessionKey s) : others rows r = others rows s := by
  rw [others, others, h]

theorem CountsSessions.seconds_eq (h : CountsSessions rt rows threshold) (hr : Best rows r)
    (hs : Best rows s) (hkey : sessionKey r = sessionKey s) :
    PlaybackAggregate.seconds r = PlaybackAggregate.seconds s := by
  have htotal := congrArg (·.totalPlaybackSeconds) ((h.first hr).trans (h.first hs).symm)
  simp only [aggregatePlays, foldl_tally, Tally.after, ((dedupe_cons hr).map _).sum_eq,
    ((dedupe_cons hs).map _).sum_eq, others_congr hkey, List.map_cons, List.sum_cons] at htotal
  linarith

theorem CountsSessions.isSome_eq (h : CountsSessions rt rows threshold) (hr : Best rows r)
    (hs : Best rows s) (hkey : sessionKey r = sessionKey s) :
    r.percentComplete.isSome = s.percentComplete.isSome := by
  have hcount := congrArg (·.measuredProgressRowCount) ((h.first hr).trans (h.first hs).symm)
  simp only [aggregatePlays, foldl_tally, Tally.after, readings,
    ((dedupe_cons hr).filterMap _).length_eq, ((dedupe_cons hs).filterMap _).length_eq,
    others_congr hkey, List.filterMap_cons] at hcount
  cases hp : r.percentComplete <;> cases hq : s.percentComplete <;> simp [hp, hq] at hcount ⊢

open Classical in
/-- The best observations that something holds of. -/
noncomputable def bestWith (rows : List PlaybackHistoryRow) (p : PlaybackHistoryRow → Prop) :
    List PlaybackHistoryRow :=
  rows.filter fun r => Best rows r ∧ p r

theorem mem_bestWith {p : PlaybackHistoryRow → Prop} : r ∈ bestWith rows p ↔ Best rows r ∧ p r := by
  simp only [bestWith, List.mem_filter, decide_eq_true_eq]
  exact ⟨fun h => h.2, fun h => ⟨h.1.1, h⟩⟩

theorem reimports_bestWith (rows : List PlaybackHistoryRow) (p : PlaybackHistoryRow → Prop) :
    Reimports rows (bestWith rows p ++ rows) :=
  reimports_append fun _ hr => (mem_bestWith.1 hr).1.1

/-- When something holds of a best observation of every session, the rows can come so that it holds
of every one that is kept. -/
theorem holds_of_kept {p : PlaybackHistoryRow → Prop}
    (h : ∀ s, Best rows s → ∃ s', Best rows s' ∧ sessionKey s' = sessionKey s ∧ p s')
    (hr : r ∈ dedupe (bestWith rows p ++ rows)) : p r := by
  have hbest := best_of_mem (reimports_bestWith rows p).mem_iff hr
  obtain ⟨s', hs', hkey, hp⟩ := h r hbest
  have hfront := mem_front (fun c hc => (mem_bestWith.1 hc).1) (mem_bestWith.2 ⟨hs', hp⟩) hr hkey.symm
  exact (mem_bestWith.1 hfront).2

theorem CountsSessions.ended (h : CountsSessions rt rows threshold) (hr : Best rows r) :
    ∃ s, Best rows s ∧
      ∀ s', Best rows s' → sessionKey s' = sessionKey s → endedAt r ≤ endedAt s' := by
  by_contra hnone
  push Not at hnone
  have hlast := congrArg (·.lastPlayedAt)
    ((h.first hr).trans (h _ (reimports_bestWith rows (endedAt · < endedAt r))).symm)
  simp only [aggregatePlays, foldl_tally, Tally.after, foldl_later] at hlast
  have hmem : endedAt r ∈ (dedupe (r :: rows)).map endedAt :=
    List.mem_map.2 ⟨r, (dedupe_cons hr).mem_iff.2 List.mem_cons_self, rfl⟩
  cases hmax : ((dedupe (r :: rows)).map endedAt).max? with
  | none => rw [List.max?_eq_none_iff.1 hmax] at hmem; exact absurd hmem List.not_mem_nil
  | some m =>
    have hle : endedAt r ≤ m := (List.max?_le_iff hmax).1 le_rfl _ hmem
    rw [hmax] at hlast
    obtain ⟨s, hs, rfl⟩ := List.mem_map.1 (List.max?_mem hlast.symm)
    exact not_lt.2 hle (holds_of_kept hnone hs)

theorem viewer_of_sessionKey {v : String} (hkey : sessionKey r = sessionKey s)
    (hv : viewer rt r = some v) : viewer rt s = some v ∨ viewer rt s = none := by
  have hname := (sessionKey_inj.1 hkey).1
  cases hr : r.userName with
  | none => simp [viewer, hr] at hv
  | some name =>
    cases hs : s.userName with
    | none => exact .inr (by simp [viewer, hs])
    | some name' =>
      rw [hr, hs, Option.getD_some, Option.getD_some] at hname
      rw [viewer, hs, ← hname, ← hr, ← viewer]
      exact .inl hv

theorem CountsSessions.viewer (h : CountsSessions rt rows threshold) {v : String} (hr : Best rows r)
    (hv : PlaybackAggregate.viewer rt r = some v) : ∃ s, Best rows s ∧
      ∀ s', Best rows s' → sessionKey s' = sessionKey s → PlaybackAggregate.viewer rt s' = some v := by
  by_contra hnone
  push Not at hnone
  let arranged := bestWith rows (PlaybackAggregate.viewer rt · ≠ some v) ++ rows
  have hre : Reimports rows arranged := reimports_bestWith _ _
  have hbest : Best arranged r := hr.congr hre.mem_iff
  have hcons : Reimports rows (r :: arranged) := by
    refine (reimports_append ?_ : Reimports rows ((r :: bestWith rows _) ++ rows))
    intro s hs
    rcases List.mem_cons.1 hs with rfl | hs
    · exact hr.1
    · exact (mem_bestWith.1 hs).1.1
  have hkept : v ∉ viewersOf rt (dedupe arranged) := by
    intro hmem
    obtain ⟨s, hs, hsv⟩ := mem_viewersOf.1 hmem
    exact holds_of_kept hnone hs hsv
  obtain ⟨q, hq, hkey⟩ : ∃ q ∈ dedupe arranged, sessionKey q = sessionKey r := exists_best hbest.1
  have hqnone : PlaybackAggregate.viewer rt q = none := by
    rcases viewer_of_sessionKey hkey.symm hv with hqv | hqv
    · exact absurd (mem_viewersOf.2 ⟨q, hq, hqv⟩) hkept
    · exact hqv
  have hothers : viewersOf rt (dedupe arranged) = viewersOf rt (others arranged r) := by
    have hperm : (dedupe arranged).Perm (q :: others arranged q) := best_perm hq
    rw [viewersOf, List.toFinset_eq_of_perm _ _ (hperm.filterMap _), List.filterMap_cons, hqnone,
      others_congr hkey, ← viewersOf]
  have hwith : viewersOf rt (dedupe (r :: arranged)) = insert v (viewersOf rt (others arranged r)) := by
    rw [viewersOf, List.toFinset_eq_of_perm _ _ ((dedupe_cons hbest).filterMap _),
      List.filterMap_cons, hv, List.toFinset_cons, ← viewersOf]
  have hcard := congrArg (·.uniqueViewerCount) ((h _ hcons).trans (h _ hre).symm)
  simp only [aggregatePlays, foldl_tally, Tally.after, Finset.empty_union, hwith, hothers] at hcard
  rw [Finset.card_insert_of_notMem (hothers ▸ hkept)] at hcard
  omega

/-- The aggregate is the same for the rows in every order and with any of them repeated exactly when
equally complete observations of a session agree. -/
theorem countsSessions_iff (rt : Runtime) (rows : List PlaybackHistoryRow) (threshold : ℚ) :
    CountsSessions rt rows threshold ↔ TiesAgree rt rows := by
  refine ⟨fun h => ?_, TiesAgree.countsSessions⟩
  exact ⟨fun r s hr hs hkey => h.seconds_eq hr hs hkey, fun r s hr hs hkey => h.isSome_eq hr hs hkey,
    fun r hr => h.ended hr, fun r v hr hv => h.viewer hr hv⟩

/-- Two observations of one session, equally far: one from before the session was closed. -/
def openAndClosed : List PlaybackHistoryRow :=
  [{ userName := some "alice", startedAt := 0, percentComplete := some 50 },
    { userName := some "alice", startedAt := 0, stoppedAt := some 3600000, watchedSeconds := some 3600,
      percentComplete := some 50 }]

theorem openAndClosed_ordered : ¬ CountsSessions .ascii openAndClosed defaultCompletionThresholdPercent := by
  intro h
  have hswap := h openAndClosed.reverse ⟨[], nofun, by simp [List.reverse_perm]⟩
  have htotal := congrArg (·.totalPlaybackSeconds) hswap
  revert htotal
  decide +kernel

end UltraTorrent.Cleanup.ReimportedPlays
