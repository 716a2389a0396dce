import UltraTorrent.MediaServerAnalytics.SessionPoll

/-! Two simultaneous viewings are told apart, in whatever order the provider lists them, exactly
when no newcomer is given the row of another listed session. -/
namespace UltraTorrent.MediaServerAnalytics.SessionPoll

open Library Library.EcmaScript

/-! ### What a poll promises -/

/-- The rows that were not missed correspond to the listed sessions. -/
structure OneToOne (rows : List Row) (sessions : List ProviderSession) : Prop where
  row : ∀ s ∈ sessions,
    ∃! row, row ∈ rows ∧ row.missedPolls = 0 ∧ row.providerSessionId = s.sessionId
  session : ∀ row ∈ rows, row.missedPolls = 0 →
    ∃ s ∈ sessions, s.sessionId = row.providerSessionId

/-- Every playing session has its own row, whatever the order of the list. -/
structure Separate (rt : Runtime) (uuid : String → String) (now : ℤ) (table : Table Row Row.id)
    (sessions : List ProviderSession) : Prop where
  oneToOne : ∀ l, l.Perm sessions → OneToOne (poll rt uuid now table l).sessions.rows l
  keeps : ∀ l, l.Perm sessions → ∀ s ∈ l, ∀ r ∈ table.rows, r.providerSessionId = s.sessionId →
    ∃ row ∈ (poll rt uuid now table l).sessions.rows, row.id = r.id ∧
      row.providerSessionId = s.sessionId ∧
      (isNewViewing rt r.playing s.playing = false → row.startedAt = r.startedAt)
  stops : ∀ l, l.Perm sessions →
    (poll rt uuid now table l).history.length = (poll rt uuid now table sessions).history.length

/-! ### What it depends on -/

abbrev Viewing := String × Option String × Option String

def Playback.viewing (p : Playback) : Viewing := (p.title, p.userName, p.device)

section Newcomers

variable (rows : List Row)

/-- No row is under the id of the session. -/
def unknown (s : ProviderSession) : Bool := rows.all (·.providerSessionId ≠ s.sessionId)

def ofViewing (k : Viewing) : List Row := rows.filter fun r => r.playing.viewing = k

def newcomers (l : List ProviderSession) (k : Viewing) : ℕ :=
  l.countP fun s => unknown rows s && decide (s.playing.viewing = k)

/-- There are so many newcomers to a viewing that one of them gets this row of it. -/
def Given (l : List ProviderSession) (r : Row) : Prop :=
  r ∈ (ofViewing rows r.playing.viewing).take (newcomers rows l r.playing.viewing)

instance (l : List ProviderSession) (r : Row) : Decidable (Given rows l r) :=
  inferInstanceAs (Decidable (r ∈ List.take _ _))

/-- No newcomer gets the row of a listed session. -/
def Separable (l : List ProviderSession) : Prop :=
  ∀ r ∈ rows, Given rows l r → r.providerSessionId ∉ l.map (·.sessionId)

instance (l : List ProviderSession) : Decidable (Separable rows l) :=
  inferInstanceAs (Decidable (∀ r ∈ rows, Given rows l r → _))

/-! ### Which row a session gets -/

def taken (pairs : List (ProviderSession × Option Row)) : List String :=
  pairs.filterMap fun p => p.2.map (·.id)

/-- The sessions and their rows, the latest first. -/
def attach : List ProviderSession → List (ProviderSession × Option Row)
  | [] => []
  | s :: e =>
    (s, existing rows (s.sessionId :: e.map (·.sessionId)) (taken (attach e)) s) :: attach e

def choice (e : List ProviderSession) (s : ProviderSession) : Option Row :=
  existing rows (s.sessionId :: e.map (·.sessionId)) (taken (attach rows e)) s

end Newcomers

section Choices

variable {rows : List Row} {e l : List ProviderSession} {s : ProviderSession} {r : Row}

theorem attach_cons (s : ProviderSession) (e : List ProviderSession) :
    attach rows (s :: e) = (s, choice rows e s) :: attach rows e := rfl

theorem taken_cons (s : ProviderSession) (o : Option Row)
    (pairs : List (ProviderSession × Option Row)) :
    taken ((s, o) :: pairs) = (o.map (·.id)).toList ++ taken pairs := by
  cases o <;> rfl

theorem sameViewing_eq (r : Row) (s : ProviderSession) :
    sameViewing r s = decide (r.playing.viewing = s.playing.viewing) := by
  simp [sameViewing, Playback.viewing]

theorem mem_of_byProviderId {sessionId : String} (h : byProviderId rows sessionId = some r) :
    r ∈ rows ∧ r.providerSessionId = sessionId := by
  obtain ⟨r', hr', heq⟩ := List.mem_map.1 (mem_of_mapGet h)
  cases heq
  exact ⟨hr', rfl⟩

theorem byProviderId_of_mem (hids : (rows.map (·.providerSessionId)).Nodup) (hr : r ∈ rows) :
    byProviderId rows r.providerSessionId = some r := by
  have hsome := isSome_mapGet (List.mem_map_of_mem (f := fun r => (r.providerSessionId, r)) hr)
  obtain ⟨r', hr'⟩ := Option.isSome_iff_exists.1 hsome
  obtain ⟨hmem, hid⟩ := mem_of_byProviderId hr'
  rw [byProviderId, hr', List.inj_on_of_nodup_map hids hmem hr hid]

theorem byProviderId_unknown (h : unknown rows s = true) : byProviderId rows s.sessionId = none := by
  rw [Option.eq_none_iff_forall_ne_some]
  intro r hr
  obtain ⟨hmem, hid⟩ := mem_of_byProviderId hr
  exact of_decide_eq_true (List.all_eq_true.1 h r hmem) hid

theorem exists_of_known (h : unknown rows s = false) :
    ∃ r ∈ rows, r.providerSessionId = s.sessionId := by
  simpa [unknown] using h

theorem not_unknown (hr : r ∈ rows) (h : r.providerSessionId = s.sessionId) :
    unknown rows s = false := by
  simpa [unknown] using ⟨r, hr, h⟩

theorem choice_known (hids : (rows.map (·.providerSessionId)).Nodup) (hr : r ∈ rows)
    (h : r.providerSessionId = s.sessionId) (e : List ProviderSession) :
    choice rows e s = some r := by
  rw [choice, existing, ← h, byProviderId_of_mem hids hr, Option.some_or]

theorem choice_unknown (h : unknown rows s = true) (e : List ProviderSession) :
    choice rows e s = rows.find? fun r => (decide (r.id ∉ taken (attach rows e)) &&
      decide (r.providerSessionId ∉ s.sessionId :: e.map (·.sessionId))) &&
      decide (r.playing.viewing = s.playing.viewing) := by
  rw [choice, existing, byProviderId_unknown h, Option.none_or]
  congr 1
  funext r
  simp [sameViewing_eq, Bool.and_assoc]

theorem mem_of_choice (h : choice rows e s = some r) : r ∈ rows := by
  rcases Option.or_eq_some_iff.1 h with h | ⟨-, h⟩
  · exact (mem_of_byProviderId h).1
  · exact List.mem_of_find?_eq_some h

/-- The first of the elements that pass a second test, when the first so many of them fail it. -/
theorem find?_eq_getElem? {α : Type*} {xs : List α} {p q : α → Bool} {m : ℕ}
    (htake : ∀ a ∈ (xs.filter q).take m, p a = false)
    (hnext : ∀ a, (xs.filter q)[m]? = some a → p a = true) :
    xs.find? (fun a => p a && q a) = (xs.filter q)[m]? := by
  have hfilter : xs.find? (fun a => p a && q a) = (xs.filter q).find? p := by
    rw [List.find?_filter]
    congr 1
    funext a
    simp [Bool.and_comm]
  rw [hfilter]
  generalize xs.filter q = ys at htake hnext
  have hnone : (ys.take m).find? p = none :=
    List.find?_eq_none.2 fun a ha hpa => by simp [htake a ha] at hpa
  rw [← List.head?_drop] at hnext ⊢
  conv_lhs => rw [← List.take_append_drop m ys]
  rw [List.find?_append, hnone, Option.none_or]
  cases hdrop : ys.drop m with
  | nil => rfl
  | cons a rest =>
    rw [List.head?_cons, List.find?_cons_of_pos (hnext a (by rw [hdrop]; rfl))]

/-! ### The closed form -/

theorem newcomers_cons (l : List ProviderSession) (s : ProviderSession) (k : Viewing) :
    newcomers rows (s :: l) k =
      newcomers rows l k + if unknown rows s = true ∧ s.playing.viewing = k then 1 else 0 := by
  rw [newcomers, List.countP_cons, newcomers]
  simp

theorem Given.cons (h : Given rows e r) (s : ProviderSession) : Given rows (s :: e) r := by
  refine List.Sublist.subset (List.take_sublist_take_left ?_) h
  rw [newcomers_cons]
  exact Nat.le_add_right _ _

theorem Separable.of_cons (h : Separable rows (s :: e)) : Separable rows e :=
  fun r hr hgiven hmem => h r hr (hgiven.cons s) (List.mem_cons_of_mem _ hmem)

theorem Given.congr (hperm : e.Perm l) : Given rows e r ↔ Given rows l r := by
  unfold Given newcomers
  rw [hperm.countP_eq]

theorem Separable.congr (hperm : e.Perm l) : Separable rows e ↔ Separable rows l := by
  unfold Separable
  simp only [Given.congr hperm, (hperm.map _).mem_iff]

theorem mem_ofViewing {k : Viewing} : r ∈ ofViewing rows k ↔ r ∈ rows ∧ r.playing.viewing = k := by
  rw [ofViewing, List.mem_filter, decide_eq_true_iff]

theorem nodup_ofViewing (hids : (rows.map (·.id)).Nodup) (k : Viewing) : (ofViewing rows k).Nodup :=
  (List.Nodup.of_map _ hids).filter _

theorem notMem_take {α : Type*} {xs : List α} {a : α} {m : ℕ} (hnodup : xs.Nodup)
    (ha : xs[m]? = some a) : a ∉ xs.take m := by
  have hsucc : (xs.take (m + 1)).Nodup := hnodup.sublist (List.take_sublist _ _)
  rw [List.take_add_one, ha, List.nodup_append] at hsucc
  exact fun hmem => hsucc.2.2 a hmem a (by simp) rfl

theorem mem_taken (hids : (rows.map (·.id)).Nodup)
    (hprovider : (rows.map (·.providerSessionId)).Nodup) (hsep : Separable rows e) (hr : r ∈ rows) :
    r.id ∈ taken (attach rows e) ↔
      r.providerSessionId ∈ e.map (·.sessionId) ∨ Given rows e r := by
  induction e generalizing r with
  | nil => simp [attach, taken, Given, newcomers]
  | cons s e ih =>
    have hprev := hsep.of_cons
    rw [attach_cons, taken_cons, List.mem_append, ih hprev hr, List.map_cons, List.mem_cons]
    by_cases hunknown : unknown rows s = true
    · have hne : r.providerSessionId ≠ s.sessionId := by
        simpa using List.all_eq_true.1 hunknown r hr
      have hnext : choice rows e s =
          (ofViewing rows s.playing.viewing)[newcomers rows e s.playing.viewing]? := by
        rw [choice_unknown hunknown]
        refine find?_eq_getElem? ?_ ?_
        · intro a ha
          obtain ⟨hmem, hview⟩ := mem_ofViewing.1 (List.mem_of_mem_take ha)
          have htaken := (ih hprev hmem).2 (.inr (by rw [Given, hview]; exact ha))
          simp [htaken]
        · intro a ha
          change (ofViewing rows s.playing.viewing)[_]? = some a at ha
          obtain ⟨hmem, hview⟩ := mem_ofViewing.1 (List.mem_of_getElem? ha)
          have hnot := notMem_take (nodup_ofViewing hids _) ha
          have hgiven : Given rows (s :: e) a := by
            rw [Given, hview, newcomers_cons, if_pos ⟨hunknown, rfl⟩, List.take_add_one, ha]
            simp
          have hlisted := hsep a hmem hgiven
          have hfree : a.id ∉ taken (attach rows e) := by
            rw [ih hprev hmem, Given, hview]
            rintro (hold | hold)
            · exact hlisted (List.mem_cons_of_mem _ hold)
            · exact hnot hold
          rw [List.map_cons] at hlisted
          simp [hfree, hlisted]
      have hgiven : Given rows (s :: e) r ↔ Given rows e r ∨ choice rows e s = some r := by
        rw [Given, newcomers_cons, Given, hnext]
        by_cases hview : s.playing.viewing = r.playing.viewing
        · rw [if_pos ⟨hunknown, hview⟩, List.take_add_one, List.mem_append, hview]
          simp
        · rw [if_neg fun h => hview h.2, Nat.add_zero]
          refine ⟨.inl, fun h => h.resolve_right fun h => ?_⟩
          exact hview (mem_ofViewing.1 (List.mem_of_getElem? h)).2.symm
      have hid : r.id ∈ ((choice rows e s).map (·.id)).toList ↔ choice rows e s = some r := by
        cases hc : choice rows e s with
        | none => simp
        | some r' =>
          simp only [Option.map_some, Option.toList_some, List.mem_singleton, Option.some.injEq]
          refine ⟨fun h => ?_, fun h => by rw [h]⟩
          exact List.inj_on_of_nodup_map hids (mem_of_choice hc) hr h.symm
      rw [hid, hgiven, or_iff_right hne]
      tauto
    · obtain ⟨r', hr', hid⟩ := exists_of_known (Bool.eq_false_of_not_eq_true hunknown)
      have hsame : Given rows (s :: e) r ↔ Given rows e r := by
        rw [Given, newcomers_cons, if_neg fun h => hunknown h.1, Nat.add_zero, Given]
      have heq : r.id = r'.id ↔ r.providerSessionId = s.sessionId := by
        refine ⟨fun h => ?_, fun h => ?_⟩
        · rw [List.inj_on_of_nodup_map hids hr hr' h, hid]
        · rw [List.inj_on_of_nodup_map hprovider hr hr' (h.trans hid.symm)]
      rw [choice_known hprovider hr' hid, hsame]
      simp only [Option.map_some, Option.toList_some, List.mem_singleton, heq]
      tauto

theorem choice_not_taken (hids : (rows.map (·.id)).Nodup)
    (hprovider : (rows.map (·.providerSessionId)).Nodup)
    (hsessions : ((s :: e).map (·.sessionId)).Nodup) (hsep : Separable rows (s :: e))
    (h : choice rows e s = some r) : r.id ∉ taken (attach rows e) := by
  have hr := mem_of_choice h
  by_cases hunknown : unknown rows s = true
  · rw [choice_unknown hunknown] at h
    have hfound := List.find?_some h
    simp only [Bool.and_eq_true, decide_eq_true_eq] at hfound
    exact hfound.1.1
  · obtain ⟨r', hr', hid⟩ := exists_of_known (Bool.eq_false_of_not_eq_true hunknown)
    rw [choice_known hprovider hr' hid] at h
    cases h
    rw [mem_taken hids hprovider hsep.of_cons hr]
    rintro (hold | hold)
    · rw [hid] at hold
      exact (List.nodup_cons.1 hsessions).1 hold
    · exact hsep _ hr (hold.cons s) (by rw [hid]; exact List.mem_cons_self)

end Choices

/-! ### The loop over the sessions -/

/-- The ids the table makes up are new. -/
structure MakesUp (uuid : String → String) (table : Table Row Row.id) : Prop where
  injective : Function.Injective uuid
  fresh : ∀ r ∈ table.rows, ∀ sessionId, r.id ≠ uuid sessionId

section Loop

variable (rt : Runtime) (uuid : String → String) (now : ℤ) (table : Table Row Row.id)

/-- The loop, with the sessions it has come past, the latest first. -/
def run (e : List ProviderSession) : Poll :=
  e.foldr (fun s st => visit rt uuid now table.rows st s) ⟨[], [], table, []⟩

def restart (r : Row) (s : ProviderSession) : Option ℤ :=
  if isNewViewing rt r.playing s.playing then some now else none

variable {rt uuid now table} {e : List ProviderSession} {s : ProviderSession} {r : Row}

theorem poll_eq (l : List ProviderSession) :
    poll rt uuid now table l =
      table.rows.foldl (settle now) (run rt uuid now table l.reverse) := by
  rw [poll, run, List.foldr_reverse]

theorem run_state (e : List ProviderSession) :
    (run rt uuid now table e).seen = e.map (·.sessionId) ∧
      (run rt uuid now table e).claimed = taken (attach table.rows e) := by
  induction e with
  | nil => exact ⟨rfl, rfl⟩
  | cons s e ih =>
    change (visit rt uuid now table.rows (run rt uuid now table e) s).seen = _ ∧
      (visit rt uuid now table.rows (run rt uuid now table e) s).claimed = _
    unfold visit
    dsimp only
    rw [ih.1, ih.2, attach_cons, taken_cons, ← choice]
    cases choice table.rows e s with
    | none => exact ⟨rfl, rfl⟩
    | some r => exact ⟨rfl, rfl⟩

theorem run_some (h : choice table.rows e s = some r) :
    (run rt uuid now table (s :: e)).sessions =
        (run rt uuid now table e).sessions.updateAt r.id (·.continued s (restart rt now r s)) ∧
      (run rt uuid now table (s :: e)).history.length =
        (run rt uuid now table e).history.length +
          if isNewViewing rt r.playing s.playing then 1 else 0 := by
  change (visit rt uuid now table.rows (run rt uuid now table e) s).sessions = _ ∧
    (visit rt uuid now table.rows (run rt uuid now table e) s).history.length = _
  unfold visit
  dsimp only
  rw [(run_state e).1, (run_state e).2, ← choice, h]
  refine ⟨rfl, ?_⟩
  dsimp only
  split_ifs <;> rfl

theorem run_none (h : choice table.rows e s = none) :
    (run rt uuid now table (s :: e)).sessions =
        (run rt uuid now table e).sessions.addMissing (createdRow uuid now s) ∧
      (run rt uuid now table (s :: e)).history = (run rt uuid now table e).history := by
  change (visit rt uuid now table.rows (run rt uuid now table e) s).sessions = _ ∧
    (visit rt uuid now table.rows (run rt uuid now table e) s).history = _
  unfold visit
  dsimp only
  rw [(run_state e).1, (run_state e).2, ← choice, h]
  exact ⟨rfl, rfl⟩

theorem mem_taken_of_attach {pairs : List (ProviderSession × Option Row)}
    (h : (s, some r) ∈ pairs) : r.id ∈ taken pairs :=
  List.mem_filterMap.2 ⟨_, h, rfl⟩

theorem attach_fst (rows : List Row) (e : List ProviderSession) :
    (attach rows e).map Prod.fst = e := by
  induction e with
  | nil => rfl
  | cons s e ih => rw [attach_cons, List.map_cons, ih]

theorem mem_of_attach {o : Option Row} (h : (s, o) ∈ attach table.rows e) : s ∈ e := by
  rw [← attach_fst table.rows e]
  exact List.mem_map_of_mem h

theorem exists_attach (rows : List Row) (h : s ∈ e) : ∃ o, (s, o) ∈ attach rows e := by
  rw [← attach_fst rows e] at h
  obtain ⟨⟨s', o⟩, ho, rfl⟩ := List.mem_map.1 h
  exact ⟨o, ho⟩

theorem attach_unique {rows : List Row} {p q : ProviderSession × Option Row}
    (hsessions : (e.map (·.sessionId)).Nodup) (hp : p ∈ attach rows e) (hq : q ∈ attach rows e)
    (h : p.1.sessionId = q.1.sessionId) : p = q := by
  rw [← attach_fst rows e, List.map_map] at hsessions
  exact List.inj_on_of_nodup_map hsessions hp hq h

theorem mem_rows_of_attach (h : (s, some r) ∈ attach table.rows e) : r ∈ table.rows := by
  induction e with
  | nil => cases h
  | cons s' e ih =>
    rw [attach_cons, List.mem_cons] at h
    rcases h with h | h
    · exact mem_of_choice (Prod.mk.inj h).2.symm
    · exact ih h

/-- What the table holds after the loop. -/
structure Written (rt : Runtime) (uuid : String → String) (now : ℤ) (table : Table Row Row.id)
    (e : List ProviderSession) : Prop where
  continued : ∀ s r, (s, some r) ∈ attach table.rows e →
    (run rt uuid now table e).sessions.find r.id = some (r.continued s (restart rt now r s))
  created : ∀ s, (s, none) ∈ attach table.rows e →
    (run rt uuid now table e).sessions.find (uuid s.sessionId) = some (createdRow uuid now s)
  untouched : ∀ r ∈ table.rows, r.id ∉ taken (attach table.rows e) →
    (run rt uuid now table e).sessions.find r.id = some r
  ids : ∀ row ∈ (run rt uuid now table e).sessions.rows, (∃ r ∈ table.rows, r.id = row.id) ∨
    ∃ s, (s, none) ∈ attach table.rows e ∧ row.id = uuid s.sessionId

/-- A round that continues a row nobody has taken. -/
theorem Written.continue (h : Written rt uuid now table e) (huuid : MakesUp uuid table)
    (hchoice : choice table.rows e s = some r) (hfree : r.id ∉ taken (attach table.rows e)) :
    Written rt uuid now table (s :: e) := by
  have hr := mem_of_choice hchoice
  have hf : ∀ row : Row, (row.continued s (restart rt now r s)).id = row.id := fun _ => rfl
  have hsame {id : String} (hne : id ≠ r.id) : (run rt uuid now table (s :: e)).sessions.find id =
      (run rt uuid now table e).sessions.find id := by
    rw [(run_some hchoice).1, Table.find_updateAt_of_ne hf hne]
  refine ⟨fun s' r' hmem => ?_, fun s' hmem => ?_, fun r' hr' hnot => ?_, fun row hrow => ?_⟩
  · rw [attach_cons, hchoice, List.mem_cons] at hmem
    rcases hmem with heq | hold
    · cases heq
      rw [(run_some hchoice).1, Table.find_updateAt_self hf, h.untouched _ hr hfree, Option.map_some]
    · have hne : r'.id ≠ r.id := fun heq => hfree (heq ▸ mem_taken_of_attach hold)
      rw [hsame hne, h.continued s' r' hold]
  · rw [attach_cons, hchoice, List.mem_cons] at hmem
    have hold := hmem.resolve_left (by simp)
    rw [hsame (huuid.fresh r hr _).symm, h.created s' hold]
  · rw [attach_cons, taken_cons, hchoice, List.mem_append, not_or] at hnot
    have hne : r'.id ≠ r.id := by simpa using hnot.1
    rw [hsame hne, h.untouched r' hr' hnot.2]
  · rw [(run_some hchoice).1] at hrow
    have hold : ∃ old ∈ (run rt uuid now table e).sessions.rows, old.id = row.id := by
      rcases Table.mem_updateAt hf hrow with hmem | ⟨old, hmem, -, rfl⟩
      · exact ⟨row, hmem, rfl⟩
      · exact ⟨old, hmem, rfl⟩
    obtain ⟨old, hmem, hid⟩ := hold
    rw [← hid, attach_cons, hchoice]
    refine (h.ids old hmem).imp_right ?_
    rintro ⟨s', hs', heq⟩
    exact ⟨s', List.mem_cons_of_mem _ hs', heq⟩

theorem Written.create (h : Written rt uuid now table e) (huuid : MakesUp uuid table)
    (hchoice : choice table.rows e s = none) (hnew : s.sessionId ∉ e.map (·.sessionId)) :
    Written rt uuid now table (s :: e) := by
  have hfree : (run rt uuid now table e).sessions.find (uuid s.sessionId) = none := by
    rw [Option.eq_none_iff_forall_ne_some]
    intro row hrow
    obtain ⟨hmem, hid⟩ := Table.find_eq_some.1 hrow
    rcases h.ids row hmem with ⟨r, hr, heq⟩ | ⟨s', hs', heq⟩
    · exact huuid.fresh r hr _ (heq.trans hid)
    · have hsame : s'.sessionId = s.sessionId := huuid.injective (heq.symm.trans hid)
      exact hnew (hsame ▸ List.mem_map_of_mem (mem_of_attach hs'))
  have hfind (id : String) : (run rt uuid now table (s :: e)).sessions.find id =
      ((run rt uuid now table e).sessions.find id).or
        (if uuid s.sessionId = id then some (createdRow uuid now s) else none) := by
    rw [(run_none hchoice).1, Table.find_addMissing]
    rfl
  have hkeep {id : String} {row : Row}
      (hrow : (run rt uuid now table e).sessions.find id = some row) :
      (run rt uuid now table (s :: e)).sessions.find id = some row := by
    rw [hfind, hrow, Option.some_or]
  refine ⟨fun s' r' hmem => ?_, fun s' hmem => ?_, fun r' hr' hnot => ?_, fun row hrow => ?_⟩
  · rw [attach_cons, hchoice, List.mem_cons] at hmem
    exact hkeep (h.continued s' r' (hmem.resolve_left (by simp)))
  · rw [attach_cons, hchoice, List.mem_cons] at hmem
    rcases hmem with heq | hold
    · cases heq
      rw [hfind, hfree, Option.none_or, if_pos rfl]
    · exact hkeep (h.created s' hold)
  · rw [attach_cons, taken_cons, hchoice] at hnot
    exact hkeep (h.untouched r' hr' hnot)
  · have hrow' := Table.find_key hrow
    rw [hfind] at hrow'
    rcases Option.or_eq_some_iff.1 hrow' with hold | ⟨-, hnew⟩
    · refine (h.ids row (Table.find_eq_some.1 hold).1).imp_right ?_
      rintro ⟨s', hs', heq⟩
      exact ⟨s', List.mem_cons_of_mem _ hs', heq⟩
    · split_ifs at hnew with hid
      exact .inr ⟨s, by rw [attach_cons, hchoice]; exact List.mem_cons_self, hid.symm⟩

theorem written (huuid : MakesUp uuid table)
    (hprovider : (table.rows.map (·.providerSessionId)).Nodup)
    (hsessions : (e.map (·.sessionId)).Nodup) (hsep : Separable table.rows e) :
    Written rt uuid now table e := by
  induction e with
  | nil =>
    exact ⟨fun _ _ h => absurd h List.not_mem_nil, fun _ h => absurd h List.not_mem_nil,
      fun r hr _ => Table.find_key hr, fun row hrow => .inl ⟨row, hrow, rfl⟩⟩
  | cons s e ih =>
    have hprev := ih (List.nodup_cons.1 hsessions).2 hsep.of_cons
    cases hchoice : choice table.rows e s with
    | none => exact hprev.create huuid hchoice (List.nodup_cons.1 hsessions).1
    | some r =>
      exact hprev.continue huuid hchoice
        (choice_not_taken table.nodup hprovider hsessions hsep hchoice)

end Loop

/-! ### The loop over the rows -/

section Settle

variable {now : ℤ} {st : Poll} {c : Row} {cs : List Row} {id : String}

/-- The poll has not come across the row. -/
def Poll.missing (st : Poll) (c : Row) : Bool :=
  c.id ∉ st.claimed ∧ c.providerSessionId ∉ st.seen

theorem settle_state (now : ℤ) (st : Poll) (c : Row) :
    (settle now st c).seen = st.seen ∧ (settle now st c).claimed = st.claimed := by
  unfold settle
  split_ifs <;> exact ⟨rfl, rfl⟩

theorem missing_settle (now : ℤ) (st : Poll) (c r : Row) :
    (settle now st c).missing r = st.missing r := by
  rw [Poll.missing, (settle_state now st c).1, (settle_state now st c).2, Poll.missing]

theorem find_settle_of_ne (h : st.missing c = true → id ≠ c.id) :
    (settle now st c).sessions.find id = st.sessions.find id := by
  unfold settle
  split_ifs with hthere hgrace
  · rfl
  · have hne := h (by simpa [Poll.missing] using hthere)
    exact Table.find_updateAt_of_ne (f := fun row : Row => row.missed (c.missedPolls + 1))
      (fun _ => rfl) hne
  · have hne := h (by simpa [Poll.missing] using hthere)
    exact (Table.find_erase _ _).trans (if_neg hne)

theorem find_settle_self (hmissing : st.missing c = true) (hrow : st.sessions.find c.id = some c) :
    ∀ row, (settle now st c).sessions.find c.id = some row → row.missedPolls ≠ 0 := by
  intro row h
  have hthere : ¬ (c.id ∈ st.claimed ∨ c.providerSessionId ∈ st.seen) := by
    simpa [Poll.missing] using hmissing
  rw [settle, if_neg hthere] at h
  split_ifs at h
  · have hfind := Table.find_updateAt_self (t := st.sessions) (k := c.id)
      (f := fun row : Row => row.missed (c.missedPolls + 1)) fun _ => rfl
    rw [hrow] at hfind
    cases hfind.symm.trans h
    exact Nat.succ_ne_zero _
  · rw [Table.find_erase, if_pos rfl] at h
    cases h

theorem mem_settle {row : Row} (h : row ∈ (settle now st c).sessions.rows) :
    ∃ old ∈ st.sessions.rows, old.id = row.id ∧
      old.providerSessionId = row.providerSessionId := by
  unfold settle at h
  split_ifs at h
  · exact ⟨row, h, rfl, rfl⟩
  · rcases Table.mem_updateAt (f := fun row : Row => row.missed (c.missedPolls + 1))
      (fun _ => rfl) h with hold | ⟨old, hold, -, rfl⟩
    · exact ⟨row, hold, rfl, rfl⟩
    · exact ⟨old, hold, rfl, rfl⟩
  · exact ⟨row, (Table.mem_erase.1 h).1, rfl, rfl⟩

theorem find_settled_of_ne (h : ∀ c ∈ cs, st.missing c = true → id ≠ c.id) :
    (cs.foldl (settle now) st).sessions.find id = st.sessions.find id := by
  induction cs generalizing st with
  | nil => rfl
  | cons c cs ih =>
    rw [List.foldl_cons, ih fun r hr hmissing => h r (List.mem_cons_of_mem _ hr)
      (missing_settle now st c r ▸ hmissing)]
    exact find_settle_of_ne (h c List.mem_cons_self)

/-- A row the poll has not come across is not left as one that was not missed. -/
theorem find_settled_self (hids : (cs.map (·.id)).Nodup) (hc : c ∈ cs)
    (hmissing : st.missing c = true) (hrow : st.sessions.find c.id = some c) :
    ∀ row, (cs.foldl (settle now) st).sessions.find c.id = some row → row.missedPolls ≠ 0 := by
  induction cs generalizing st with
  | nil => cases hc
  | cons d cs ih =>
    rw [List.map_cons, List.nodup_cons] at hids
    rw [List.foldl_cons]
    rcases List.mem_cons.1 hc with rfl | hc
    · rw [find_settled_of_ne fun r hr _ heq => hids.1 (List.mem_map.2 ⟨r, hr, heq.symm⟩)]
      exact find_settle_self hmissing hrow
    · have hne : c.id ≠ d.id := fun heq => hids.1 (heq ▸ List.mem_map_of_mem hc)
      refine ih hids.2 hc ((missing_settle now st d c).trans hmissing) ?_
      rw [find_settle_of_ne fun _ => hne, hrow]

theorem mem_settled {row : Row} (h : row ∈ (cs.foldl (settle now) st).sessions.rows) :
    ∃ old ∈ st.sessions.rows, old.id = row.id ∧
      old.providerSessionId = row.providerSessionId := by
  induction cs generalizing st with
  | nil => exact ⟨row, h, rfl, rfl⟩
  | cons c cs ih =>
    obtain ⟨mid, hmid, hid, hprovider⟩ := ih h
    obtain ⟨old, hold, hid', hprovider'⟩ := mem_settle hmid
    exact ⟨old, hold, hid'.trans hid, hprovider'.trans hprovider⟩

theorem length_settled :
    (cs.foldl (settle now) st).history.length = st.history.length +
      cs.countP fun c => st.missing c && decide (gracePolls ≤ c.missedPolls + 1) := by
  induction cs generalizing st with
  | nil => rfl
  | cons c cs ih =>
    have hone : (settle now st c).history.length = st.history.length +
        if (st.missing c && decide (gracePolls ≤ c.missedPolls + 1)) = true then 1 else 0 := by
      by_cases hthere : c.id ∈ st.claimed ∨ c.providerSessionId ∈ st.seen
      · have hnot : st.missing c = false := by simpa [Poll.missing, imp_iff_not_or] using hthere
        rw [settle, if_pos hthere, hnot]
        rfl
      · have hmissing : st.missing c = true := by simpa [Poll.missing] using hthere
        rw [settle, if_neg hthere, hmissing, Bool.true_and]
        by_cases hgrace : c.missedPolls + 1 < gracePolls
        · rw [if_pos hgrace, if_neg (by simpa using hgrace)]
          rfl
        · rw [if_neg hgrace, if_pos (by simpa using hgrace)]
          rfl
    rw [List.foldl_cons, ih, List.countP_cons, hone]
    simp only [missing_settle]
    omega

end Settle

/-! ### What a poll leaves behind -/

section Result

variable (rt : Runtime) (now : ℤ) {uuid : String → String} {table : Table Row Row.id}
  {e l : List ProviderSession} {s : ProviderSession} {r : Row}

theorem missing_iff (hprovider : (table.rows.map (·.providerSessionId)).Nodup)
    (hsep : Separable table.rows e) (hr : r ∈ table.rows) :
    (run rt uuid now table e).missing r = true ↔ r.id ∉ taken (attach table.rows e) := by
  rw [Poll.missing, (run_state e).1, (run_state e).2, decide_eq_true_iff, and_iff_left_iff_imp]
  intro hfree hmem
  exact hfree ((mem_taken table.nodup hprovider hsep hr).2 (.inl hmem))

variable (huuid : MakesUp uuid table)
  (hprovider : (table.rows.map (·.providerSessionId)).Nodup)
  (hsessions : (e.map (·.sessionId)).Nodup) (hsep : Separable table.rows e)

include huuid hprovider hsessions hsep

theorem find_continued (h : (s, some r) ∈ attach table.rows e) :
    (table.rows.foldl (settle now) (run rt uuid now table e)).sessions.find r.id =
      some (r.continued s (restart rt now r s)) := by
  rw [find_settled_of_ne fun c hc hmissing heq => ?_]
  · exact (written huuid hprovider hsessions hsep).continued s r h
  · exact (missing_iff rt now hprovider hsep hc).1 hmissing (heq ▸ mem_taken_of_attach h)

theorem find_created (h : (s, none) ∈ attach table.rows e) :
    (table.rows.foldl (settle now) (run rt uuid now table e)).sessions.find (uuid s.sessionId) =
      some (createdRow uuid now s) := by
  rw [find_settled_of_ne fun c hc _ => (huuid.fresh c hc _).symm]
  exact (written huuid hprovider hsessions hsep).created s h

/-- The id of the row a session has. -/
def idOf (uuid : String → String) (p : ProviderSession × Option Row) : String :=
  (p.2.map (·.id)).getD (uuid p.1.sessionId)

/-- Every session has a row that was not missed. -/
theorem exists_row {p : ProviderSession × Option Row} (h : p ∈ attach table.rows e) :
    ∃ row ∈ (table.rows.foldl (settle now) (run rt uuid now table e)).sessions.rows,
      row.missedPolls = 0 ∧ row.providerSessionId = p.1.sessionId := by
  obtain ⟨s, o⟩ := p
  cases o with
  | some r =>
    exact ⟨_, (Table.find_eq_some.1 (find_continued rt now huuid hprovider hsessions hsep h)).1, rfl, rfl⟩
  | none =>
    exact ⟨_, (Table.find_eq_some.1 (find_created rt now huuid hprovider hsessions hsep h)).1, rfl, rfl⟩

theorem row_spec {row : Row}
    (hrow : row ∈ (table.rows.foldl (settle now) (run rt uuid now table e)).sessions.rows)
    (hmissed : row.missedPolls = 0) :
    ∃ p ∈ attach table.rows e, row.providerSessionId = p.1.sessionId ∧ row.id = idOf uuid p := by
  have hwritten : Written rt uuid now table e := written huuid hprovider hsessions hsep
  have hfind := Table.find_key hrow
  obtain ⟨old, hold, hid, -⟩ := mem_settled hrow
  rcases hwritten.ids old hold with ⟨r, hr, heq⟩ | ⟨s, hs, heq⟩
  · have hrid : r.id = row.id := heq.trans hid
    rw [← hrid] at hfind
    by_cases htaken : r.id ∈ taken (attach table.rows e)
    · obtain ⟨⟨s, o⟩, hp, ho⟩ := List.mem_filterMap.1 htaken
      obtain ⟨r', rfl, hr'⟩ := Option.map_eq_some_iff.1 ho
      have hfound := find_continued rt now huuid hprovider hsessions hsep hp
      rw [hr'] at hfound
      cases hfound.symm.trans hfind
      exact ⟨_, hp, rfl, rfl⟩
    · exact absurd hmissed (find_settled_self table.nodup hr
        ((missing_iff rt now hprovider hsep hr).2 htaken) (hwritten.untouched r hr htaken) row hfind)
  · rw [← hid, heq] at hfind
    cases (find_created rt now huuid hprovider hsessions hsep hs).symm.trans hfind
    exact ⟨_, hs, rfl, rfl⟩

theorem oneToOne_of_separable :
    OneToOne (table.rows.foldl (settle now) (run rt uuid now table e)).sessions.rows e where
  row s hs := by
    obtain ⟨o, ho⟩ := exists_attach table.rows hs
    obtain ⟨row, hrow, hmissed, hid⟩ := exists_row rt now huuid hprovider hsessions hsep ho
    refine ⟨row, ⟨hrow, hmissed, hid⟩, ?_⟩
    rintro other ⟨hother, hmissed', hid'⟩
    obtain ⟨p, hp, hpid, hprow⟩ := row_spec rt now huuid hprovider hsessions hsep hrow hmissed
    obtain ⟨q, hq, hqid, hqrow⟩ := row_spec rt now huuid hprovider hsessions hsep hother hmissed'
    have hpq : p = q := attach_unique hsessions hp hq
      (hpid.symm.trans (hid.trans (hid'.symm.trans hqid)))
    exact Table.eq_of_key hother hrow
      (hqrow.trans ((congrArg (idOf uuid) hpq).symm.trans hprow.symm))
  session row hrow hmissed := by
    obtain ⟨p, hp, hpid, -⟩ := row_spec rt now huuid hprovider hsessions hsep hrow hmissed
    exact ⟨p.1, mem_of_attach hp, hpid.symm⟩

theorem keeps_of_separable (hs : s ∈ e) (hr : r ∈ table.rows)
    (h : r.providerSessionId = s.sessionId) :
    ∃ row ∈ (table.rows.foldl (settle now) (run rt uuid now table e)).sessions.rows,
      row.id = r.id ∧ row.providerSessionId = s.sessionId ∧
      (isNewViewing rt r.playing s.playing = false → row.startedAt = r.startedAt) := by
  have hattach : (s, some r) ∈ attach table.rows e := by
    clear hsep hsessions
    induction e with
    | nil => cases hs
    | cons s' e ih =>
      rw [attach_cons]
      rcases List.mem_cons.1 hs with rfl | hs
      · rw [choice_known hprovider hr h]
        exact List.mem_cons_self
      · exact List.mem_cons_of_mem _ (ih hs)
  have hfound := find_continued rt now huuid hprovider hsessions hsep hattach
  refine ⟨_, (Table.find_eq_some.1 hfound).1, rfl, rfl, fun hnew => ?_⟩
  simp [Row.continued, restart, hnew]

omit huuid hsessions in
theorem length_history :
    (table.rows.foldl (settle now) (run rt uuid now table e)).history.length =
      (e.countP fun s => (byProviderId table.rows s.sessionId).any fun r =>
        isNewViewing rt r.playing s.playing) +
      table.rows.countP fun c =>
        !(decide (c.providerSessionId ∈ e.map (·.sessionId)) || decide (Given table.rows e c)) &&
          decide (gracePolls ≤ c.missedPolls + 1) := by
  have hloop : (run rt uuid now table e).history.length =
      e.countP fun s => (byProviderId table.rows s.sessionId).any fun r =>
        isNewViewing rt r.playing s.playing := by
    clear hsep
    induction e with
    | nil => rfl
    | cons s e ih =>
      rw [List.countP_cons, ← ih]
      cases hchoice : choice table.rows e s with
      | none =>
        rw [(run_none hchoice).2, (Option.or_eq_none_iff.1 hchoice).1]
        rfl
      | some r =>
        rw [(run_some hchoice).2]
        congr 1
        rcases Option.or_eq_some_iff.1 hchoice with h | ⟨hnone, h⟩
        · rw [h, Option.any_some]
        · -- What is adopted has the title of what adopts it.
          have hfound := List.find?_some h
          rw [decide_eq_true_iff, sameViewing, decide_eq_true_iff] at hfound
          have htitle := hfound.2.2.1
          simp [hnone, isNewViewing, htitle]
  rw [length_settled, hloop]
  congr 1
  refine List.countP_congr fun c hc => ?_
  have hmissing : (run rt uuid now table e).missing c =
      !(decide (c.providerSessionId ∈ e.map (·.sessionId)) || decide (Given table.rows e c)) := by
    rw [Bool.eq_iff_iff, missing_iff rt now hprovider hsep hc,
      mem_taken table.nodup hprovider hsep hc]
    simp
  rw [hmissing]

end Result

/-! ### A newcomer that is given the row of a listed session -/

section Merged

variable {rt : Runtime} {now : ℤ} {uuid : String → String} {table : Table Row Row.id}
  {e l : List ProviderSession} {s b : ProviderSession} {r : Row}

theorem mem_addMissing {t : Table Row Row.id} {row new : Row}
    (h : row ∈ (t.addMissing new).rows) : row ∈ t.rows ∨ row = new := by
  have hfind := Table.find_key h
  rw [Table.find_addMissing] at hfind
  rcases Option.or_eq_some_iff.1 hfind with hold | ⟨-, hnew⟩
  · exact .inl (Table.find_eq_some.1 hold).1
  · split_ifs at hnew
    exact .inr (Option.some.inj hnew).symm

theorem mem_run_cons {row : Row} (h : row ∈ (run rt uuid now table (s :: e)).sessions.rows) :
    row ∈ (run rt uuid now table e).sessions.rows ∨
      row.providerSessionId = s.sessionId ∧ row.id = idOf uuid (s, choice table.rows e s) := by
  cases hchoice : choice table.rows e s with
  | none =>
    rw [(run_none hchoice).1] at h
    refine (mem_addMissing h).imp_right ?_
    rintro rfl
    exact ⟨rfl, rfl⟩
  | some r =>
    rw [(run_some hchoice).1] at h
    have hf : ∀ row : Row, (row.continued s (restart rt now r s)).id = row.id := fun _ => rfl
    refine (Table.mem_updateAt hf h).imp_right ?_
    rintro ⟨old, -, hid, rfl⟩
    exact ⟨rfl, hid⟩

theorem run_providerSessionId {row : Row} (h : row ∈ (run rt uuid now table e).sessions.rows) :
    (∃ r ∈ table.rows, r.providerSessionId = row.providerSessionId) ∨
      ∃ p ∈ attach table.rows e, row.providerSessionId = p.1.sessionId ∧ row.id = idOf uuid p := by
  induction e with
  | nil => exact .inl ⟨row, h, rfl⟩
  | cons s e ih =>
    rcases mem_run_cons h with hold | ⟨hprovider, hid⟩
    · refine (ih hold).imp_right ?_
      rintro ⟨p, hp, hpid⟩
      exact ⟨p, List.mem_cons_of_mem _ hp, hpid⟩
    · exact .inr ⟨_, List.mem_cons_self, hprovider, hid⟩

theorem merged (hprovider : (table.rows.map (·.providerSessionId)).Nodup)
    (hsessions : (e.map (·.sessionId)).Nodup) (hunknown : unknown table.rows s = true)
    (hs : (s, some r) ∈ attach table.rows e) (hb : r.providerSessionId = b.sessionId) :
    ∀ row ∈ (run rt uuid now table (b :: e)).sessions.rows,
      row.providerSessionId ≠ s.sessionId := by
  intro row hrow hid
  have hr := mem_rows_of_attach hs
  have hfar {r' : Row} (hr' : r' ∈ table.rows) : r'.providerSessionId ≠ s.sessionId := by
    simpa using List.all_eq_true.1 hunknown r' hr'
  have hchoice := choice_known hprovider hr hb e
  have hf : ∀ row : Row, (row.continued b (restart rt now r b)).id = row.id := fun _ => rfl
  have hfind := Table.find_key hrow
  rw [(run_some hchoice).1] at hfind
  by_cases heq : row.id = r.id
  · rw [heq, Table.find_updateAt_self hf] at hfind
    obtain ⟨old, -, rfl⟩ := Option.map_eq_some_iff.1 hfind
    exact hfar hr (hb.trans hid)
  · rw [Table.find_updateAt_of_ne hf heq] at hfind
    rcases run_providerSessionId (Table.find_eq_some.1 hfind).1 with ⟨r', hr', h⟩ | ⟨p, hp, hpid, hprow⟩
    · exact hfar hr' (h.trans hid)
    · have hps := attach_unique hsessions hp hs (hpid.symm.trans hid)
      rw [hps] at hprow
      exact heq hprow

theorem merged_append (h : ∀ row ∈ (run rt uuid now table e).sessions.rows,
    row.providerSessionId ≠ s.sessionId) (hl : s.sessionId ∉ l.map (·.sessionId)) :
    ∀ row ∈ (run rt uuid now table (l ++ e)).sessions.rows,
      row.providerSessionId ≠ s.sessionId := by
  induction l with
  | nil => exact h
  | cons s' l ih =>
    rw [List.map_cons, List.mem_cons, not_or] at hl
    intro row hrow
    rcases mem_run_cons hrow with hold | ⟨hprovider, -⟩
    · exact ih hl.2 row hold
    · rw [hprovider]
      exact fun heq => hl.1 heq.symm

theorem attach_append {rows : List Row} {p : ProviderSession × Option Row}
    (h : p ∈ attach rows e) : p ∈ attach rows (l ++ e) := by
  induction l with
  | nil => exact h
  | cons s l ih => exact List.mem_cons_of_mem _ ih

end Merged

/-! ### The condition -/

section Condition

variable {rt : Runtime} {now : ℤ} {uuid : String → String} {table : Table Row Row.id}
  {sessions : List ProviderSession}

theorem separate_of_separable (huuid : MakesUp uuid table)
    (hprovider : (table.rows.map (·.providerSessionId)).Nodup)
    (hsessions : (sessions.map (·.sessionId)).Nodup) (hsep : Separable table.rows sessions) :
    Separate rt uuid now table sessions := by
  have hreverse {l : List ProviderSession} (hl : l.Perm sessions) :
      (l.reverse.map (·.sessionId)).Nodup ∧ Separable table.rows l.reverse := by
    have hperm := (List.reverse_perm l).trans hl
    exact ⟨(hperm.map _).nodup_iff.2 hsessions, (Separable.congr hperm).2 hsep⟩
  refine ⟨fun l hl => ?_, fun l hl s hs r hr h => ?_, fun l hl => ?_⟩
  · obtain ⟨hnodup, hl⟩ := hreverse hl
    have hone := oneToOne_of_separable rt now huuid hprovider hnodup hl
    rw [poll_eq]
    exact ⟨fun s hs => hone.row s (List.mem_reverse.2 hs), fun row hrow hmissed => by
      simpa using hone.session row hrow hmissed⟩
  · obtain ⟨hnodup, hl⟩ := hreverse hl
    rw [poll_eq]
    exact keeps_of_separable rt now huuid hprovider hnodup hl (List.mem_reverse.2 hs) hr h
  · have hperm : l.reverse.Perm sessions.reverse :=
      (List.reverse_perm l).trans (hl.trans (List.reverse_perm sessions).symm)
    rw [poll_eq, poll_eq, length_history rt now hprovider (hreverse hl).2,
      length_history rt now hprovider (hreverse (List.Perm.refl _)).2, hperm.countP_eq]
    simp only [Given.congr hperm, (hperm.map _).mem_iff]

/-- The newcomers of a viewing are listed first. -/
theorem separable_of_oneToOne (hprovider : (table.rows.map (·.providerSessionId)).Nodup)
    (hsessions : (sessions.map (·.sessionId)).Nodup)
    (hone : ∀ l, l.Perm sessions → OneToOne (poll rt uuid now table l).sessions.rows l) :
    Separable table.rows sessions := by
  intro r hr hgiven hlisted
  obtain ⟨b, hb, hbid⟩ := List.mem_map.1 hlisted
  let newcomer (s : ProviderSession) : Bool :=
    unknown table.rows s && decide (s.playing.viewing = r.playing.viewing)
  let first := sessions.filter newcomer
  let rest := sessions.filter fun s => !newcomer s
  have hperm : (first ++ rest).Perm sessions := List.filter_append_perm newcomer sessions
  have hfirst (s : ProviderSession) (hs : s ∈ first) : s ∈ sessions ∧ unknown table.rows s = true :=
    ⟨(List.mem_filter.1 hs).1, (Bool.and_eq_true _ _ ▸ (List.mem_filter.1 hs).2).1⟩
  have hsep : Separable table.rows first.reverse := by
    intro r' hr' _ hmem
    obtain ⟨s, hs, hid⟩ := List.mem_map.1 hmem
    have hknown := not_unknown hr' hid.symm
    rw [(hfirst s (List.mem_reverse.1 hs)).2] at hknown
    cases hknown
  have htaken : r.id ∈ taken (attach table.rows first.reverse) := by
    refine (mem_taken table.nodup hprovider hsep hr).2 (.inr ?_)
    rw [Given, newcomers] at hgiven ⊢
    rw [List.countP_reverse, List.countP_filter]
    simpa [newcomer] using hgiven
  obtain ⟨⟨s, o⟩, hp, ho⟩ := List.mem_filterMap.1 htaken
  obtain ⟨r', rfl, hid⟩ := Option.map_eq_some_iff.1 ho
  have hrr := List.inj_on_of_nodup_map table.nodup (mem_rows_of_attach hp) hr hid
  subst hrr
  obtain ⟨hs, hunknown⟩ := hfirst s (List.mem_reverse.1 (mem_of_attach hp))
  have hbrest : b ∈ rest.reverse := by
    rw [List.mem_reverse]
    refine List.mem_filter.2 ⟨hb, ?_⟩
    simp [newcomer, not_unknown hr hbid.symm]
  obtain ⟨later, earlier, hsplit⟩ := List.append_of_mem hbrest
  have hlist : (first ++ rest).reverse = later ++ b :: (earlier ++ first.reverse) := by
    rw [List.reverse_append, hsplit, List.append_assoc, List.cons_append]
  have hnodup : ((later ++ b :: (earlier ++ first.reverse)).map (·.sessionId)).Nodup := by
    rw [← hlist]
    exact (((List.reverse_perm _).trans hperm).map _).nodup_iff.2 hsessions
  rw [List.map_append, List.nodup_append] at hnodup
  have hgone : ∀ row ∈
      (run rt uuid now table (later ++ b :: (earlier ++ first.reverse))).sessions.rows,
      row.providerSessionId ≠ s.sessionId := merged_append
    (merged hprovider (List.nodup_cons.1 hnodup.2.1).2 hunknown (attach_append hp) hbid.symm)
    (fun hmem => hnodup.2.2 _ hmem _ (List.mem_map_of_mem (List.mem_cons_of_mem _
      (List.mem_append_right _ (mem_of_attach hp)))) rfl)
  obtain ⟨row, ⟨hrow, -, hrowid⟩, -⟩ := (hone _ hperm).row s (hperm.mem_iff.2 hs)
  rw [poll_eq, hlist] at hrow
  obtain ⟨old, hold, -, hprov⟩ := mem_settled hrow
  exact hgone old hold (hprov.trans hrowid)

/-- Viewings are kept apart in every order exactly when no newcomer gets the row of a listed
session. -/
theorem separate_iff (huuid : MakesUp uuid table)
    (hprovider : (table.rows.map (·.providerSessionId)).Nodup)
    (hsessions : (sessions.map (·.sessionId)).Nodup) :
    Separate rt uuid now table sessions ↔ Separable table.rows sessions :=
  ⟨fun h => separable_of_oneToOne hprovider hsessions h.oneToOne,
    separate_of_separable huuid hprovider hsessions⟩

end Condition

/-! ### Two televisions of one name -/

def dune : Playback := { title := "Dune", userName := some "anna", device := some "TV" }

/-- Two rows of one viewing; the second has been missed three times. -/
def twoRows : List Row :=
  [{ id := "1", providerSessionId := "a", playing := dune, startedAt := 0 },
   { id := "2", providerSessionId := "z", playing := dune, startedAt := 0, missedPolls := 3 }]

theorem nodup_twoRows : (twoRows.map Row.id).Nodup := by decide

def twoRowsTable : Table Row Row.id := ⟨twoRows, nodup_twoRows⟩

def madeUp (sessionId : String) : String := "new " ++ sessionId

theorem makesUp_madeUp : MakesUp madeUp twoRowsTable where
  injective _ _ h := (String.append_right_inj _).1 h
  fresh r hr sessionId h := by
    have hall : ∀ r ∈ twoRowsTable.rows, r.id.toList.head? ≠ some 'n' := by decide
    have hhead := hall r hr
    rw [h, madeUp, String.toList_append] at hhead
    exact hhead rfl

theorem separate_renamed :
    Separate Runtime.ascii madeUp 60000 twoRowsTable [⟨"b", dune⟩, ⟨"c", dune⟩] :=
  (separate_iff makesUp_madeUp (by decide) (by decide)).2 (by decide)

/-- The newcomer is listed before the session whose row it is given: one row is left for both, and
a stop is recorded that is not when they are listed the other way round. -/
theorem viewings_merge :
    ((poll Runtime.ascii madeUp 60000 twoRowsTable
      [⟨"b", dune⟩, ⟨"a", dune⟩]).sessions.rows.map (·.providerSessionId)) = ["a"] ∧
    (poll Runtime.ascii madeUp 60000 twoRowsTable
      [⟨"b", dune⟩, ⟨"a", dune⟩]).history.length = 1 ∧
    (poll Runtime.ascii madeUp 60000 twoRowsTable
      [⟨"a", dune⟩, ⟨"b", dune⟩]).history.length = 0 ∧
    ¬ Separate Runtime.ascii madeUp 60000 twoRowsTable [⟨"b", dune⟩, ⟨"a", dune⟩] := by
  have hrows : ((poll Runtime.ascii madeUp 60000 twoRowsTable
      [⟨"b", dune⟩, ⟨"a", dune⟩]).sessions.rows.map (·.providerSessionId)) = ["a"] := by
    decide +kernel
  refine ⟨hrows, by decide +kernel, by decide +kernel, fun h => ?_⟩
  obtain ⟨row, ⟨hrow, -, hid⟩, -⟩ := (h.oneToOne _ (List.Perm.refl _)).row _ List.mem_cons_self
  have hmem := List.mem_map_of_mem (f := Row.providerSessionId) hrow
  rw [hrows, hid] at hmem
  exact absurd hmem (by decide)

end UltraTorrent.MediaServerAnalytics.SessionPoll
