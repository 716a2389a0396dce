import UltraTorrent.Acquisition.WantedSearches

/-! A release that is recorded as dead for an episode is not added for it again. That holds as long
as every search works from the dead releases its row has by then, no list of them is overwritten by
an older one, and no pack qualifies that is dead for an episode it covers. -/
namespace UltraTorrent.Acquisition.DeadReleases

open Library Library.Interleaving Library.EcmaScript MissingEpisodes ReleaseSelection WantedSearches

variable {P : Type} {rules : Rules P} {store store' : Store} {call call' : Call P} {answer : Answer P}
  {write : Write}

def Recorded (store : Store) (episodeId title : String) : Prop :=
  ∃ w ∈ store.rows.rows, w.id = episodeId ∧ title ∈ w.deadReleases

/-- The torrents added since are none of them the release that is dead for the episode. -/
def Spared (rules : Rules P) (store store' : Store) (episodeId title : String) : Prop :=
  ∃ new, store'.added = new ++ store.added ∧
    ∀ a ∈ new, a.episodeId = episodeId → normalize rules.rt a.title ≠ normalize rules.rt title

/-! ### What a step has to heed -/

/-- A patch that drops a dead release of a row it is written to. -/
def loses (store : Store) (ids : List String) (patch : Patch) : Bool :=
  store.rows.rows.any fun v =>
    ids.contains v.id && !v.deadReleases.all (patch.apply v).deadReleases.contains

def adds (answer : Answer P) : Bool :=
  match answer.engine with
  | .added _ _ => !answer.fails
  | .refused | .unreachable => false

/-- The releases a search skips are all that its row has recorded by now. -/
def isCurrent (rules : Rules P) (store : Store) (w : WantedEpisode) : Bool :=
  store.rows.rows.all fun v => v.id ≠ w.id ||
    v.deadReleases.all fun dead => (deadSet rules w.deadReleases).contains (normalize rules.rt dead)

def isDead (rules : Rules P) (store : Store) (coveredEpisodeIds : List String) (c : Candidate) : Bool :=
  store.rows.rows.any fun v => coveredEpisodeIds.contains v.id &&
    v.deadReleases.any fun dead => normalize rules.rt dead = normalize rules.rt c.title

def qualifies (rules : Rules P) (request : PackRequest) (prefs : List P) (c : Candidate) : Bool :=
  (qualify rules prefs request.item.title request.target request.maxBytes request.item.titleAliases
    c).isSome

def heeded (rules : Rules P) (store : Store) (call : Call P) (answer : Answer P) : Bool :=
  match call with
  | .processing _ w (.grabbing _ _) _ => !adds answer || isCurrent rules store w
  | .packing request (.grabbing _ candidates prefs _) => !adds answer ||
      candidates.all fun c => !qualifies rules request prefs c || !isDead rules store request.coveredEpisodeIds c
  | .processing _ w (.writing patch _) _ => answer.fails || !loses store [w.id] patch
  | .packing request (.covering patch) => answer.fails || !loses store request.coveredEpisodeIds patch
  | .releasing (w :: _) _ => answer.fails || !loses store [w.id] (.released (withReleased w))
  | _ => true

/-! ### What is about to be added -/

/-- The call is no scan, and what it is about to add has been selected. -/
def Chosen (rules : Rules P) : Call P → Prop
  | .processing _ w (.grabbing _ release) _ =>
    normalize rules.rt release.title ∉ deadSet rules w.deadReleases
  | .packing request (.grabbing _ candidates prefs release) =>
    release ∈ candidates ∧ qualifies rules request prefs release
  | .scanSeries _ _ _ | .reading _ _ _ _ | .deleting _ _ _ _ _ | .creating _ _ => False
  | _ => True

theorem chosen_of_isFresh (rules : Rules P) (hfresh : isFresh call) (hscan : isScan call = false) :
    Chosen rules call := by
  cases call with
  | processing origin w stage rest => cases stage <;> trivial
  | packing request stage => cases stage <;> trivial
  | scanSeries | reading | deleting | creating => cases hscan
  | _ => trivial

theorem Chosen.not_scan (h : Chosen rules call) : isScan call = false := by
  cases call <;> first | rfl | cases h

theorem chosen_proceed (rules : Rules P) (origin : Origin) (rest : List WantedEpisode) :
    Chosen rules (proceed origin rest) :=
  chosen_of_isFresh rules (isFresh_proceed origin rest) (isScan_proceed origin rest)

theorem chosen_thrown (rules : Rules P) (origin : Origin) (w : WantedEpisode)
    (rest : List WantedEpisode) : Chosen rules (thrown origin w rest) :=
  chosen_of_isFresh rules (isFresh_thrown origin w rest) (isScan_thrown origin w rest)

theorem nextEpisode_chosen (rules : Rules P) (store : Store) (answer : Answer P) (origin : Origin)
    (w : WantedEpisode) (rest : List WantedEpisode) (stage : Stage P) :
    Chosen rules (nextEpisode rules store answer origin w rest stage).2 := by
  cases hfails : answer.fails with
  | true =>
    simp only [nextEpisode, hfails, if_true]
    exact chosen_thrown rules origin w rest
  | false =>
    cases stage <;> simp only [nextEpisode, hfails, Bool.false_eq_true, if_false]
    case starting | recording => trivial
    case checkingOwned | asking | resolvingPath =>
      repeat' split
      all_goals trivial
    case findingItem =>
      cases answer.item with
      | none => exact chosen_thrown rules origin w rest
      | some item => trivial
    case owning =>
      split_ifs
      · exact chosen_proceed rules origin rest
      · exact chosen_thrown rules origin w rest
    case preferring item savePath candidates =>
      split
      · trivial
      · rename_i best hbest
        exact select_not_dead hbest
    case grabbing =>
      split <;> trivial
    case writing patch audited =>
      split_ifs
      · trivial
      · exact chosen_proceed rules origin rest
    case auditing => exact chosen_proceed rules origin rest

theorem nextPack_chosen (rules : Rules P) (answer : Answer P) (request : PackRequest)
    (stage : PackStage P) : Chosen rules (nextPack rules answer request stage).2 := by
  cases hfails : answer.fails with
  | true =>
    simp only [nextPack, hfails, if_true]
    trivial
  | false =>
    cases stage <;> simp only [nextPack, hfails, Bool.false_eq_true, if_false]
    case preferring savePath candidates =>
      split
      · trivial
      · rename_i best hbest
        exact selectPack_qualifies hbest
    all_goals
      repeat' split
      all_goals trivial

theorem Chosen.act (hchosen : Chosen rules call)
    (h : act rules store call answer = some (store', call')) : Chosen rules call' := by
  obtain ⟨write, hnext, -⟩ := act_eq_some.1 h
  rcases next_cases hnext with ⟨origin, w, rest, stage, rfl, hstep⟩ | ⟨request, stage, rfl, hstep⟩ |
    ⟨hfresh, hscan⟩
  · have hchosen' := nextEpisode_chosen rules store answer origin w rest stage
    rwa [hstep] at hchosen'
  · have hchosen' := nextPack_chosen rules answer request stage
    rwa [hstep] at hchosen'
  · refine chosen_of_isFresh rules hfresh (eq_false_of_ne_true fun hscan' => ?_)
    exact absurd (hscan hscan') (by simp [hchosen.not_scan])

/-! ### What an action records and adds -/

/-- A call that fails writes nothing. -/
theorem fails_eq_false (hchosen : Chosen rules call)
    (hnext : next rules store answer call = some (write, call')) (hwrite : write ≠ .nothing) :
    answer.fails = false := by
  by_contra hfails
  rw [Bool.not_eq_false] at hfails
  cases call with
  | releasing dead absentNext =>
    cases dead <;> simp [next, hfails] at hnext <;> exact hwrite hnext.1.symm
  | scanSeries | reading | deleting | creating => cases hchosen
  | done => cases hnext
  | processing | packing =>
    simp [next, nextEpisode, nextPack, hfails] at hnext
    exact hwrite hnext.1.symm
  | _ =>
    simp [next, hfails] at hnext
    exact hwrite hnext.1.symm

theorem loses_eq_false {ids : List String} {patch : Patch}
    (h : ∀ v : WantedEpisode, (patch.apply v).deadReleases = v.deadReleases) :
    loses store ids patch = false := by
  simp [loses, h]

theorem not_loses {ids : List String} {patch : Patch} (hpatches : Patches call ids patch)
    (hheeded : heeded rules store call answer) (hfails : answer.fails = false) :
    loses store ids patch = false := by
  cases hpatches with
  | start | own | handle => exact loses_eq_false fun _ => rfl
  | write | cover | release => simpa [heeded, hfails] using hheeded

theorem mem_patched {ids : List String} {patch : Patch} (hkeeps : loses store ids patch = false)
    {v : WantedEpisode} (hv : v ∈ store.rows.rows) {title : String} (htitle : title ∈ v.deadReleases) :
    title ∈ (updated ids patch v).deadReleases := by
  unfold updated
  split_ifs with hid
  · have hrow := List.any_eq_false.1 hkeeps v hv
    simp only [hid, Bool.true_and, Bool.not_eq_true', Bool.not_eq_false, List.all_eq_true,
      List.contains_iff_mem] at hrow
    exact hrow title htitle
  · exact htitle

theorem id_updated (ids : List String) (patch : Patch) (v : WantedEpisode) :
    (updated ids patch v).id = v.id := by
  unfold updated
  split_ifs
  · exact patch.id_apply v
  · rfl

variable {episodeId title : String}

theorem Recorded.act (hrecorded : Recorded store episodeId title) (hchosen : Chosen rules call)
    (hheeded : heeded rules store call answer)
    (h : act rules store call answer = some (store', call')) : Recorded store' episodeId title := by
  obtain ⟨write, hnext, rfl⟩ := act_eq_some.1 h
  obtain ⟨v, hv, hid, htitle⟩ := hrecorded
  cases next_writes hnext with
  | nothing | addEpisode | addPack => exact ⟨v, hv, hid, htitle⟩
  | delete | create => cases hchosen
  | reset =>
    refine ⟨reset v, (Table.mem_update slot_reset).2 ⟨v, hv, rfl⟩, ?_, ?_⟩ <;> unfold reset <;> split_ifs <;>
      assumption
  | @update _ ids patch hpatches =>
    have hfails := fails_eq_false hchosen hnext (by rintro ⟨⟩)
    refine ⟨updated ids patch v, (Table.mem_update (slot_updated ids patch)).2 ⟨v, hv, rfl⟩, ?_, ?_⟩
    · rw [id_updated, hid]
    · exact mem_patched (not_loses hpatches hheeded hfails) hv htitle

theorem adds_of_next {ids : List String} {added torrentHash : String}
    (h : next rules store answer call = some (.add ids added torrentHash, call')) :
    adds answer = true := by
  have hwrites := next_writes h
  cases hwrites with
  | addEpisode | addPack =>
    cases hfails : answer.fails <;> cases hengine : answer.engine <;>
      simp_all [next, nextEpisode, nextPack, adds]

theorem isCurrent_spares {v w : WantedEpisode} (hcurrent : isCurrent rules store w = true)
    (hv : v ∈ store.rows.rows) (hid : v.id = w.id) (htitle : title ∈ v.deadReleases) {added : String}
    (hadded : normalize rules.rt added ∉ deadSet rules w.deadReleases) :
    normalize rules.rt added ≠ normalize rules.rt title := by
  have hrow := List.all_eq_true.1 hcurrent v hv
  simp only [hid, ne_eq, not_true_eq_false, decide_false, Bool.false_or, List.all_eq_true,
    List.contains_iff_mem] at hrow
  intro heq
  exact hadded (heq ▸ hrow title htitle)

theorem not_isDead_spares {v : WantedEpisode} {ids : List String} {c : Candidate}
    (hdead : isDead rules store ids c = false) (hv : v ∈ store.rows.rows) (hid : v.id ∈ ids)
    (htitle : title ∈ v.deadReleases) : normalize rules.rt c.title ≠ normalize rules.rt title := by
  have hrow := List.any_eq_false.1 hdead v hv
  simp only [List.contains_iff_mem.2 hid, Bool.true_and, List.any_eq_true, not_exists, not_and,
    decide_eq_true_eq] at hrow
  exact fun heq => hrow title htitle heq.symm

theorem spared_act (hrecorded : Recorded store episodeId title) (hchosen : Chosen rules call)
    (hheeded : heeded rules store call answer)
    (h : act rules store call answer = some (store', call')) :
    Spared rules store store' episodeId title := by
  obtain ⟨write, hnext, rfl⟩ := act_eq_some.1 h
  obtain ⟨v, hv, hid, htitle⟩ := hrecorded
  cases next_writes hnext with
  | nothing | update | reset | delete | create => exact ⟨[], rfl, by rintro _ ⟨⟩⟩
  | addEpisode origin w rest savePath release torrentHash =>
    refine ⟨_, rfl, fun a ha hepisode => ?_⟩
    obtain ⟨id, hmem, rfl⟩ := List.mem_map.1 ha
    rw [List.mem_singleton] at hmem
    have hcurrent : isCurrent rules store w = true := by
      simpa [heeded, adds_of_next hnext] using hheeded
    exact isCurrent_spares hcurrent hv (hid.trans (hepisode.symm.trans hmem)) htitle hchosen
  | addPack request savePath candidates prefs release torrentHash =>
    refine ⟨_, rfl, fun a ha hepisode => ?_⟩
    obtain ⟨id, hmem, rfl⟩ := List.mem_map.1 ha
    have hdead : isDead rules store request.coveredEpisodeIds release = false := by
      have hall : ∀ c ∈ candidates, qualifies rules request prefs c = false ∨
          isDead rules store request.coveredEpisodeIds c = false := by
        simpa [heeded, adds_of_next hnext] using hheeded
      exact (hall release hchosen.1).resolve_left (by simp [hchosen.2])
    exact not_isDead_spares hdead hv (by rw [hid, ← hepisode]; exact hmem) htitle

theorem Spared.trans {store'' : Store} (h : Spared rules store store' episodeId title)
    (h' : Spared rules store' store'' episodeId title) : Spared rules store store'' episodeId title := by
  obtain ⟨new, hadded, hspared⟩ := h
  obtain ⟨new', hadded', hspared'⟩ := h'
  refine ⟨new' ++ new, by rw [hadded', hadded, List.append_assoc], fun a ha => ?_⟩
  rcases List.mem_append.1 ha with ha | ha
  · exact hspared' a ha
  · exact hspared a ha

/-! ### Runs -/

variable {ι : Type*} [DecidableEq ι]

theorem chosen_update {c : Config ι Store (Call P)} {i : ι} (hchosen : ∀ j, Chosen rules (c.call j))
    (h : act rules c.store (c.call i) answer = some (store', call')) (j : ι) :
    Chosen rules (Function.update c.call i call' j) := by
  by_cases hj : j = i
  · rw [hj, Function.update_self]
    exact (hchosen i).act h
  · rw [Function.update_of_ne hj]
    exact hchosen j

theorem chosen_run {start c : Config ι Store (Call P)}
    (hentry : ∀ i, isEntry (start.call i) = true ∧ isScan (start.call i) = false)
    (h : Run (WantedSearches.act rules) (fun _ _ => True) start c) (i : ι) : Chosen rules (c.call i) := by
  refine h.invariant (P := fun c => ∀ i, Chosen rules (c.call i)) ?_ ?_ i
  · exact fun i => chosen_of_isFresh rules (isFresh_of_isEntry (hentry i).1) (hentry i).2
  · intro c i answer store' call' hchosen _ hact j
    exact chosen_update hchosen hact j

/-- What heeded steps keep from where the release has been recorded. -/
structure Kept (rules : Rules P) (store : Store) (episodeId title : String)
    (c : Config ι Store (Call P)) : Prop where
  chosen : ∀ i, Chosen rules (c.call i)
  recorded : Recorded c.store episodeId title
  spared : Spared rules store c.store episodeId title

/-- Once a release is recorded as dead for an episode, none of its spelling is added for it in what
follows, by itself or as a pack, as long as what follows is heeded. -/
theorem heeded_never_readded {start c c' : Config ι Store (Call P)}
    (hentry : ∀ i, isEntry (start.call i) = true ∧ isScan (start.call i) = false)
    (h : Run (WantedSearches.act rules) (fun _ _ => True) start c)
    (hrecorded : Recorded c.store episodeId title)
    (h' : Run (guarded (heeded rules) (WantedSearches.act rules)) (fun _ _ => True) c c') :
    Spared rules c.store c'.store episodeId title := by
  have hkept : Kept rules c.store episodeId title c' := by
    refine h'.invariant ⟨chosen_run hentry h, hrecorded, [], rfl, by rintro _ ⟨⟩⟩ ?_
    intro c'' i answer store' call' hkept _ hguarded
    obtain ⟨hheeded, hact⟩ := guarded_eq_some.1 hguarded
    have hchosen := hkept.chosen i
    exact ⟨chosen_update hkept.chosen hact, hkept.recorded.act hchosen hheeded hact,
      hkept.spared.trans (spared_act hkept.recorded hchosen hheeded hact)⟩
  exact hkept.spared

/-- An episode that is wanted, with the releases that are dead for it. -/
def wanted (deadReleases : List String) : WantedEpisode :=
  { id := "w1", watchlistItemId := "wl1", seriesTconst := "tt0306414",
    episodeTconst := some "tt0749451", seasonNumber := 1, episodeNumber := 1,
    episodeTitle := some "The Target", airYear := some 2002, status := .missing, deadReleases }

def theSeries : Item where
  id := "wl1"
  title := "The Wire"
  titleAliases := []

def offered (candidates : List Candidate) (torrentHash : String) : Answer Unit where
  item := some theSeries
  savePath := { path := some "/tv/The Wire", intakeRuleId := none }
  runs := [{ candidates, queried := 1, failed := 0 }]
  prefs := [()]
  engine := .added torrentHash false
  parked := [torrentHash]

/-- The season is looked for as a pack, the pack is given back, and the season is looked for again. -/
def twice : Config (Fin 3) Store (Call Unit) where
  store := { rows := ⟨[wanted []], List.nodup_singleton _⟩, added := [] }
  call i := if i.val = 1 then .releaseStuckGrabs else .tryPack theSeries (.season 1) ["w1"]

def addedAgain (store store' : Store) : Bool :=
  store'.added = (⟨"w1", seasonRelease.title, "facade"⟩ : Added) :: store.added

/-- A pack without seeders is recorded as dead for its episode, and added for it again. -/
theorem pack_readded : ∃ c c',
    (∀ i, isEntry (twice.call i) = true ∧ isScan (twice.call i) = false) ∧
    Run (WantedSearches.act theWire) (fun _ _ => True) twice c ∧
    Recorded c.store "w1" seasonRelease.title ∧
    Run (WantedSearches.act theWire) (fun _ _ => True) c c' ∧
    ¬ Spared theWire c.store c'.store "w1" seasonRelease.title := by
  obtain ⟨c, hrun, hc⟩ := run_of_exec_any (WantedSearches.act theWire) (fun _ _ => True) twice
    ([0, 0, 0, 0, 0, 0, 0, 0, 1, 1, 1, 1].map fun i => (i, offered [seasonRelease] "facade"))
    (fun c => (c.store.rows.rows.any fun w => w.id = "w1" && w.deadReleases.contains seasonRelease.title) &&
      (exec (WantedSearches.act theWire) (fun _ _ => True) c
        ([2, 2, 2, 2, 2].map fun i => (i, offered [seasonRelease] "facade"))).any fun c' => addedAgain c.store c'.store)
    (by decide +kernel)
  rw [Bool.and_eq_true, List.any_eq_true] at hc
  obtain ⟨⟨w, hw, hdead⟩, hagain⟩ := hc
  rw [Bool.and_eq_true, decide_eq_true_eq, List.contains_iff_mem] at hdead
  obtain ⟨c', hrun', hadded⟩ := run_of_exec_any _ _ c _ _ hagain
  refine ⟨c, c', by decide, hrun, ⟨w, hw, hdead.1, hdead.2⟩, hrun', ?_⟩
  rintro ⟨new, hnew, hspared⟩
  have hcons := of_decide_eq_true hadded
  rw [hnew, ← List.singleton_append] at hcons
  rw [List.append_cancel_right hcons] at hspared
  exact hspared _ (List.mem_singleton_self _) rfl rfl

/-- The pack is dead, and the episode is searched by itself. -/
def searched : Config (Fin 1) Store (Call Unit) where
  store := { rows := ⟨[wanted [seasonRelease.title]], List.nodup_singleton _⟩, added := [] }
  call _ := .searchEpisode "w1"

theorem episode_spared : ∃ c : Config (Fin 1) Store (Call Unit),
    Spared theWire searched.store c.store "w1" seasonRelease.title ∧
    c.store.added = [(⟨"w1", episodeRelease.title, "c0ffee"⟩ : Added)] := by
  obtain ⟨c, hrun, hadded⟩ := run_of_exec_any (guarded (heeded theWire) (WantedSearches.act theWire))
    (fun _ _ => True) searched ([0, 0, 0, 0, 0, 0, 0, 0].map fun i => (i, offered [episodeRelease] "c0ffee"))
    (fun c => c.store.added = [(⟨"w1", episodeRelease.title, "c0ffee"⟩ : Added)]) (by decide +kernel)
  exact ⟨c, heeded_never_readded (fun _ => ⟨rfl, rfl⟩) .refl ⟨_, List.mem_singleton_self _, rfl,
    List.mem_singleton_self _⟩ hrun, of_decide_eq_true hadded⟩

end UltraTorrent.Acquisition.DeadReleases
