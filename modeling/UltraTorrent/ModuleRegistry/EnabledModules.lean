import UltraTorrent.Library.Pruning
import UltraTorrent.ModuleRegistry.Manifests

/-! The registry of the modules: which of them are enabled, and why the others are not. It is worked
out afresh from the manifests, the licence and the overrides after everything an administrator does. -/
namespace UltraTorrent.ModuleRegistry.EnabledModules

open Library Library.DepthFirst Library.Fuel Manifests

inductive ModuleStateValue where
  | enabled
  | missingDependency
  | licenseRequired
  | disabled
  deriving DecidableEq

structure ModuleStatus where
  id : String
  required : Bool
  state : ModuleStateValue
  enabled : Bool
  licensed : Bool
  unmetDependencies : List String
  reason : String

inductive Exception where
  | notFound (message : String)
  | forbidden (message : String)
  | badRequest (message : String)
  | error (message : String)

structure Registry where
  manifests : List ModuleManifest
  /-- `hasModule` of the provider set last. -/
  license : String → Bool
  /-- The rows of `module_states`. -/
  overrides : String → Option Bool
  statuses : List ModuleStatus

/-- Desired state before dependency resolution. -/
def want (r : Registry) (id : String) : Bool :=
  match byId r.manifests id with
  | some m => r.license m.id && (r.overrides m.id).getD m.enabledByDefault
  | none => false

def stateOf (r : Registry) (enabled : String → Bool) (m : ModuleManifest) (unmet : List String) : ModuleStateValue × String :=
  if enabled m.id then (.enabled, "active")
  else if want r m.id && unmet ≠ [] then (.missingDependency, "requires: " ++ ", ".intercalate unmet)
  else if !r.license m.id then (.licenseRequired, "not included in this edition")
  else if r.overrides m.id = some false then (.disabled, "disabled by an administrator")
  else (.disabled, "off by default — never enabled on this installation")

def statusOf (r : Registry) (enabled : String → Bool) (m : ModuleManifest) : ModuleStatus :=
  let unmet := m.dependencies.filter fun dep => !enabled dep
  { id := m.id
    required := m.required
    state := (stateOf r enabled m unmet).1
    enabled := enabled m.id
    licensed := r.license m.id
    unmetDependencies := unmet
    reason := (stateOf r enabled m unmet).2 }

abbrev Registry.withStatuses (r : Registry) (statuses : List ModuleStatus) : Registry := { r with statuses := statuses }

/-- Every pass over the manifests but the last takes a module out, so as many passes as modules, and one, do. -/
def refresh (r : Registry) : Outcome Exception Registry :=
  match Pruning.prune ModuleManifest.id ModuleManifest.dependencies r.manifests (r.manifests.length + 1) (want r) with
  | none => .timeout
  | some enabled => .ok (r.withStatuses (r.manifests.map (statusOf r enabled)))

def getStatus (r : Registry) (id : String) : Option ModuleStatus := r.statuses.find? (·.id = id)

def isEnabled (r : Registry) (id : String) : Bool := (getStatus r id).any (·.enabled)

def getManifest (r : Registry) (id : String) : Outcome Exception ModuleManifest :=
  match byId r.manifests id with
  | some m => .ok m
  | none => .thrown (.notFound s!"Unknown module: {id}")

/-- The row's `status` and `tier` are never read back. -/
def setState (r : Registry) (id : String) (enabled : Bool) : Registry :=
  { r with overrides := Function.update r.overrides id (some enabled) }

def enable (r : Registry) (id : String) : Outcome Exception Registry := do
  let m ← getManifest r id
  let unmet := m.dependencies.filter fun dep => !isEnabled r dep
  if unmet ≠ [] then .thrown (.badRequest ("Enable its dependencies first: " ++ ", ".intercalate unmet))
  else refresh (setState r id true)

def disable (r : Registry) (id : String) : Outcome Exception Registry := do
  let m ← getManifest r id
  if m.required then .thrown (.forbidden "Required modules cannot be disabled")
  else
    let dependents := r.manifests.filter fun x => x.dependencies.contains id && isEnabled r x.id
    if dependents ≠ [] then
      .thrown (.badRequest ("Disable dependents first: " ++ ", ".intercalate (dependents.map (·.id))))
    else refresh (setState r id false)

def registerExternal (r : Registry) (m : ModuleManifest) : Outcome Exception Registry :=
  match load (r.manifests ++ [m]) with
  | .timeout => .timeout
  | .thrown message => .thrown (.error message)
  | .ok () => refresh { r with manifests := r.manifests ++ [m] }

def setLicenseProvider (r : Registry) (provider : String → Bool) : Outcome Exception Registry :=
  refresh { r with license := provider }

inductive Operation where
  | enable (id : String)
  | disable (id : String)
  | registerExternal (m : ModuleManifest)
  | setLicenseProvider (provider : String → Bool)

def apply (r : Registry) : Operation → Outcome Exception Registry
  | .enable id => enable r id
  | .disable id => disable r id
  | .registerExternal m => registerExternal r m
  | .setLicenseProvider provider => setLicenseProvider r provider

/-- Operations one after another. One that is refused has changed nothing. -/
def run : Registry → List Operation → Registry
  | r, [] => r
  | r, op :: ops =>
    match apply r op with
    | .ok r' => run r' ops
    | _ => run r ops

/-! ### What a refresh leaves -/

abbrev Requires (manifests : List ModuleManifest) : String → String → Prop :=
  Pruning.Needs ModuleManifest.id ModuleManifest.dependencies manifests

abbrev Reaches (manifests : List ModuleManifest) : String → String → Prop :=
  Relation.ReflTransGen (Requires manifests)

/-- A module is wanted, and so is everything it requires, through whatever others. -/
def Active (r : Registry) (id : String) : Prop :=
  ∀ other, Reaches r.manifests id other → want r other = true

variable {r r' : Registry} {id : String} {m : ModuleManifest} {enabled provider : String → Bool}

theorem Active.want (h : Active r id) : want r id = true := h id .refl

theorem Active.requires {other : String} (h : Active r id) (hneeds : Requires r.manifests id other) : Active r other :=
  fun _ hpath => h _ (.head hneeds hpath)

theorem want_iff : want r id = true ↔
    ∃ m, byId r.manifests id = some m ∧ r.license id = true ∧ (r.overrides id).getD m.enabledByDefault = true := by
  unfold want
  cases hfind : byId r.manifests id with
  | none => simp
  | some m =>
    obtain rfl := (mem_of_byId hfind).2
    simp

theorem active_iff (hunique : (r.manifests.map (·.id)).Nodup) (hm : m ∈ r.manifests) :
    Active r m.id ↔ EnabledModules.want r m.id = true ∧ ∀ dep ∈ m.dependencies, Active r dep := by
  constructor
  · intro h
    exact ⟨h.want, fun dep hdep => h.requires ⟨m, hm, rfl, hdep⟩⟩
  · rintro ⟨hwant, hdeps⟩ other hpath
    rcases hpath.cases_head with rfl | ⟨dep, ⟨n, hn, hid, hdep⟩, hpath⟩
    · exact hwant
    · rw [List.inj_on_of_nodup_map hunique hn hm hid] at hdep
      exact hdeps dep hdep other hpath

theorem getStatus_refreshed : getStatus (r.withStatuses (r.manifests.map (statusOf r enabled))) id =
    (byId r.manifests id).map (statusOf r enabled) := by
  unfold getStatus byId
  rw [List.find?_map]
  rfl

theorem isEnabled_refreshed (henabled : enabled id = true → EnabledModules.want r id = true) :
    isEnabled (r.withStatuses (r.manifests.map (statusOf r enabled))) id = enabled id := by
  unfold isEnabled
  rw [getStatus_refreshed]
  cases hfind : byId r.manifests id with
  | none =>
    cases hid : enabled id with
    | true =>
      have hwant := henabled hid
      rw [EnabledModules.want, hfind] at hwant
      cases hwant
    | false => rfl
  | some m =>
    rw [← (mem_of_byId hfind).2]
    rfl

/-- The statuses were worked out from what the registry holds. -/
structure Settled (r : Registry) : Prop where
  loadable : Loadable r.manifests
  statuses : ∃ enabled, r.statuses = r.manifests.map (statusOf r enabled) ∧ ∀ id, enabled id = true ↔ Active r id

theorem Settled.isEnabled (h : Settled r) : isEnabled r id = true ↔ Active r id := by
  obtain ⟨enabled, hstatuses, henabled⟩ := h.statuses
  rw [← henabled, ← isEnabled_refreshed (r := r) fun hid => ((henabled id).1 hid).want, ← hstatuses]

theorem refresh_settled (h : Loadable r.manifests) :
    ∃ statuses, refresh r = .ok (r.withStatuses statuses) ∧ Settled (r.withStatuses statuses) := by
  have hpasses : Pruning.remaining ModuleManifest.id r.manifests (want r) < r.manifests.length + 1 :=
    Nat.lt_succ_of_le List.countP_le_length
  obtain ⟨enabled, hprune⟩ : ∃ enabled, Pruning.prune ModuleManifest.id ModuleManifest.dependencies r.manifests
      (r.manifests.length + 1) (want r) = some enabled := Option.isSome_iff_exists.1 (Pruning.prune_isSome hpasses)
  refine ⟨r.manifests.map (statusOf r enabled), ?_, h, enabled, rfl, fun id => Pruning.prune_iff hprune id⟩
  rw [refresh, hprune]

/-- What the status of a module says of it. -/
structure Explains (r : Registry) (m : ModuleManifest) (status : ModuleStatus) : Prop where
  enabled : status.enabled = true ↔ Active r m.id
  licensed : status.licensed = true ↔ r.license m.id = true
  active : status.state = .enabled ↔ Active r m.id
  missing : status.state = .missingDependency ↔ EnabledModules.want r m.id = true ∧ ¬ Active r m.id
  unlicensed : status.state = .licenseRequired ↔ r.license m.id = false
  disabled : status.state = .disabled ↔ r.license m.id = true ∧ (r.overrides m.id).getD m.enabledByDefault = false
  unmet : ∀ dep, dep ∈ status.unmetDependencies ↔ dep ∈ m.dependencies ∧ ¬ Active r dep
  named : status.state = .missingDependency → status.unmetDependencies ≠ []

theorem want_of_mem (h : Loadable r.manifests) (hm : m ∈ r.manifests) :
    want r m.id = (r.license m.id && (r.overrides m.id).getD m.enabledByDefault) := by
  rw [want, byId_eq_some h.unique hm]

theorem statusOf_explains (h : Loadable r.manifests) (henabled : ∀ id, enabled id = true ↔ Active r id)
    (hm : m ∈ r.manifests) : Explains r m (statusOf r enabled m) := by
  have hunmet : ∀ dep, dep ∈ (statusOf r enabled m).unmetDependencies ↔ dep ∈ m.dependencies ∧ ¬ Active r dep := by
    intro dep
    simp [statusOf, ← henabled]
  have hnone : (statusOf r enabled m).unmetDependencies = [] ↔ ∀ dep ∈ m.dependencies, Active r dep := by
    simp [List.eq_nil_iff_forall_not_mem, hunmet]
  have hactive := active_iff h.unique hm
  have hwant := want_of_mem h hm
  have hstate : (statusOf r enabled m).state = (stateOf r enabled m (statusOf r enabled m).unmetDependencies).1 := rfl
  rw [stateOf] at hstate
  by_cases hid : Active r m.id
  · have hlicensed := hid.want
    rw [hwant, Bool.and_eq_true] at hlicensed
    rw [if_pos ((henabled _).2 hid)] at hstate
    refine ⟨henabled _, Iff.rfl, ?_, ?_, ?_, ?_, hunmet, ?_⟩ <;> simp [hstate, hid, hlicensed]
  · have hdisabled : enabled m.id ≠ true := fun h => hid ((henabled _).1 h)
    rw [if_neg hdisabled] at hstate
    by_cases hw : want r m.id = true
    · have hmissing : (statusOf r enabled m).unmetDependencies ≠ [] := fun h => hid (hactive.2 ⟨hw, hnone.1 h⟩)
      have hlicensed := hw
      rw [hwant, Bool.and_eq_true] at hlicensed
      rw [if_pos (by simp [hw, hmissing])] at hstate
      refine ⟨henabled _, Iff.rfl, ?_, ?_, ?_, ?_, hunmet, fun _ => hmissing⟩ <;> simp [hstate, hid, hw, hlicensed]
    · rw [if_neg (by simp [hw])] at hstate
      have hor : r.license m.id = true → (r.overrides m.id).getD m.enabledByDefault = false := by
        intro hlicensed
        simpa [hwant, hlicensed] using hw
      split_ifs at hstate with hlicensed hoff
      · refine ⟨henabled _, Iff.rfl, ?_, ?_, ?_, ?_, hunmet, ?_⟩ <;> simp_all
      · refine ⟨henabled _, Iff.rfl, ?_, ?_, ?_, ?_, hunmet, ?_⟩ <;> simp_all
      · refine ⟨henabled _, Iff.rfl, ?_, ?_, ?_, ?_, hunmet, ?_⟩ <;> simp_all

/-- A refresh always ends. A module is enabled exactly when it and all it requires are wanted, and its
status says so, and why not. -/
theorem refresh_explains (h : Loadable r.manifests) : ∃ r', refresh r = .ok r' ∧
    (∀ id, isEnabled r' id = true ↔ Active r id) ∧
    ∀ m ∈ r.manifests, ∃ status, getStatus r' m.id = some status ∧ Explains r m status := by
  obtain ⟨statuses, hrefresh, hsettled⟩ := refresh_settled h
  obtain ⟨enabled, hstatuses, henabled⟩ := hsettled.statuses
  refine ⟨_, hrefresh, fun id => hsettled.isEnabled, fun m hm => ⟨statusOf r enabled m, ?_, ?_⟩⟩
  · have hrows : statuses = r.manifests.map (statusOf r enabled) := hstatuses
    rw [hrows, getStatus_refreshed, byId_eq_some h.unique hm]
    rfl
  · exact statusOf_explains h henabled hm

/-- The feeds, and the torrents they need. -/
def feeds : Registry where
  manifests := [⟨"torrents", "Torrents", true, true, []⟩, ⟨"rss", "RSS", false, true, ["torrents"]⟩]
  license := fun _ => true
  overrides := fun _ => none
  statuses := []

theorem feeds_loadable : Loadable feeds.manifests := by
  rcases load_loadable feeds.manifests with ⟨-, h⟩ | ⟨message, hload, -⟩
  · exact h
  · have hok : load feeds.manifests = .ok () := by decide +kernel
    rw [hok] at hload
    cases hload

theorem feeds_explained : ∃ r', refresh feeds = .ok r' ∧ (∀ id, isEnabled r' id = true ↔ Active feeds id) ∧
    ∀ m ∈ feeds.manifests, ∃ status, getStatus r' m.id = some status ∧ Explains feeds m status :=
  refresh_explains feeds_loadable

/-! ### What an operation does -/

variable {op : Operation} {ops : List Operation} {other : String} {b : Bool}

theorem refresh_eq_ok (hrefresh : refresh r = .ok r') (h : Loadable r.manifests) :
    Settled r' ∧ ∃ statuses, r' = r.withStatuses statuses := by
  obtain ⟨statuses, hok, hsettled⟩ := refresh_settled h
  rw [hok] at hrefresh
  cases hrefresh
  exact ⟨hsettled, statuses, rfl⟩

theorem getManifest_eq_ok (h : getManifest r id = .ok m) : byId r.manifests id = some m := by
  unfold getManifest at h
  cases hfind : byId r.manifests id with
  | none =>
    rw [hfind] at h
    cases h
  | some n =>
    rw [hfind] at h
    cases h
    rfl

/-- Accepted for a known module all of whose dependencies are enabled. -/
theorem enable_eq_ok (h : Settled r) (henable : enable r id = .ok r') :
    Settled r' ∧ (∃ m, byId r.manifests id = some m ∧ ∀ dep ∈ m.dependencies, Active r dep) ∧
      ∃ statuses, r' = (setState r id true).withStatuses statuses := by
  obtain ⟨m, hget, haccept⟩ := Outcome.bind_eq_ok.1 henable
  have hm := getManifest_eq_ok hget
  dsimp only at haccept
  split_ifs at haccept with hunmet
  obtain ⟨hsettled, statuses, rfl⟩ := refresh_eq_ok haccept h.loadable
  refine ⟨hsettled, ⟨m, hm, fun dep hdep => h.isEnabled.1 ?_⟩, statuses, rfl⟩
  by_contra hdisabled
  have hmem : dep ∈ m.dependencies.filter fun dep => !EnabledModules.isEnabled r dep :=
    List.mem_filter.2 ⟨hdep, by rw [Bool.eq_false_iff.2 hdisabled, Bool.not_false]⟩
  rw [not_not.1 hunmet] at hmem
  cases hmem

theorem disable_eq_ok (h : Settled r) (hdisable : disable r id = .ok r') :
    Settled r' ∧ (∃ m, byId r.manifests id = some m ∧ m.required = false) ∧
      (∀ other, Requires r.manifests other id → ¬ Active r other) ∧
      ∃ statuses, r' = (setState r id false).withStatuses statuses := by
  obtain ⟨m, hget, haccept⟩ := Outcome.bind_eq_ok.1 hdisable
  have hm := getManifest_eq_ok hget
  dsimp only at haccept
  split_ifs at haccept with hrequired hdependents
  obtain ⟨hsettled, statuses, rfl⟩ := refresh_eq_ok haccept h.loadable
  refine ⟨hsettled, ⟨m, hm, Bool.eq_false_iff.2 hrequired⟩, ?_, statuses, rfl⟩
  rintro _ ⟨n, hn, rfl, hid⟩ hactive
  have hmem : n ∈ r.manifests.filter fun x => x.dependencies.contains id && EnabledModules.isEnabled r x.id :=
    List.mem_filter.2 ⟨hn, by simp [hid, h.isEnabled.2 hactive]⟩
  rw [not_not.1 hdependents] at hmem
  cases hmem

theorem registerExternal_eq_ok (hregister : registerExternal r m = .ok r') :
    Settled r' ∧ Loadable (r.manifests ++ [m]) ∧
      ∃ statuses, r' = { r with manifests := r.manifests ++ [m], statuses := statuses } := by
  unfold registerExternal at hregister
  rcases load_loadable (r.manifests ++ [m]) with ⟨hload, hloadable⟩ | ⟨message, hload, -⟩
  · rw [hload] at hregister
    obtain ⟨hsettled, statuses, rfl⟩ := refresh_eq_ok hregister hloadable
    exact ⟨hsettled, hloadable, statuses, rfl⟩
  · rw [hload] at hregister
    cases hregister

theorem Active.mono (h : Active r id)
    (hwant : ∀ other, Reaches r.manifests id other → EnabledModules.want r other = true →
      EnabledModules.want r' other = true)
    (hreach : ∀ other, Reaches r'.manifests id other →
      Reaches r.manifests id other) : Active r' id :=
  fun other hpath => hwant other (hreach other hpath) (h other (hreach other hpath))

theorem want_setState_of_ne (hne : other ≠ id) : want (setState r id b) other = want r other := by
  rw [Bool.eq_iff_iff, want_iff, want_iff, setState]
  simp only [Function.update_of_ne hne]

theorem want_setState_self : want (setState r id b) id = true ↔
    (∃ m, byId r.manifests id = some m) ∧ r.license id = true ∧ b = true := by
  rw [want_iff, setState]
  simp only [Function.update_self, Option.getD_some]
  constructor
  · rintro ⟨m, hm, hlicense, hb⟩
    exact ⟨⟨m, hm⟩, hlicense, hb⟩
  · rintro ⟨⟨m, hm⟩, hlicense, hb⟩
    exact ⟨m, hm, hlicense, hb⟩

theorem want_setState_true (hwant : want r other = true) : want (setState r id true) other = true := by
  by_cases hother : other = id
  · subst hother
    obtain ⟨m, hm, hlicense, -⟩ := want_iff.1 hwant
    exact want_setState_self.2 ⟨⟨m, hm⟩, hlicense, rfl⟩
  · rwa [want_setState_of_ne hother]

theorem byId_append (h : byId r.manifests id = some m) (n : ModuleManifest) : byId (r.manifests ++ [n]) id = some m := by
  unfold byId at *
  rw [List.find?_append, h]
  rfl

theorem reach_append {n : ModuleManifest} (h : Loadable r.manifests) (hunique : ((r.manifests ++ [n]).map (·.id)).Nodup)
    (hid : id ∈ r.manifests.map (·.id)) (hpath : Reaches (r.manifests ++ [n]) id other) :
    Reaches r.manifests id other ∧ other ∈ r.manifests.map (·.id) := by
  induction hpath with
  | refl => exact ⟨.refl, hid⟩
  | tail _ hneeds ih =>
    obtain ⟨hreach, hmem⟩ := ih
    obtain ⟨m, hm, rfl, hdep⟩ := hneeds
    have hm : m ∈ r.manifests := by
      rcases List.mem_append.1 hm with hm | hm
      · exact hm
      · rw [List.mem_singleton.1 hm] at hmem
        rw [List.map_append, List.nodup_append] at hunique
        exact absurd rfl (hunique.2.2 _ hmem _ (List.mem_map_of_mem List.mem_cons_self))
    exact ⟨hreach.tail ⟨m, hm, rfl, hdep⟩, List.mem_map.2 (h.known m hm _ hdep)⟩

/-- A module goes out by being disabled, or with the licence for something it requires. -/
def Leaves (r : Registry) (op : Operation) (id : String) : Prop :=
  (op = .disable id ∧ ∃ m, byId r.manifests id = some m ∧ m.required = false) ∨
    ∃ provider, op = .setLicenseProvider provider ∧
      ∃ other, Reaches r.manifests id other ∧ provider other = false

/-- What is so of the modules of before after an operation that is accepted. -/
structure Kept (r r' : Registry) : Prop where
  settled : Settled r'
  byId : ∀ id m, byId r.manifests id = some m → Manifests.byId r'.manifests id = some m
  reach : ∀ id, id ∈ r.manifests.map (·.id) → ∀ other, Reaches r'.manifests id other ↔
    Reaches r.manifests id other

theorem Active.mem (h : Active r id) : ∃ m, byId r.manifests id = some m ∧ m ∈ r.manifests ∧ m.id = id := by
  obtain ⟨m, hm, -⟩ := want_iff.1 h.want
  exact ⟨m, hm, mem_of_byId hm⟩

theorem requires_mono {ms ns : List ModuleManifest} (h : ∀ m ∈ ms, m ∈ ns) {x y : String} (hneeds : Requires ms x y) :
    Requires ns x y := by
  obtain ⟨m, hm, hid, hdep⟩ := hneeds
  exact ⟨m, h m hm, hid, hdep⟩

theorem apply_kept (h : Settled r) (happly : apply r op = .ok r') : Kept r r' := by
  cases op with
  | enable id =>
    obtain ⟨hsettled, -, statuses, rfl⟩ := enable_eq_ok h happly
    exact ⟨hsettled, fun _ _ hm => hm, fun _ _ _ => Iff.rfl⟩
  | disable id =>
    obtain ⟨hsettled, -, -, statuses, rfl⟩ := disable_eq_ok h happly
    exact ⟨hsettled, fun _ _ hm => hm, fun _ _ _ => Iff.rfl⟩
  | registerExternal n =>
    obtain ⟨hsettled, hloadable, statuses, rfl⟩ := registerExternal_eq_ok happly
    refine ⟨hsettled, fun id m hm => byId_append hm n, fun id hid other => ?_⟩
    refine ⟨fun hpath => (reach_append h.loadable hloadable.unique hid hpath).1, fun hpath => ?_⟩
    exact hpath.lift (fun x => x) fun _ _ => requires_mono fun m hm => List.mem_append_left _ hm
  | setLicenseProvider provider =>
    obtain ⟨hsettled, statuses, rfl⟩ := refresh_eq_ok happly h.loadable
    exact ⟨hsettled, fun _ _ hm => hm, fun _ _ _ => Iff.rfl⟩

/-- Whatever is active before an operation is active after it, but for what goes out by it. -/
theorem apply_active (h : Settled r) (hid : Active r id) (happly : apply r op = .ok r') :
    Active r' id ∨ Leaves r op id := by
  have hkept := apply_kept h happly
  obtain ⟨m, hm, hmem, hmid⟩ := hid.mem
  have hreach := fun other => (hkept.reach id (List.mem_map.2 ⟨m, hmem, hmid⟩) other).1
  cases op with
  | enable target =>
    obtain ⟨-, -, statuses, rfl⟩ := enable_eq_ok h happly
    exact .inl (hid.mono (fun other _ hwant => want_setState_true hwant) hreach)
  | disable target =>
    obtain ⟨-, hnot, hdependents, statuses, rfl⟩ := disable_eq_ok h happly
    by_cases htarget : id = target
    · exact .inr (.inl ⟨by rw [htarget], htarget ▸ hnot⟩)
    · refine .inl (hid.mono (fun other hpath hwant => (want_setState_of_ne ?_).trans hwant) hreach)
      rintro rfl
      rcases hpath.cases_tail with heq | ⟨last, hpath, hneeds⟩
      · exact htarget heq.symm
      · exact hdependents last hneeds fun other htail => hid other (hpath.trans htail)
  | registerExternal n =>
    obtain ⟨-, hloadable, statuses, rfl⟩ := registerExternal_eq_ok happly
    refine .inl (hid.mono (fun other hpath hwant => ?_) hreach)
    obtain ⟨k, hk, hlicense, hdesired⟩ := want_iff.1 hwant
    exact want_iff.2 ⟨k, hkept.byId other k hk, hlicense, hdesired⟩
  | setLicenseProvider provider =>
    obtain ⟨-, statuses, rfl⟩ := refresh_eq_ok happly h.loadable
    by_cases hall : ∀ other, Reaches r.manifests id other → provider other = true
    · refine .inl (hid.mono (fun other hpath hwant => ?_) hreach)
      obtain ⟨k, hk, -, hdesired⟩ := want_iff.1 hwant
      exact want_iff.2 ⟨k, hk, hall other hpath, hdesired⟩
    · push Not at hall
      obtain ⟨other, hpath, hother⟩ := hall
      exact .inr (.inr ⟨provider, rfl, other, hpath, Bool.eq_false_iff.2 hother⟩)

/-! ### Runs -/

/-- An accepted disable takes out that module alone; an accepted enable takes none out, brings the module
on if the licence has it, and besides it only modules that waited for it. -/
theorem accepted_isEnabled (h : Settled r) :
    (∀ r', disable r id = .ok r' → ∀ other, isEnabled r' other = true ↔ isEnabled r other = true ∧ other ≠ id) ∧
    ∀ r', enable r id = .ok r' → isEnabled r' id = r.license id ∧ ∀ other,
      (isEnabled r other = true → isEnabled r' other = true) ∧
      (isEnabled r' other = true → isEnabled r other = true ∨ Reaches r.manifests other id) := by
  refine ⟨fun r' hdisable other => ?_, fun r' henable => ?_⟩
  · obtain ⟨hsettled, -, -, statuses, rfl⟩ := disable_eq_ok h hdisable
    rw [hsettled.isEnabled, h.isEnabled]
    constructor
    · intro hactive
      have hne : ∀ x, Reaches r.manifests other x → x ≠ id := by
        intro x hpath hx
        have hwant : want (setState r id false) id = true := hx ▸ hactive x hpath
        exact absurd (want_setState_self.1 hwant).2.2 Bool.false_ne_true
      refine ⟨fun x hpath => ?_, hne other .refl⟩
      rw [← want_setState_of_ne (b := false) (hne x hpath)]
      exact hactive x hpath
    · rintro ⟨hactive, hne⟩
      have hdisable : apply r (.disable id) = .ok ((setState r id false).withStatuses statuses) := hdisable
      rcases apply_active h hactive hdisable with hactive | ⟨heq, -⟩ | ⟨provider, heq, -⟩
      · exact hactive
      · cases heq
        exact absurd rfl hne
      · cases heq
  · obtain ⟨hsettled, ⟨m, hm, hdeps⟩, statuses, rfl⟩ := enable_eq_ok h henable
    refine ⟨?_, fun other => ⟨fun hother => ?_, fun hother => ?_⟩⟩
    · rw [Bool.eq_iff_iff, hsettled.isEnabled]
      refine ⟨fun hactive => (want_setState_self.1 hactive.want).2.1, fun hlicense other hpath => ?_⟩
      rcases hpath.cases_head with rfl | ⟨dep, ⟨n, hn, rfl, hdep⟩, hpath⟩
      · exact want_setState_self.2 ⟨⟨m, hm⟩, hlicense, rfl⟩
      · rw [byId_eq_some h.loadable.unique hn] at hm
        cases hm
        exact want_setState_true (hdeps dep hdep other hpath)
    · rw [h.isEnabled] at hother
      rw [hsettled.isEnabled]
      exact hother.mono (fun _ _ hwant => want_setState_true hwant) fun _ hpath => hpath
    · rw [hsettled.isEnabled] at hother
      rw [h.isEnabled]
      by_cases hreach : Reaches r.manifests other id
      · exact .inr hreach
      · refine .inl fun x hpath => ?_
        have hne : x ≠ id := fun hx => hreach (hx ▸ hpath)
        rw [← want_setState_of_ne (b := true) hne]
        exact hother x hpath

theorem feeds_accepted : ∃ r, refresh feeds = .ok r ∧
    (∀ r', disable r "rss" = .ok r' → ∀ other, isEnabled r' other = true ↔ isEnabled r other = true ∧ other ≠ "rss") ∧
    ∀ r', enable r "rss" = .ok r' → isEnabled r' "rss" = r.license "rss" ∧ ∀ other,
      (isEnabled r other = true → isEnabled r' other = true) ∧
      (isEnabled r' other = true → isEnabled r other = true ∨ Reaches r.manifests other "rss") := by
  obtain ⟨statuses, hrefresh, hsettled⟩ := refresh_settled feeds_loadable
  exact ⟨_, hrefresh, accepted_isEnabled hsettled⟩

/-- A module is disabled, which a required one cannot be, or a provider is set that withholds something it requires. -/
def TakenOut (r : Registry) (ops : List Operation) (id : String) : Prop :=
  (.disable id ∈ ops ∧ ∃ m, byId r.manifests id = some m ∧ m.required = false) ∨
    ∃ provider, .setLicenseProvider provider ∈ ops ∧ ∃ other, Reaches r.manifests id other ∧ provider other = false

theorem TakenOut.cons (op : Operation) (h : TakenOut r ops id) : TakenOut r (op :: ops) id :=
  h.imp (fun h => ⟨List.mem_cons_of_mem op h.1, h.2⟩) fun ⟨provider, hmem, hother⟩ =>
    ⟨provider, List.mem_cons_of_mem op hmem, hother⟩

/-- A module that is enabled stays so, whatever is done to the others, until it is taken out. -/
theorem run_isEnabled (h : Settled r) (hbefore : isEnabled r id = true) (hafter : isEnabled (run r ops) id = false) :
    TakenOut r ops id := by
  induction ops generalizing r with
  | nil =>
    rw [run, hbefore] at hafter
    cases hafter
  | cons op ops ih =>
    rw [run] at hafter
    cases happly : apply r op with
    | timeout | thrown =>
      rw [happly] at hafter
      exact (ih h hbefore hafter).cons op
    | ok r' =>
      rw [happly] at hafter
      have hkept := apply_kept h happly
      obtain ⟨m, hm, hmem, hmid⟩ := (h.isEnabled.1 hbefore).mem
      rcases apply_active h (h.isEnabled.1 hbefore) happly with hactive | ⟨rfl, hm⟩ | ⟨provider, rfl, hother⟩
      · refine TakenOut.cons op ?_
        rcases ih hkept.settled (hkept.settled.isEnabled.2 hactive) hafter with ⟨hop, n, hn, hrequired⟩ | ⟨provider, hop, hother⟩
        · rw [hkept.byId id m hm] at hn
          cases hn
          exact .inl ⟨hop, m, hm, hrequired⟩
        · simp only [hkept.reach id (List.mem_map.2 ⟨m, hmem, hmid⟩)] at hother
          exact .inr ⟨provider, hop, hother⟩
      · exact .inl ⟨List.mem_cons_self, hm⟩
      · exact .inr ⟨provider, List.mem_cons_self, hother⟩

theorem feeds_disabled : ∃ r, isEnabled r "rss" = true ∧ isEnabled (run r [.disable "rss"]) "rss" = false ∧
    TakenOut r [.disable "rss"] "rss" := by
  obtain ⟨statuses, hrefresh, hsettled⟩ := refresh_settled feeds_loadable
  have hcomputed : (match refresh feeds with
      | .ok r => (isEnabled r "rss", isEnabled (run r [.disable "rss"]) "rss")
      | _ => (false, true)) = (true, false) := by decide +kernel
  rw [hrefresh] at hcomputed
  obtain ⟨hbefore, hafter⟩ := Prod.mk.inj hcomputed
  exact ⟨_, hbefore, hafter, run_isEnabled hsettled hbefore hafter⟩

end UltraTorrent.ModuleRegistry.EnabledModules
