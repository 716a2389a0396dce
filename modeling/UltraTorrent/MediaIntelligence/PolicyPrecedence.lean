import Mathlib.Data.Fintype.EquivFin
import UltraTorrent.Library.Collation
import UltraTorrent.Remediation.PlanBuilder

/-! How overlapping policies are resolved into one intent, dimension by dimension, and what a plan
makes of it. A policy that sets no dimension leaves the resolution as it is, but it is listed among
the applicable ones, and the fingerprint of a plan and the policy it names are taken from that list. -/
namespace UltraTorrent.MediaIntelligence.PolicyPrecedence

open Library Library.EcmaScript Library.Collation
open Remediation.PlanBuilder (DesiredState Hashing desiredStateFingerprint sorted stringify stringifyElements)

inductive ScopeType where
  | global
  | mediaKind
  | library
  | series
  | movie
  deriving DecidableEq

/-- `LIFECYCLE_SCOPE_PRECEDENCE`: the most specific scope first. -/
def scopePrecedence : List ScopeType := [.movie, .series, .library, .mediaKind, .global]

def rank (scopeType : ScopeType) : ℕ := scopePrecedence.idxOf scopeType

inductive PolicyMode where
  | recommendOnly
  | approvalRequired
  deriving DecidableEq

def PolicyMode.text : PolicyMode → String
  | .recommendOnly => "recommend_only"
  | .approvalRequired => "approval_required"

structure AcquisitionIntent where
  searchMissing : Option Bool := none
  searchUpgrades : Option Bool := none
  deriving DecidableEq

structure Policy where
  id : String
  name : String
  enabled : Bool
  scopeType : ScopeType
  scopeId : Option String
  mode : PolicyMode
  quality : Option String := none
  completeness : Option String := none
  subtitleLanguages : Option (List String) := none
  acquisition : Option AcquisitionIntent := none
  deriving DecidableEq

/-- What an entity is, for deciding which scopes reach it. -/
structure MatchContext where
  entityType : String
  entityId : String
  libraryId : Option String := none
  mediaKind : Option String := none
  /-- The show an episode or a season belongs to. -/
  showId : Option String := none
  deriving DecidableEq

def isNamed (name : Option String) : Bool := name.getD "" ≠ ""

def policyApplies (policy : Policy) (ctx : MatchContext) : Bool :=
  match policy.scopeType with
  | .global => true
  | .library => isNamed ctx.libraryId && policy.scopeId = ctx.libraryId
  | .mediaKind => isNamed ctx.mediaKind && policy.scopeId = ctx.mediaKind
  | .series => ctx.entityType = "series" && policy.scopeId = some ctx.entityId ||
      isNamed ctx.showId && policy.scopeId = ctx.showId
  | .movie => ctx.entityType = "movie" && policy.scopeId = some ctx.entityId

/-! ### Resolving -/

structure DimensionSource where
  policyId : String
  policyName : String
  scopeType : ScopeType
  deriving DecidableEq

def sourceOf (policy : Policy) : DimensionSource := ⟨policy.id, policy.name, policy.scopeType⟩

structure Dimension (α : Type) where
  value : Option α := none
  source : Option DimensionSource := none
  inherited : Bool := false
  overridden : List (DimensionSource × Option α) := []

structure Contender where
  policyId : String
  policyName : String
  value : Value

structure Conflict where
  dimension : String
  scopeType : ScopeType
  contenders : List Contender

structure ResolvedDesiredState where
  entityType : String
  entityId : String
  quality : Dimension String
  completeness : Dimension String
  subtitleLanguages : Dimension (List String)
  acquisition : Dimension AcquisitionIntent
  mode : Option PolicyMode
  /-- The most specific first. -/
  applicablePolicies : List DimensionSource
  conflicts : List Conflict
  evaluatedAt : String

section

variable (rt : Runtime)

def stringsValue (texts : List String) : Value := .array (texts.map .string)

def acquisitionValue (intent : AcquisitionIntent) : Value :=
  let field (name : String) (flag : Option Bool) := flag.toList.map fun flag => (name, Value.bool flag)
  .object (field "searchMissing" intent.searchMissing ++ field "searchUpgrades" intent.searchUpgrades)

section Dimension

variable {α : Type} (get : Policy → Option α) (json : α → Value)

def valueOf (p : Policy) : Value := ((get p).map json).getD .null

/-- Policies of the winner's scope that set the dimension to another value. -/
def rivals (winner : Policy) (setters : List Policy) : List Policy :=
  setters.filter fun p => p.scopeType = winner.scopeType && p.id ≠ winner.id &&
    rt.jsonStringify (valueOf get json p) ≠ rt.jsonStringify (valueOf get json winner)

/-- What the policies that set a dimension make of it. -/
def settle (dim : String) (narrowest : ℕ) : List Policy → Dimension α × List Conflict
  | [] => ({}, [])
  | winner :: losers =>
    let setters := winner :: losers
    let contender (p : Policy) : Contender := ⟨p.id, p.name, valueOf get json p⟩
    ({ value := get winner
       source := some (sourceOf winner)
       inherited := narrowest < rank winner.scopeType
       overridden := (setters.filter fun p => p.id ≠ winner.id).map fun p => (sourceOf p, get p) },
      if rivals rt get json winner setters = [] then []
      else [{ dimension := dim, scopeType := winner.scopeType,
              contenders := (winner :: rivals rt get json winner setters).map contender }])

/-- The most specific scope that any applicable policy occupies. -/
def narrowest : List Policy → ℕ
  | [] => scopePrecedence.length
  | p :: _ => rank p.scopeType

def resolveDimension (dim : String) (ordered : List Policy) : Dimension α × List Conflict :=
  settle rt get json dim (narrowest ordered) (ordered.filter fun p => (get p).isSome)

end Dimension

/-- The strictest mode among the policies that supply a dimension. -/
def strictestMode (ordered : List Policy) (sources : List (Option DimensionSource)) : Option PolicyMode :=
  let contributing := (sources.filterMap fun source => source.map (·.policyId)).filter (· ≠ "")
  let modes := (ordered.filter fun p => contributing.contains p.id).map (·.mode)
  if modes = [] then none
  else if modes.contains .approvalRequired then some .approvalRequired
  else some .recommendOnly

def applicable (policies : List Policy) (ctx : MatchContext) : List Policy :=
  policies.filter fun p => p.enabled && policyApplies p ctx

def orderedPolicies (policies : List Policy) (ctx : MatchContext) : List Policy :=
  ranked rt.localeCompare (fun p => rank p.scopeType) Policy.id (applicable policies ctx)

def resolveOrdered (ordered : List Policy) (ctx : MatchContext) (now : Instant) : ResolvedDesiredState :=
  let quality := resolveDimension rt Policy.quality Value.string "quality" ordered
  let completeness := resolveDimension rt Policy.completeness Value.string "completeness" ordered
  let subtitleLanguages :=
    resolveDimension rt Policy.subtitleLanguages stringsValue "subtitleLanguages" ordered
  let acquisition := resolveDimension rt Policy.acquisition acquisitionValue "acquisition" ordered
  { entityType := ctx.entityType
    entityId := ctx.entityId
    quality := quality.1
    completeness := completeness.1
    subtitleLanguages := subtitleLanguages.1
    acquisition := acquisition.1
    mode := strictestMode ordered
      [quality.1.source, completeness.1.source, subtitleLanguages.1.source, acquisition.1.source]
    applicablePolicies := ordered.map sourceOf
    conflicts := quality.2 ++ completeness.2 ++ subtitleLanguages.2 ++ acquisition.2
    evaluatedAt := rt.toISOString now }

def resolveDesiredState (policies : List Policy) (ctx : MatchContext) (now : Instant) :
    ResolvedDesiredState :=
  resolveOrdered rt (orderedPolicies rt policies ctx) ctx now

end

/-! ### What a plan makes of it -/

/-- What the fingerprint reads of a resolved state. -/
def toDesiredInput (desired : ResolvedDesiredState) : DesiredState where
  quality := desired.quality.value
  completeness := desired.completeness.value
  subtitleLanguages := desired.subtitleLanguages.value
  mode := desired.mode.map PolicyMode.text
  applicablePolicies := desired.applicablePolicies.map (·.policyId)
  conflicts := desired.conflicts.map (·.dimension)

def fingerprint {H : Type} (hashing : Hashing H) (desired : ResolvedDesiredState) : H :=
  desiredStateFingerprint hashing desired.entityType desired.entityId (toDesiredInput desired)

/-- The policy that a plan names as its origin. -/
def policyBehind (desired : ResolvedDesiredState) : Option String :=
  desired.applicablePolicies.head?.map (·.policyId)

/-! ### What a policy that decides nothing changes -/

/-- None of the four dimensions is set. -/
structure Policy.SetsNothing (p : Policy) : Prop where
  quality : p.quality = none
  completeness : p.completeness = none
  subtitleLanguages : p.subtitleLanguages = none
  acquisition : p.acquisition = none

/-- Two dimensions have one value from one source. -/
def Dimension.Agrees {α : Type} (d d' : Dimension α) : Prop := d.value = d'.value ∧ d.source = d'.source

/-- Two resolutions have the same values, sources, conflicts and mode. -/
structure Agree (s s' : ResolvedDesiredState) : Prop where
  quality : s.quality.Agrees s'.quality
  completeness : s.completeness.Agrees s'.completeness
  subtitleLanguages : s.subtitleLanguages.Agrees s'.subtitleLanguages
  acquisition : s.acquisition.Agrees s'.acquisition
  conflicts : s.conflicts = s'.conflicts
  mode : s.mode = s'.mode

theorem Agree.rfl {s : ResolvedDesiredState} : Agree s s := by
  constructor <;> first | exact ⟨Eq.refl _, Eq.refl _⟩ | exact Eq.refl _

section

variable {rt : Runtime} {α : Type} {get : Policy → Option α} {json : α → Value} {dim : String}
  {ordered ordered' : List Policy}

/-- What is resolved is a matter of the policies that set the dimension. -/
theorem resolveDimension_agrees (rt : Runtime) (json : α → Value) (dim : String)
    (h : (ordered'.filter fun p => (get p).isSome) = ordered.filter fun p => (get p).isSome) :
    (resolveDimension rt get json dim ordered').1.Agrees (resolveDimension rt get json dim ordered).1 ∧
      (resolveDimension rt get json dim ordered').2 = (resolveDimension rt get json dim ordered).2 := by
  unfold resolveDimension
  rw [h]
  cases ordered.filter fun p => (get p).isSome with
  | nil => exact ⟨⟨rfl, rfl⟩, rfl⟩
  | cons winner losers => exact ⟨⟨rfl, rfl⟩, rfl⟩

theorem source_mem {source : DimensionSource}
    (h : (resolveDimension rt get json dim ordered).1.source = some source) :
    source.policyId ∈ ordered.map Policy.id := by
  unfold resolveDimension at h
  cases hsetters : ordered.filter fun p => (get p).isSome with
  | nil =>
    rw [hsetters] at h
    cases h
  | cons winner losers =>
    rw [hsetters] at h
    obtain rfl := Option.some.inj h
    have hmem : winner ∈ ordered.filter fun p => (get p).isSome := hsetters ▸ List.mem_cons_self
    exact List.mem_map_of_mem (List.mem_filter.1 hmem).1

theorem strictestMode_eq {sources : List (Option DimensionSource)}
    (h : ∀ q : Policy → Bool, (∀ p, q p → ∃ source, some source ∈ sources ∧ source.policyId = p.id) →
      ordered'.filter q = ordered.filter q) : strictestMode ordered' sources = strictestMode ordered sources := by
  unfold strictestMode
  dsimp only
  rw [h]
  intro p hp
  rw [List.contains_iff_mem, List.mem_filter, List.mem_filterMap] at hp
  obtain ⟨⟨source, hsource, hid⟩, -⟩ := hp
  obtain ⟨source, rfl, hid⟩ := Option.map_eq_some_iff.1 hid
  exact ⟨source, hsource, Option.some.inj hid⟩

theorem resolveOrdered_agree {id : String} (hordered : ordered'.filter (fun p => p.id ≠ id) = ordered)
    (hnothing : ∀ p ∈ ordered', p.id = id → p.SetsNothing) (ctx : MatchContext) (now : Instant) :
    Agree (resolveOrdered rt ordered' ctx now) (resolveOrdered rt ordered ctx now) := by
  have hfilter : ∀ q : Policy → Bool, (∀ p ∈ ordered', q p → p.id ≠ id) →
      ordered'.filter q = ordered.filter q := by
    intro q hq
    rw [← hordered, List.filter_filter]
    refine List.filter_congr fun p hp => ?_
    by_cases hset : q p = true
    · simp [hset, hq p hp hset]
    · simp [hset]
  have hset : ∀ {β : Type} (get : Policy → Option β), (∀ p : Policy, p.SetsNothing → get p = none) →
      (ordered'.filter fun p => (get p).isSome) = ordered.filter fun p => (get p).isSome := by
    intro β get hget
    refine hfilter _ fun p hp hsome heq => ?_
    rw [hget p (hnothing p hp heq)] at hsome
    cases hsome
  have hquality := resolveDimension_agrees rt Value.string "quality"
    (hset Policy.quality fun _ h => h.quality)
  have hcompleteness := resolveDimension_agrees rt Value.string "completeness"
    (hset Policy.completeness fun _ h => h.completeness)
  have hlanguages := resolveDimension_agrees rt stringsValue "subtitleLanguages"
    (hset Policy.subtitleLanguages fun _ h => h.subtitleLanguages)
  have hacquisition := resolveDimension_agrees rt acquisitionValue "acquisition"
    (hset Policy.acquisition fun _ h => h.acquisition)
  refine ⟨hquality.1, hcompleteness.1, hlanguages.1, hacquisition.1, ?_, ?_⟩
  · simp only [resolveOrdered, hquality.2, hcompleteness.2, hlanguages.2, hacquisition.2]
  · unfold resolveOrdered
    dsimp only
    rw [hquality.1.2, hcompleteness.1.2, hlanguages.1.2, hacquisition.1.2]
    refine strictestMode_eq fun q hq => hfilter q fun p _ hp hid => ?_
    -- a dimension comes from a policy that sets it, and so under another id
    have hother : ∀ policyId ∈ ordered.map Policy.id, policyId ≠ id := by
      intro policyId hmem
      obtain ⟨r, hr, rfl⟩ := List.mem_map.1 hmem
      rw [← hordered, List.mem_filter] at hr
      exact of_decide_eq_true hr.2
    obtain ⟨source, hsource, heq⟩ := hq p hp
    refine hother source.policyId ?_ (heq.trans hid)
    simp only [List.mem_cons, List.not_mem_nil, or_false] at hsource
    rcases hsource with h | h | h | h <;> exact source_mem h.symm

end

/-! ### The order of the list -/

section

variable {rt : Runtime} {policies : List Policy} {ctx : MatchContext}

theorem map_applicable_sublist (policies : List Policy) (ctx : MatchContext) :
    ((applicable policies ctx).map Policy.id).Sublist (policies.map Policy.id) :=
  List.filter_sublist.map _

theorem orderedPolicies_of_perm (hcollates : Collates rt.localeCompare (policies.map Policy.id))
    (hnodup : (policies.map Policy.id).Nodup) {listed : List Policy} (hperm : listed.Perm policies) :
    orderedPolicies rt listed ctx = orderedPolicies rt policies ctx :=
  ranked_eq_of_perm (hcollates.subset (map_applicable_sublist policies ctx).subset)
    (hnodup.sublist (map_applicable_sublist policies ctx)) (hperm.filter _)

theorem orderedPolicies_added {e : Policy} {front back : List Policy}
    (hcollates : Collates rt.localeCompare ((front ++ back).map Policy.id))
    (hnodup : ((front ++ back).map Policy.id).Nodup) (hfresh : e.id ∉ (front ++ back).map Policy.id) :
    (orderedPolicies rt (front ++ e :: back) ctx).filter (fun p => p.id ≠ e.id) =
      orderedPolicies rt (front ++ back) ctx := by
  have hfilter : (applicable (front ++ e :: back) ctx).filter (fun p => p.id ≠ e.id) =
      applicable (front ++ back) ctx := by
    have hkeep : ∀ l : List Policy, e.id ∉ l.map Policy.id →
        (applicable l ctx).filter (fun p => p.id ≠ e.id) = applicable l ctx := by
      intro l hl
      refine List.filter_eq_self.2 fun p hp => decide_eq_true fun hid => hl ?_
      exact hid ▸ List.mem_map_of_mem (List.mem_filter.1 hp).1
    rw [List.map_append, List.mem_append, not_or] at hfresh
    have happend : ∀ l l' : List Policy, applicable (l ++ l') ctx = applicable l ctx ++ applicable l' ctx :=
      fun l l' => List.filter_append ..
    rw [happend, happend, List.filter_append, hkeep front hfresh.1, ← List.singleton_append, happend,
      List.filter_append, hkeep back hfresh.2]
    have hnone : (applicable [e] ctx).filter (fun p => p.id ≠ e.id) = [] := by
      refine List.filter_eq_nil_iff.2 fun p hp => ?_
      rw [List.mem_singleton.1 (List.mem_filter.1 hp).1]
      simp
    rw [hnone, List.nil_append]
  have hsub := map_applicable_sublist (front ++ back) ctx
  rw [← hfilter] at hsub
  have hranked : (orderedPolicies rt (front ++ e :: back) ctx).filter (fun p => p.id ≠ e.id) = _ :=
    filter_ranked hcollates (hcollates.subset hsub.subset) (hnodup.sublist hsub)
  rw [hfilter] at hranked
  exact hranked

end

/-! ### The fingerprint -/

section

variable {H : Type} {hashing : Hashing H} {rt : Runtime}

theorem stringifyElements_strings (texts : List String) :
    stringifyElements rt (texts.map Value.string) = texts := by
  induction texts with
  | nil => rfl
  | cons text texts ih => simp [stringifyElements, stringify, Runtime.string, ih]

theorem length_intercalate {texts : List String} (h : texts ≠ []) :
    (",".intercalate texts).length + 1 = (texts.map fun text => text.length + 1).sum := by
  induction texts with
  | nil => exact absurd rfl h
  | cons text texts ih =>
    cases texts with
    | nil => simp
    | cons next texts =>
      have ih := ih (List.cons_ne_nil next texts)
      have hcomma : ",".length = 1 := rfl
      rw [String.intercalate_cons_cons, String.length_append, String.length_append, List.map_cons,
        List.sum_cons, ← ih, hcomma]
      omega

theorem eq_nil_of_length_joined {ids ids' : List String} {id : String} (hperm : ids'.Perm (id :: ids))
    (h : (",".intercalate (sorted ids')).length = (",".intercalate (sorted ids)).length) : ids = [] := by
  by_contra hids
  have hsum : ∀ l : List String, ((sorted l).map fun text => text.length + 1).sum =
      (l.map fun text => text.length + 1).sum := fun l =>
    ((List.perm_insertionSort (· ≤ ·) l).map _).sum_eq
  have hne : ∀ l : List String, l ≠ [] → sorted l ≠ [] := fun l hl hnil => hl <| by
    have hperm := List.perm_insertionSort (· ≤ ·) l
    rw [show l.insertionSort (· ≤ ·) = [] from hnil] at hperm
    exact List.Perm.eq_nil hperm.symm
  have hnil' : ids' ≠ [] := fun hnil => by
    rw [hnil] at hperm
    exact absurd hperm.length_eq nofun
  have hlength := length_intercalate (hne ids hids)
  have hlength' := length_intercalate (hne ids' hnil')
  rw [hsum] at hlength hlength'
  have hperm := (hperm.map fun text => text.length + 1).sum_eq
  rw [List.map_cons, List.sum_cons] at hperm
  omega

theorem length_of_fingerprint (hsha : Function.Injective hashing.sha256) {entityType entityId : String}
    {desired : DesiredState} {ids ids' : List String}
    (h : desiredStateFingerprint hashing entityType entityId { desired with applicablePolicies := ids' } =
      desiredStateFingerprint hashing entityType entityId { desired with applicablePolicies := ids }) :
    (",".intercalate (sorted ids')).length = (",".intercalate (sorted ids)).length := by
  have htext := congrArg String.length (hsha h)
  simp only [String.intercalate_cons_cons, String.intercalate_singleton, String.length_append, stringify,
    stringifyElements_strings] at htext
  omega

end

/-! ### Policies that decide nothing -/

/-- A list with one policy more, which is enabled, reaches the entity and sets nothing. -/
structure AddsNothing (policies : List Policy) (ctx : MatchContext) (listed : List Policy) (e : Policy) : Prop where
  listed : ∃ front back, front ++ back = policies ∧ front ++ e :: back = listed
  enabled : e.enabled = true
  applies : policyApplies e ctx = true
  setsNothing : e.SetsNothing
  fresh : e.id ∉ policies.map Policy.id

/-- The order of the policies changes nothing, and neither does a policy that decides nothing. -/
structure Inert {H : Type} (hashing : Hashing H) (policies : List Policy) (ctx : MatchContext) (now : Instant) :
    Prop where
  permuted : ∀ listed : List Policy, listed.Perm policies →
    Agree (resolveDesiredState hashing.rt listed ctx now) (resolveDesiredState hashing.rt policies ctx now)
  added : ∀ listed e, AddsNothing policies ctx listed e →
    Agree (resolveDesiredState hashing.rt listed ctx now) (resolveDesiredState hashing.rt policies ctx now) ∧
      fingerprint hashing (resolveDesiredState hashing.rt listed ctx now) =
        fingerprint hashing (resolveDesiredState hashing.rt policies ctx now) ∧
      policyBehind (resolveDesiredState hashing.rt listed ctx now) =
        policyBehind (resolveDesiredState hashing.rt policies ctx now)

section

variable {H : Type} {hashing : Hashing H} {ordered ordered' : List Policy} {ctx : MatchContext} {now : Instant}
  {rt : Runtime}

/-- The fingerprint of a plan or the policy that the plan names tells of every policy that is added. -/
theorem fingerprint_or_origin {e : Policy} (hsha : Function.Injective hashing.sha256)
    (hagree : Agree (resolveOrdered rt ordered' ctx now) (resolveOrdered rt ordered ctx now))
    (hperm : ordered'.Perm (e :: ordered))
    (hfingerprint : fingerprint hashing (resolveOrdered rt ordered' ctx now) =
      fingerprint hashing (resolveOrdered rt ordered ctx now)) :
    policyBehind (resolveOrdered rt ordered' ctx now) ≠ policyBehind (resolveOrdered rt ordered ctx now) := by
  have hids : ∀ l, (toDesiredInput (resolveOrdered rt l ctx now)).applicablePolicies = l.map Policy.id :=
    fun l => List.map_map
  have hinput : toDesiredInput (resolveOrdered rt ordered' ctx now) =
      { toDesiredInput (resolveOrdered rt ordered ctx now) with
        applicablePolicies := ordered'.map Policy.id } := by
    rw [← hids]
    simp only [toDesiredInput, hagree.quality.1, hagree.completeness.1, hagree.subtitleLanguages.1,
      hagree.conflicts, hagree.mode]
  have hsame : toDesiredInput (resolveOrdered rt ordered ctx now) =
      { toDesiredInput (resolveOrdered rt ordered ctx now) with
        applicablePolicies := ordered.map Policy.id } := by
    rw [← hids]
  unfold fingerprint at hfingerprint
  rw [hinput, hsame] at hfingerprint
  have hlength := length_of_fingerprint hsha hfingerprint
  have hnone : ordered = [] :=
    List.map_eq_nil_iff.1 (eq_nil_of_length_joined (hperm.map Policy.id) hlength)
  subst hnone
  rw [List.perm_singleton.1 hperm]
  exact Option.some_ne_none _

end

section

variable {policies listed : List Policy} {ctx : MatchContext} {e : Policy} {rt : Runtime}

theorem orderedPolicies_perm_cons (h : AddsNothing policies ctx listed e) :
    (orderedPolicies rt listed ctx).Perm (e :: orderedPolicies rt policies ctx) := by
  obtain ⟨front, back, rfl, rfl⟩ := h.listed
  have hcons : applicable (e :: (front ++ back)) ctx = e :: applicable (front ++ back) ctx :=
    List.filter_cons_of_pos (by simp [h.enabled, h.applies])
  have hmiddle : (applicable (front ++ e :: back) ctx).Perm (e :: applicable (front ++ back) ctx) :=
    hcons ▸ List.perm_middle.filter _
  exact (ranked_perm _).trans (hmiddle.trans ((ranked_perm _).symm.cons e))

theorem AddsNothing.setsNothing_of_id (h : AddsNothing policies ctx listed e) {p : Policy}
    (hp : p ∈ orderedPolicies rt listed ctx) (hid : p.id = e.id) : p.SetsNothing := by
  obtain ⟨front, back, rfl, rfl⟩ := h.listed
  have hmem := (List.mem_filter.1 (mem_ranked.1 hp)).1
  rw [List.perm_middle.mem_iff, List.mem_cons] at hmem
  obtain rfl | hmem := hmem
  · exact h.setsNothing
  · exact absurd (List.mem_map_of_mem (f := Policy.id) hmem) (hid ▸ h.fresh)

theorem exists_addsNothing (policies : List Policy) (ctx : MatchContext) :
    ∃ listed e, AddsNothing policies ctx listed e := by
  obtain ⟨id, hid⟩ := Infinite.exists_notMem_finset (policies.map Policy.id).toFinset
  rw [List.mem_toFinset] at hid
  exact ⟨_, { id, name := "Everything", enabled := true, scopeType := .global, scopeId := none,
              mode := .recommendOnly }, ⟨[], policies, rfl, rfl⟩, rfl, rfl, ⟨rfl, rfl, rfl, rfl⟩, hid⟩

end

/-- The order of the list changes nothing, and a policy that sets nothing changes neither values nor
sources, conflicts or mode; but whatever the list, adding one changes the fingerprint of a plan or the
policy that the plan names. -/
theorem not_inert {H : Type} (hashing : Hashing H) (policies : List Policy) (ctx : MatchContext) (now : Instant)
    (hsha : Function.Injective hashing.sha256)
    (hcollates : Collates hashing.rt.localeCompare (policies.map Policy.id))
    (hnodup : (policies.map Policy.id).Nodup) :
    ¬ Inert hashing policies ctx now ∧
    (∀ listed : List Policy, listed.Perm policies →
      Agree (resolveDesiredState hashing.rt listed ctx now) (resolveDesiredState hashing.rt policies ctx now)) ∧
    ∀ listed e, AddsNothing policies ctx listed e →
      Agree (resolveDesiredState hashing.rt listed ctx now) (resolveDesiredState hashing.rt policies ctx now) ∧
        ¬ (fingerprint hashing (resolveDesiredState hashing.rt listed ctx now) =
            fingerprint hashing (resolveDesiredState hashing.rt policies ctx now) ∧
          policyBehind (resolveDesiredState hashing.rt listed ctx now) =
            policyBehind (resolveDesiredState hashing.rt policies ctx now)) := by
  have hagree : ∀ {listed e}, AddsNothing policies ctx listed e →
      Agree (resolveDesiredState hashing.rt listed ctx now)
        (resolveDesiredState hashing.rt policies ctx now) := by
    intro listed e hadds
    refine resolveOrdered_agree ?_ (fun p => hadds.setsNothing_of_id) ctx now
    obtain ⟨front, back, rfl, rfl⟩ := hadds.listed
    exact orderedPolicies_added hcollates hnodup hadds.fresh
  refine ⟨fun h => ?_, fun listed hperm => ?_, fun listed e hadds => ⟨hagree hadds, fun h => ?_⟩⟩
  · obtain ⟨listed, e, hadds⟩ := exists_addsNothing policies ctx
    obtain ⟨hfingerprint, horigin⟩ := (h.added listed e hadds).2
    exact fingerprint_or_origin hsha (hagree hadds) (orderedPolicies_perm_cons hadds) hfingerprint horigin
  · unfold resolveDesiredState
    rw [orderedPolicies_of_perm hcollates hnodup hperm]
    exact .rfl
  · exact fingerprint_or_origin hsha (hagree hadds) (orderedPolicies_perm_cons hadds) h.1 h.2

/-- A digest that loses nothing. -/
def plain : Hashing String := ⟨.ascii, id⟩

/-- The quality of one library, and a policy for everything that sets nothing. -/
def qualityPolicy : Policy :=
  { id := "p1", name := "Series", enabled := true, scopeType := .library, scopeId := some "tv",
    mode := .approvalRequired, quality := some "maintain_preferred" }

def emptyPolicy : Policy :=
  { id := "p0", name := "Everything", enabled := true, scopeType := .global, scopeId := none,
    mode := .recommendOnly }

def episode : MatchContext := { entityType := "episode", entityId := "e1", libraryId := some "tv" }

theorem qualityPolicy_addsNothing : AddsNothing [qualityPolicy] episode [emptyPolicy, qualityPolicy] emptyPolicy where
  listed := ⟨[], [qualityPolicy], rfl, rfl⟩
  enabled := rfl
  applies := rfl
  setsNothing := ⟨rfl, rfl, rfl, rfl⟩
  fresh := by decide

theorem not_inert_qualityPolicy : Function.Injective plain.sha256 ∧ ¬ Inert plain [qualityPolicy] episode 0 :=
  ⟨fun _ _ h => h, (not_inert plain [qualityPolicy] episode 0 (fun _ _ h => h) (collates_ascii _) (by decide)).1⟩

/-- The policy that sets nothing is in the fingerprint. -/
theorem emptyPolicy_pinned : ¬ Inert plain [qualityPolicy] episode 0 := by
  intro h
  obtain ⟨hagree, hfingerprint, horigin⟩ := h.added _ _ qualityPolicy_addsNothing
  exact fingerprint_or_origin (fun _ _ h => h) hagree (orderedPolicies_perm_cons qualityPolicy_addsNothing)
    hfingerprint horigin

end UltraTorrent.MediaIntelligence.PolicyPrecedence
