import UltraTorrent.Cleanup.PinnedState

/-! When the strings of two states of one file differ. Each fact a policy reads is pinned under the
id of its condition, and so told apart, but for two: the lists of genres and tags are kept under
other names than their conditions have, and a policy that reads them pins nothing of them. -/
namespace UltraTorrent.Cleanup.MissedDrift

open Library.EcmaScript Library.Kleene
open Workflows.ConditionEval ConditionCatalog PolicyEvaluator PolicyDocument PolicyValidator
  FactAssembly ProtectionMatcher CandidateFingerprint TypedComparisons PinnedState

/-! ### What is pinned -/

/-- The conditions whose facts are kept under other names. -/
def listFields : List String := ["metadata.genre", "metadata.tag"]

/-- The condition on the path itself. -/
def pathField : String := "safety.pathPrefix"

/-- The fact is read by the name of its condition. -/
def keyedAsRead (definition : CleanupConditionDefinition) : Bool :=
  match definition.factPath with
  | [group, key] => definition.id = group ++ "." ++ key && !group.toList.contains '.'
  | _ => false

variable {rt : Runtime} {definition : CleanupConditionDefinition} {field : String} {s t : FileState}

theorem keyedAsRead_of_mem (hmem : definition ∈ cleanupConditions) (hlist : definition.id ∉ listFields)
    (hpath : definition.id ≠ pathField) (hladder : definition.id ≠ ladderField) :
    keyedAsRead definition = true := by
  have hall : (cleanupConditions.all fun d =>
      decide (d.id ∈ listFields) || decide (d.id = pathField) || decide (d.id = ladderField) ||
        keyedAsRead d) = true := by rfl
  simpa [hlist, hpath, hladder] using List.all_eq_true.1 hall definition hmem

/-- Such a fact is pinned as what the condition reads. -/
theorem pinned_eq_fact (h : keyedAsRead definition = true) (s : FileState) :
    pinned (s.facts rt) definition.id = resolvePath (s.facts rt) definition.factPath := by
  unfold keyedAsRead at h
  split at h
  · rename_i group key hfactPath
    simp only [Bool.and_eq_true, decide_eq_true_eq, Bool.not_eq_true', List.contains_eq_mem,
      decide_eq_false_iff_not] at h
    rw [h.1, pinned_facts s key h.2, hfactPath]
    rfl
  · cases h

theorem pinned_missing (h : field ∈ pathField :: listFields) (s : FileState) :
    pinned (s.facts rt) field = .undefined := by
  simp only [listFields, List.mem_cons, List.not_mem_nil, or_false] at h
  rcases h with rfl | rfl | rfl
  · exact pinned_facts s "pathPrefix" (by decide : '.' ∉ "safety".toList)
  · exact pinned_facts s "genre" (by decide : '.' ∉ "metadata".toList)
  · exact pinned_facts s "tag" (by decide : '.' ∉ "metadata".toList)

theorem pinned_ladder (s : FileState) :
    pinned (s.facts rt) ladderField = resolvePath (s.facts rt) ["technical", "resolutionClass"] :=
  pinned_facts s "resolutionClass" (by decide : '.' ∉ "technical".toList)

/-! ### Facts are told apart -/

theorem ofOption_ne_null {α : Type*} {f : α → Value} (hf : ∀ a, f a ≠ .null) (o : Option α) :
    Value.ofOption f o ≠ .null := by
  cases o with
  | none => exact nofun
  | some a => exact hf a

theorem asArray_ne_null (value : Value) : asArray rt value ≠ .null := by
  cases value <;> exact nofun

theorem get_of_forall {P : Value → Prop} {fields : List (String × Value)} (hundefined : P .undefined)
    (h : ∀ field ∈ fields, P field.2) (key : String) : P ((Value.object fields).get key) := by
  rw [Value.get]
  cases hlookup : fields.lookup key with
  | none => exact hundefined
  | some value =>
    obtain ⟨before, after, hfields, -⟩ := List.lookup_eq_some_iff.1 hlookup
    exact h (key, value) (by simp [hfields])

theorem get_ne_null {fields : List (String × Value)} (h : ∀ field ∈ fields, field.2 ≠ .null)
    (key : String) : (Value.object fields).get key ≠ .null :=
  get_of_forall (P := (· ≠ .null)) (fun h => by cases h) h key

/-- A fact that could not be established is `undefined`, never `null`. -/
theorem fact_ne_null (clock : Instant) (file : RawMediaFile) (item : RawMediaItem) (ctx : RawContext)
    (group key : String) :
    ((assembleEvaluationFacts rt clock file item ctx).get group).get key ≠ .null := by
  have hint : ∀ o, Value.ofOption int o ≠ .null := ofOption_ne_null fun _ h => by cases h
  have hrat : ∀ o, Value.ofOption rat o ≠ .null := ofOption_ne_null fun _ h => by cases h
  have hdate : ∀ o, Value.ofOption .date o ≠ .null := ofOption_ne_null fun _ h => by cases h
  have hbool : ∀ o, Value.ofOption .bool o ≠ .null := ofOption_ne_null fun _ h => by cases h
  have hstring : ∀ o, Value.ofOption .string o ≠ .null := ofOption_ne_null fun _ h => by cases h
  have hordinal : ∀ o : Option ℕ, Value.ofOption (fun i : ℕ => int i) o ≠ .null :=
    ofOption_ne_null fun _ h => by cases h
  have hmetadata : ∀ key, (metadataFacts rt item ctx).get key ≠ .null :=
    get_ne_null (by simp [hint, hrat, hdate, hstring, asArray_ne_null])
  have hplayback : ∀ key, (playbackFacts ctx.playback (factInstant clock ctx)).get key ≠ .null := by
    cases ctx.playback with
    | none => exact get_ne_null (by simp)
    | some p => exact get_ne_null (by simp [hint, hdate, int, rat])
  have htechnical : ∀ key, (technicalFacts file).get key ≠ .null := by
    refine get_ne_null ?_
    cases isProbeMeasured file <;> simp [hint, hrat, hstring, hordinal]
  have hstorage : ∀ key, (storageFacts file item ctx (factInstant clock ctx)).get key ≠ .null :=
    get_ne_null (by simp [hint, hrat, hdate, hbool, int])
  have hsafety : ∀ key, (safetyFacts file item ctx).get key ≠ .null := get_ne_null (by simp [hstring])
  refine get_of_forall (P := fun values => values.get key ≠ .null) (fun h => by cases h) ?_ group
  simp only [List.forall_mem_cons]
  exact ⟨hmetadata key, hplayback key, htechnical key, hstorage key, hsafety key, fun field h => by cases h⟩

theorem undefined_of_isNullish {value : Value} (h : value.isNullish = true) (hnull : value ≠ .null) :
    value = .undefined := by
  cases value with
  | undefined => rfl
  | null => exact absurd rfl hnull
  | _ => cases h

theorem fact_of_keyed (h : keyedAsRead definition = true) (s : FileState) :
    resolvePath (s.facts rt) definition.factPath ≠ .null := by
  unfold keyedAsRead at h
  split at h
  · rename_i group key hfactPath
    rw [hfactPath]
    exact fact_ne_null _ _ _ _ group key
  · cases h

theorem fact_ofType (rt : Runtime) (hmem : definition ∈ cleanupConditions) (hlist : definition.id ∉ listFields)
    (hladder : definition.id ≠ ladderField) (hkeyed : keyedAsRead definition = true) :
    ∃ dataType, dataType ≠ .strings ∧ ∀ s : FileState,
      resolvePath (s.facts rt) definition.factPath = .undefined ∨
        OfType dataType (resolvePath (s.facts rt) definition.factPath) := by
  have hall : ((signatures.zip cleanupConditions).all fun c => decide (c.1.1 = c.2.id) &&
      (decide (c.2.id ∈ listFields) || decide (c.1.2.1 ≠ .strings))) = true := by rfl
  have hlength : cleanupConditions.length ≤ signatures.length := by
    simpa using (congrArg List.length signatures_ids).ge
  obtain ⟨c, hc, rfl⟩ := List.mem_map.1 ((List.map_snd_zip hlength).symm ▸ hmem)
  have hsigned := List.all_eq_true.1 hall c hc
  rw [Bool.and_eq_true, decide_eq_true_eq, Bool.or_eq_true, decide_eq_true_eq, or_iff_right hlist,
    decide_eq_true_eq] at hsigned
  refine ⟨c.1.2.1, hsigned.2, fun s => ?_⟩
  have htype : (resolvePath (s.facts rt) c.2.factPath).isNullish = true ∨
      HasType c.1.1 c.1.2.1 (resolvePath (s.facts rt) c.2.factPath) := assembled_hasType _ _ _ _ c hc
  rw [hsigned.1, HasType, if_neg hladder] at htype
  exact htype.imp_left fun hnullish => undefined_of_isNullish hnullish (fact_of_keyed hkeyed s)

/-- What is known of the host's number and date texts: they are read back, stand on one line, and
are not the mark of a missing fact. -/
structure Faithful (rt : Runtime) : Prop where
  number_injective : Function.Injective rt.stringOfNumber
  date_injective : Function.Injective rt.toISOString
  number_written : ∀ n, OneLine (rt.stringOfNumber n) ∧ rt.stringOfNumber n ≠ "∅"
  date_written : ∀ ms, OneLine (rt.toISOString ms) ∧ rt.toISOString ms ≠ "∅"

/-- A text that stands on one line and is not the mark of a missing fact. -/
def Written (value : Value) : Prop := ∀ text, value = .string text → OneLine text ∧ text ≠ "∅"

variable {dataType : ConditionDataType} {a b : Value}

theorem stringify_written (hrt : Faithful rt) (hlists : dataType ≠ .strings) (ha : OfType dataType a)
    (hwritten : Written a) : OneLine (stringify rt a) ∧ stringify rt a ≠ "∅" := by
  cases dataType with
  | strings => exact absurd rfl hlists
  | number =>
    obtain ⟨n, rfl⟩ := ha
    exact hrt.number_written n
  | boolean =>
    obtain ⟨flag, rfl⟩ := ha
    have hflags : ∀ flag : Bool, OneLine (if flag then "true" else "false") ∧
        (if flag then "true" else "false") ≠ "∅" := by decide
    exact hflags flag
  | date =>
    obtain ⟨ms, rfl⟩ := ha
    exact hrt.date_written ms
  | string | enum =>
    obtain ⟨text, rfl⟩ := ha
    exact hwritten text rfl

theorem oneLine_stringify (hrt : Faithful rt) (hlists : dataType ≠ .strings)
    (ha : a = .undefined ∨ OfType dataType a) (hwritten : Written a) : OneLine (stringify rt a) := by
  rcases ha with rfl | ha
  · exact (by decide : OneLine "∅")
  · exact (stringify_written hrt hlists ha hwritten).1

/-- Facts of one type are told apart by their text. -/
theorem stringify_injective (hrt : Faithful rt) (hlists : dataType ≠ .strings)
    (ha : OfType dataType a) (hb : OfType dataType b) (h : stringify rt a = stringify rt b) : a = b := by
  cases dataType with
  | strings => exact absurd rfl hlists
  | number =>
    obtain ⟨m, rfl⟩ := ha
    obtain ⟨n, rfl⟩ := hb
    rw [hrt.number_injective h]
  | boolean =>
    obtain ⟨flag, rfl⟩ := ha
    obtain ⟨flag', rfl⟩ := hb
    have hflags : ∀ flag flag' : Bool,
        (if flag then "true" else "false") = (if flag' then "true" else "false") → flag = flag' := by decide
    rw [hflags flag flag' h]
  | date =>
    obtain ⟨ms, rfl⟩ := ha
    obtain ⟨ms', rfl⟩ := hb
    rw [hrt.date_injective h]
  | string | enum =>
    obtain ⟨text, rfl⟩ := ha
    obtain ⟨text', rfl⟩ := hb
    exact congrArg Value.string h

/-- So is a missing fact. -/
theorem stringify_inj_iff (hrt : Faithful rt) (hlists : dataType ≠ .strings)
    (ha : a = .undefined ∨ OfType dataType a) (hb : b = .undefined ∨ OfType dataType b)
    (hwritten : Written a) (hwritten' : Written b) : stringify rt a = stringify rt b ↔ a = b := by
  refine ⟨fun h => ?_, congrArg _⟩
  rcases ha with rfl | ha
  · rcases hb with rfl | hb
    · rfl
    · exact absurd h.symm (stringify_written hrt hlists hb hwritten').2
  · rcases hb with rfl | hb
    · exact absurd h (stringify_written hrt hlists ha hwritten).2
    · exact stringify_injective hrt hlists ha hb h

/-! ### By condition -/

/-- The ordinal a label stands for. -/
def ordinalOf : Value → Value
  | .string label => .ofOption (fun i : ℕ => int i) (resolutionClasses.idxOf? label)
  | _ => .undefined

/-- The label of a resolution class says which one it is. -/
theorem ordinal_of_label (s : FileState) :
    resolvePath (s.facts rt) ["technical", "resolutionOrdinal"] =
      ordinalOf (resolvePath (s.facts rt) ["technical", "resolutionClass"]) := by
  have hordinal : ∀ cls, resolutionOrdinal cls = resolutionClasses.idxOf? (className cls) := by
    intro cls
    cases cls <;> rfl
  have hfacts : ∀ measured : Bool, ∀ cls,
      (if measured then .ofOption (fun i : ℕ => int i) (resolutionOrdinal cls) else .undefined) =
        ordinalOf (if measured then .string (className cls) else .undefined) := by
    intro measured cls
    cases measured with
    | false => rfl
    | true => rw [if_pos rfl, if_pos rfl, hordinal, ordinalOf]
  exact hfacts _ _

theorem label_ofType (s : FileState) :
    resolvePath (s.facts rt) ["technical", "resolutionClass"] = .undefined ∨
      OfType .enum (resolvePath (s.facts rt) ["technical", "resolutionClass"]) := by
  have hlabel : ∀ (measured : Bool) (label : String),
      (if measured then Value.string label else .undefined) = .undefined ∨
        OfType .enum (if measured then .string label else .undefined) := by
    intro measured label
    cases measured with
    | false => exact .inl rfl
    | true => exact .inr ⟨label, rfl⟩
  exact hlabel _ _

theorem pinned_ofType (rt : Runtime) (hdefinition : getCondition field = some definition) :
    ∃ dataType, dataType ≠ .strings ∧ ∀ s : FileState,
      pinned (s.facts rt) field = .undefined ∨ OfType dataType (pinned (s.facts rt) field) := by
  by_cases hmissing : field ∈ pathField :: listFields
  · exact ⟨.number, nofun, fun s => .inl (pinned_missing hmissing s)⟩
  · by_cases hladder : field = ladderField
    · subst hladder
      exact ⟨.enum, nofun, fun s => pinned_ladder s ▸ label_ofType s⟩
    · have hmem := List.mem_of_find?_eq_some hdefinition
      obtain rfl := id_of_getCondition hdefinition
      rw [List.mem_cons, not_or] at hmissing
      have hkeyed := keyedAsRead_of_mem hmem hmissing.2 hmissing.1 hladder
      obtain ⟨dataType, hlists, hfact⟩ := fact_ofType rt hmem hmissing.2 hladder hkeyed
      exact ⟨dataType, hlists, fun s => pinned_eq_fact hkeyed s ▸ hfact s⟩

theorem fact_of_pinned (hdefinition : getCondition field = some definition) (hlist : field ∉ listFields)
    (hpath : s.file.path = t.file.path) (h : pinned (s.facts rt) field = pinned (t.facts rt) field) :
    resolvePath (s.facts rt) definition.factPath = resolvePath (t.facts rt) definition.factPath := by
  by_cases hpathField : field = pathField
  · subst hpathField
    have hcatalogue : getCondition pathField =
        some { id := "safety.pathPrefix", factPath := ["safety", "path"] } := by rfl
    obtain rfl := Option.some.inj (hcatalogue.symm.trans hdefinition)
    have hfact : ∀ s : FileState, resolvePath (s.facts rt) ["safety", "path"] = .string s.file.path :=
      fun _ => rfl
    rw [hfact, hfact, hpath]
  · by_cases hladder : field = ladderField
    · subst hladder
      have hcatalogue : getCondition ladderField = some
          { id := "technical.resolutionClass", factPath := ["technical", "resolutionOrdinal"],
            requiresMeasuredData := true, enumValues := some resolutionClasses } := by rfl
      obtain rfl := Option.some.inj (hcatalogue.symm.trans hdefinition)
      rw [pinned_ladder, pinned_ladder] at h
      rw [ordinal_of_label, ordinal_of_label, h]
    · have hmem := List.mem_of_find?_eq_some hdefinition
      obtain rfl := id_of_getCondition hdefinition
      have hkeyed := keyedAsRead_of_mem hmem hlist hpathField hladder
      rwa [pinned_eq_fact hkeyed, pinned_eq_fact hkeyed] at h

theorem pinned_of_fact (hdefinition : getCondition field = some definition)
    (hlabel : field = ladderField → resolvePath (s.facts rt) ["technical", "resolutionClass"] =
      resolvePath (t.facts rt) ["technical", "resolutionClass"])
    (h : field ∉ listFields →
      resolvePath (s.facts rt) definition.factPath = resolvePath (t.facts rt) definition.factPath) :
    pinned (s.facts rt) field = pinned (t.facts rt) field := by
  by_cases hmissing : field ∈ pathField :: listFields
  · rw [pinned_missing hmissing, pinned_missing hmissing]
  · by_cases hladder : field = ladderField
    · rw [hladder, pinned_ladder, pinned_ladder, hlabel hladder]
    · have hmem := List.mem_of_find?_eq_some hdefinition
      obtain rfl := id_of_getCondition hdefinition
      rw [List.mem_cons, not_or] at hmissing
      have hkeyed := keyedAsRead_of_mem hmem hmissing.2 hmissing.1 hladder
      rw [pinned_eq_fact hkeyed, pinned_eq_fact hkeyed, h hmissing.2]

/-! ### Two states of a file -/

/-- The path, the size, the time, the identities or the covering protections differ, or the fact
one of the conditions reads. -/
def DiffersIn (rt : Runtime) (fields : List String) (s t : FileState) : Prop :=
  s.file.path ≠ t.file.path ∨ s.file.size ≠ t.file.size ∨ s.file.modifiedAt ≠ t.file.modifiedAt ∨
  ¬ s.item.externalIds.Perm t.item.externalIds ∨
  ¬ (s.found.map (·.id)).Perm (t.found.map (·.id)) ∨
  ∃ field ∈ fields, ∃ definition, getCondition field = some definition ∧
    resolvePath (s.facts rt) definition.factPath ≠ resolvePath (t.facts rt) definition.factPath

/-- They differ apart from the lists of genres and tags, or in the label of a resolution class that
is read. -/
def DiffersApart (rt : Runtime) (fields : List String) (s t : FileState) : Prop :=
  DiffersIn rt (fields.filter fun field => field ∉ listFields) s t ∨
    ladderField ∈ fields ∧ resolvePath (s.facts rt) ["technical", "resolutionClass"] ≠
      resolvePath (t.facts rt) ["technical", "resolutionClass"]

/-- No provider and no id has a mark in it that it is written between. -/
structure CleanIdentities (ids : List (String × String)) : Prop where
  providers : ∀ e ∈ ids, ':' ∉ e.1.toList ∧ ',' ∉ e.1.toList ∧ OneLine e.1
  identities : ∀ e ∈ ids, ',' ∉ e.2.toList ∧ OneLine e.2

def CleanProtections (ids : List String) : Prop := ∀ id ∈ ids, ',' ∉ id.toList ∧ OneLine id

/-- What is not the same in the two states has no mark in it that it is written between. -/
structure Clean (rt : Runtime) (fields : List String) (s t : FileState) : Prop where
  identities : s.item.externalIds.Perm t.item.externalIds ∨
    CleanIdentities s.item.externalIds ∧ CleanIdentities t.item.externalIds
  protections : (s.found.map (·.id)).Perm (t.found.map (·.id)) ∨
    CleanProtections (s.found.map (·.id)) ∧ CleanProtections (t.found.map (·.id))
  facts : ∀ field ∈ fields, pinned (s.facts rt) field = pinned (t.facts rt) field ∨
    Written (pinned (s.facts rt) field) ∧ Written (pinned (t.facts rt) field)

variable {fields : List String} {policyVersionId : String} {conditions : PolicyConditionNode}

/-- An identity is read back from its key. -/
theorem perm_keys_iff {ids ids' : List (String × String)} (h : ∀ e ∈ ids, ':' ∉ e.1.toList)
    (h' : ∀ e ∈ ids', ':' ∉ e.1.toList) :
    (ids.map fun e => e.1 ++ ":" ++ e.2).Perm (ids'.map fun e => e.1 ++ ":" ++ e.2) ↔
      ids.Perm ids' := by
  refine ⟨fun hperm => ?_, List.Perm.map _⟩
  have hinj : Set.InjOn (fun e : String × String => e.1 ++ ":" ++ e.2) {e | ':' ∉ e.1.toList} := by
    intro e he e' he' heq
    obtain ⟨hprovider, hid⟩ := (Library.Text.marked_inj (by rfl) he he').1 heq
    exact Prod.ext hprovider hid
  have hread : ∀ ids : List (String × String), (∀ e ∈ ids, ':' ∉ e.1.toList) →
      (ids.map fun e => e.1 ++ ":" ++ e.2).map
        (Function.invFunOn (fun e : String × String => e.1 ++ ":" ++ e.2) {e | ':' ∉ e.1.toList}) = ids := by
    intro ids h
    rw [List.map_map]
    exact (List.map_congr_left fun e he => hinj.leftInvOn_invFunOn (h e he)).trans (List.map_id' ids)
  rw [← hread ids h, ← hread ids' h']
  exact hperm.map _

theorem identityText_eq_iff (rt : Runtime) (policyVersionId : String) (conditions : PolicyConditionNode)
    (h : s.item.externalIds.Perm t.item.externalIds ∨
      CleanIdentities s.item.externalIds ∧ CleanIdentities t.item.externalIds) :
    InLine (identityText (s.input rt policyVersionId conditions))
        (identityText (t.input rt policyVersionId conditions)) ∧
      (identityText (s.input rt policyVersionId conditions) =
        identityText (t.input rt policyVersionId conditions) ↔
          s.item.externalIds.Perm t.item.externalIds) := by
  have hjoined : s.item.externalIds.Perm t.item.externalIds →
      identityText (s.input rt policyVersionId conditions) =
        identityText (t.input rt policyVersionId conditions) :=
    fun hperm => joined_of_perm (hperm.map fun e : String × String => e.1 ++ ":" ++ e.2)
  rcases h with hperm | ⟨hs, ht⟩
  · exact ⟨.inl (hjoined hperm), fun _ => hperm, hjoined⟩
  have hkeys : ∀ {ids : List (String × String)}, CleanIdentities ids →
      ∀ key ∈ ids.map fun e => e.1 ++ ":" ++ e.2, ',' ∉ key.toList ∧ OneLine key ∧ key ≠ "" := by
    intro ids hids key hkey
    obtain ⟨e, he, rfl⟩ := List.mem_map.1 hkey
    refine ⟨by simp [(hids.providers e he).2.1, (hids.identities e he).1], ?_, fun hempty => ?_⟩
    · exact oneLine_append.2 ⟨oneLine_append.2 ⟨(hids.providers e he).2.2, by decide⟩,
        (hids.identities e he).2⟩
    · have hlength := congrArg String.length hempty
      simp at hlength
  refine ⟨.inr ⟨oneLine_joined fun key hkey => (hkeys hs key hkey).2.1,
    oneLine_joined fun key hkey => (hkeys ht key hkey).2.1⟩, fun h => ?_, hjoined⟩
  · rw [← perm_keys_iff (fun e he => (hs.providers e he).1) fun e he => (ht.providers e he).1]
    refine (sorted_joined_iff (fun key hkey => (hkeys hs key hkey).1)
      (fun key hkey => (hkeys ht key hkey).1) ?_).1 h
    rw [← joined_eq_empty_iff fun key hkey => (hkeys hs key hkey).2.2,
      ← joined_eq_empty_iff fun key hkey => (hkeys ht key hkey).2.2]
    exact Eq.congr_left h

theorem protections_eq_iff (hs : ∀ id ∈ s.found.map (·.id), ',' ∉ id.toList)
    (ht : ∀ id ∈ t.found.map (·.id), ',' ∉ id.toList) :
    (!s.found.isEmpty) = (!t.found.isEmpty) ∧ protectionText (s.input rt policyVersionId conditions) =
      protectionText (t.input rt policyVersionId conditions) ↔
      (s.found.map (·.id)).Perm (t.found.map (·.id)) := by
  have hflag : (!s.found.isEmpty) = (!t.found.isEmpty) ↔
      (s.found.map (·.id) = [] ↔ t.found.map (·.id) = []) := by
    rw [List.map_eq_nil_iff, List.map_eq_nil_iff, Bool.not_inj_iff, Bool.eq_iff_iff, List.isEmpty_iff,
      List.isEmpty_iff]
  rw [hflag]
  constructor
  · rintro ⟨hempty, htext⟩
    exact (sorted_joined_iff hs ht hempty).1 htext
  · intro hperm
    have hempty : s.found.map (·.id) = [] ↔ t.found.map (·.id) = [] := by
      rw [← List.length_eq_zero_iff, hperm.length_eq, List.length_eq_zero_iff]
    exact ⟨hempty, (sorted_joined_iff hs ht hempty).2 hperm⟩

theorem protectionText_eq_iff (rt : Runtime) (policyVersionId : String) (conditions : PolicyConditionNode)
    (h : (s.found.map (·.id)).Perm (t.found.map (·.id)) ∨
      CleanProtections (s.found.map (·.id)) ∧ CleanProtections (t.found.map (·.id))) :
    InLine (protectionText (s.input rt policyVersionId conditions))
        (protectionText (t.input rt policyVersionId conditions)) ∧
      ((!s.found.isEmpty) = (!t.found.isEmpty) ∧ protectionText (s.input rt policyVersionId conditions) =
          protectionText (t.input rt policyVersionId conditions) ↔
        (s.found.map (·.id)).Perm (t.found.map (·.id))) := by
  rcases h with hperm | ⟨hs, ht⟩
  · have htext : protectionText (s.input rt policyVersionId conditions) =
        protectionText (t.input rt policyVersionId conditions) := joined_of_perm hperm
    refine ⟨.inl htext, fun _ => hperm, fun _ => ⟨?_, htext⟩⟩
    have hlength : s.found.length = t.found.length := by simpa using hperm.length_eq
    rw [Bool.not_inj_iff, Bool.eq_iff_iff, List.isEmpty_iff_length_eq_zero, List.isEmpty_iff_length_eq_zero,
      hlength]
  · exact ⟨.inr ⟨oneLine_joined fun id hid => (hs id hid).2, oneLine_joined fun id hid => (ht id hid).2⟩,
      protections_eq_iff (fun id hid => (hs id hid).1) fun id hid => (ht id hid).1⟩

theorem factText_eq_iff (hrt : Faithful rt) (hdefinition : getCondition field = some definition)
    (h : pinned (s.facts rt) field = pinned (t.facts rt) field ∨
      Written (pinned (s.facts rt) field) ∧ Written (pinned (t.facts rt) field)) :
    FactsInLine rt (s.input rt policyVersionId conditions) (t.input rt policyVersionId conditions) field ∧
      (factText rt (s.input rt policyVersionId conditions) field =
        factText rt (t.input rt policyVersionId conditions) field ↔
          pinned (s.facts rt) field = pinned (t.facts rt) field) := by
  rcases h with heq | ⟨hs, ht⟩
  · have htext : factText rt (s.input rt policyVersionId conditions) field =
        factText rt (t.input rt policyVersionId conditions) field := congrArg (stringify rt) heq
    exact ⟨.inl htext, fun _ => heq, fun _ => htext⟩
  have hids : ∀ d ∈ cleanupConditions, OneLine d.id := by simp [cleanupConditions, OneLine]
  have hline := hids definition (List.mem_of_find?_eq_some hdefinition)
  rw [id_of_getCondition hdefinition] at hline
  obtain ⟨dataType, hlists, htype⟩ := pinned_ofType rt hdefinition
  exact ⟨.inr ⟨hline, oneLine_stringify hrt hlists (htype s) hs, oneLine_stringify hrt hlists (htype t) ht⟩,
    stringify_inj_iff hrt hlists (htype s) (htype t) hs ht⟩

theorem hashed_eq_iff (hrt : Faithful rt) (hid : s.file.id = t.file.id)
    (hfields : ∀ field ∈ collectFieldIds conditions, ∃ d, getCondition field = some d)
    (hclean : Clean rt (collectFieldIds conditions) s t) :
    s.hashed rt policyVersionId conditions = t.hashed rt policyVersionId conditions ↔
      s.file.path = t.file.path ∧ s.file.size = t.file.size ∧ s.file.modifiedAt = t.file.modifiedAt ∧
      s.item.externalIds.Perm t.item.externalIds ∧ (s.found.map (·.id)).Perm (t.found.map (·.id)) ∧
      ∀ field ∈ collectFieldIds conditions,
        pinned (s.facts rt) field = pinned (t.facts rt) field := by
  obtain ⟨hidentity, hidentities⟩ := identityText_eq_iff rt policyVersionId conditions hclean.identities
  obtain ⟨hprotection, hfound⟩ := protectionText_eq_iff rt policyVersionId conditions hclean.protections
  have hfacts : ∀ field ∈ collectFieldIds conditions,
      FactsInLine rt (s.input rt policyVersionId conditions) (t.input rt policyVersionId conditions)
          field ∧
        (factText rt (s.input rt policyVersionId conditions) field =
          factText rt (t.input rt policyVersionId conditions) field ↔
            pinned (s.facts rt) field = pinned (t.facts rt) field) := by
    intro field hfield
    obtain ⟨definition, hdefinition⟩ := hfields field hfield
    exact factText_eq_iff hrt hdefinition (hclean.facts field hfield)
  have hrender := render_eq_iff rt (s.input rt policyVersionId conditions)
    (t.input rt policyVersionId conditions) hid rfl rfl rfl hidentity hprotection
    fun field hfield => (hfacts field hfield).1
  rw [← hidentities, ← hfound, ← forall₂_congr fun field hfield => (hfacts field hfield).2, and_assoc]
  exact hrender

theorem hashed_ne_iff (hrt : Faithful rt) (hid : s.file.id = t.file.id)
    (hfields : ∀ field ∈ collectFieldIds conditions, ∃ d, getCondition field = some d)
    (hclean : Clean rt (collectFieldIds conditions) s t) :
    s.hashed rt policyVersionId conditions ≠ t.hashed rt policyVersionId conditions ↔
      DiffersApart rt (collectFieldIds conditions) s t := by
  rw [ne_eq, hashed_eq_iff hrt hid hfields hclean]
  constructor
  · intro h
    by_contra hapart
    simp only [DiffersApart, DiffersIn, not_or, not_and, not_not, ne_eq, not_exists] at hapart
    obtain ⟨⟨hpath, hsize, hmtime, hids, hfound, hfacts⟩, hlabel⟩ := hapart
    refine h ⟨hpath, hsize, hmtime, hids, hfound, fun field hfield => ?_⟩
    obtain ⟨definition, hdefinition⟩ := hfields field hfield
    refine pinned_of_fact hdefinition (fun hladder => hlabel (hladder ▸ hfield)) fun hlist => ?_
    exact hfacts field (List.mem_filter.2 ⟨hfield, decide_eq_true hlist⟩) definition hdefinition
  · rintro hapart ⟨hpath, hsize, hmtime, hids, hfound, hfacts⟩
    rcases hapart with (h | h | h | h | h | ⟨field, hfield, definition, hdefinition, h⟩) | ⟨hfield, h⟩
    · exact h hpath
    · exact h hsize
    · exact h hmtime
    · exact h hids
    · exact h hfound
    · obtain ⟨hfield, hlist⟩ := List.mem_filter.1 hfield
      exact h (fact_of_pinned hdefinition (of_decide_eq_true hlist) hpath (hfacts field hfield))
    · have hladder := hfacts ladderField hfield
      rw [pinned_ladder, pinned_ladder] at hladder
      exact h hladder

/-- A difference shows in the string unless it is in the lists of genres and tags only. -/
theorem drift_seen_iff (rt : Runtime) (hrt : Faithful rt) (bytes : ℕ) (now : Instant)
    (doc : CleanupPolicyDocument) (conditions : PolicyConditionNode) (policyVersionId : String)
    (hconditions : doc.conditions = some conditions)
    (hvalid : (validatePolicyDocument rt bytes now doc).valid = true) (s t : FileState)
    (hid : s.file.id = t.file.id) (hclean : Clean rt (collectFieldIds conditions) s t) :
    (DiffersIn rt (collectFieldIds conditions) s t →
      s.hashed rt policyVersionId conditions ≠ t.hashed rt policyVersionId conditions) ↔
    (DiffersIn rt (collectFieldIds conditions) s t →
      DiffersApart rt (collectFieldIds conditions) s t) := by
  refine imp_congr_right fun _ => hashed_ne_iff hrt hid (fun field hfield => ?_) hclean
  rw [collectFieldIds, List.mem_dedup, List.mem_map] at hfield
  obtain ⟨node, hnode, rfl⟩ := hfield
  obtain ⟨path, haccepted⟩ := accepted_leaf (accepted_conditions hconditions hvalid) hnode
  obtain ⟨definition, dataType, operators, hdefinition, -⟩ := leaf_of_accepted haccepted
  exact ⟨definition, hdefinition⟩

theorem faithful_ascii : Faithful .ascii where
  number_injective m n h := by
    have hfin : ∀ q : ℚ, ∀ text : String, 'N' ∈ text.toList ∨ 'I' ∈ text.toList →
        (toString q : String) ≠ text := by
      rintro q text hletter rfl
      exact hletter.elim (Library.Text.notMem_toString_rat (by decide) (by decide) (by decide) q)
        (Library.Text.notMem_toString_rat (by decide) (by decide) (by decide) q)
    cases m <;> cases n <;> first
      | rfl
      | exact congrArg Numeric.fin (Library.Text.toString_rat_injective h)
      | exact absurd h (hfin _ _ (by decide))
      | exact absurd h.symm (hfin _ _ (by decide))
      | exact absurd h (by decide)
  date_injective _ _ h := toString_int_injective h
  number_written n := by
    cases n with
    | fin q =>
      refine ⟨Library.Text.notMem_toString_rat (by decide) (by decide) (by decide) q, fun h => ?_⟩
      have hmark : '∅' ∉ (toString q : String).toList :=
        Library.Text.notMem_toString_rat (by decide) (by decide) (by decide) q
      rw [show (toString q : String) = "∅" from h] at hmark
      exact hmark (by decide)
    | _ => exact ⟨by decide, by decide⟩
  date_written ms := by
    refine ⟨oneLine_toString_int ms, fun h => ?_⟩
    have hmark : '∅' ∉ (toString ms : String).toList :=
      Library.Text.notMem_repr (by decide) (by decide) ms
    rw [show (toString ms : String) = "∅" from h] at hmark
    exact hmark (by decide)

/-- A film with its genre and its year. -/
def filmOf (genre : String) (year : ℤ) : FileState where
  file := fullHd
  item :=
    { id := "item", libraryId := "films", year := some year,
      metadata := some { genres := .array [.string genre] } }
  context := {}
  found := []
  clock := 0

theorem filmOf_clean {field : String} (hfield : field = "metadata.genre" ∨ field = "metadata.releaseYear")
    (genre genre' : String) (year year' : ℤ) : Clean .ascii [field] (filmOf genre year) (filmOf genre' year') where
  identities := .inl .rfl
  protections := .inl .rfl
  facts := by
    rw [List.forall_mem_singleton]
    rcases hfield with rfl | rfl
    · exact .inl ((pinned_missing (by decide) _).trans (pinned_missing (by decide) _).symm)
    · have hyear : ∀ genre year, Written (pinned ((filmOf genre year).facts .ascii) "metadata.releaseYear") := by
        intro genre year
        have hpinned : pinned ((filmOf genre year).facts .ascii) "metadata.releaseYear" = int year :=
          pinned_facts _ "releaseYear" (by decide : '.' ∉ "metadata".toList)
        rw [hpinned]
        exact nofun
      exact .inr ⟨hyear genre year, hyear genre' year'⟩

/-- A corrected year is drift to a policy on the year. -/
theorem year_seen : (filmOf "Drama" 2000).hashed .ascii "v1" (.leaf before2001) ≠
    (filmOf "Drama" 1999).hashed .ascii "v1" (.leaf before2001) := by
  have hyear : ∀ year, resolvePath ((filmOf "Drama" year).facts .ascii) ["metadata", "releaseYear"] =
      int year := fun _ => rfl
  have hdiffers : resolvePath ((filmOf "Drama" 2000).facts .ascii) ["metadata", "releaseYear"] ≠
      resolvePath ((filmOf "Drama" 1999).facts .ascii) ["metadata", "releaseYear"] := by
    rw [hyear, hyear]
    simp [int]
  have hcatalogue : getCondition "metadata.releaseYear" =
      some { id := "metadata.releaseYear", factPath := ["metadata", "releaseYear"] } := by rfl
  exact (drift_seen_iff .ascii faithful_ascii 500 0 (reportOn before2001) (.leaf before2001) "v1" rfl
    (by rfl) (filmOf "Drama" 2000) (filmOf "Drama" 1999) rfl (filmOf_clean (.inr rfl) _ _ _ _)).2
    (fun _ => .inl (.inr (.inr (.inr (.inr (.inr ⟨_, List.mem_singleton_self _, _, hcatalogue, hdiffers⟩))))))
    (.inr (.inr (.inr (.inr (.inr ⟨_, List.mem_singleton_self _, _, hcatalogue, hdiffers⟩)))))

def dramas : PolicyConditionLeaf := ⟨"metadata.genre", .contains, .string "Drama", false⟩

/-- To a policy on dramas, a film that is no drama any more has the string it had. -/
theorem genre_missed : (validatePolicyDocument .ascii 500 0 (reportOn dramas)).valid = true ∧
    Clean .ascii [dramas.field] (filmOf "Drama" 2000) (filmOf "Horror" 2000) ∧
    DiffersIn .ascii (collectFieldIds (.leaf dramas)) (filmOf "Drama" 2000) (filmOf "Horror" 2000) ∧
    (filmOf "Drama" 2000).hashed .ascii "v1" (.leaf dramas) =
      (filmOf "Horror" 2000).hashed .ascii "v1" (.leaf dramas) := by
  have hgenres : ∀ genre, resolvePath ((filmOf genre 2000).facts .ascii) ["metadata", "genres"] =
      .array [.string genre] := fun _ => rfl
  have hcatalogue : getCondition "metadata.genre" =
      some { id := "metadata.genre", factPath := ["metadata", "genres"] } := by rfl
  refine ⟨by rfl, filmOf_clean (.inl rfl) _ _ _ _, ?_, by rfl⟩
  refine .inr (.inr (.inr (.inr (.inr ⟨_, List.mem_singleton_self _, _, hcatalogue, ?_⟩))))
  rw [hgenres, hgenres]
  simp

/-- Among identities that are not clean, a comma in an id reads as one between two of them. -/
example :
    let film (ids : List (String × String)) : FileState :=
      { filmOf "Drama" 2000 with item := { id := "item", libraryId := "films", externalIds := ids } }
    (film [("tmdb", "1"), ("tvdb", "2")]).hashed .ascii "v1" (.leaf dramas) =
      (film [("tmdb", "1,tvdb:2")]).hashed .ascii "v1" (.leaf dramas) := rfl

end UltraTorrent.Cleanup.MissedDrift
