import UltraTorrent.Cleanup.ConditionPushdown

/-! The pushed filter against the evaluator. The filter reads the row's own `createdAt`;
the evaluator counts the age from the earlier of the row and the file. -/
namespace UltraTorrent.Cleanup.PushdownSoundness

open Library.EcmaScript Library.Kleene Library.Sql
open Workflows.ConditionEval ConditionCatalog PolicyEvaluator FactAssembly ConditionPushdown

variable (rt : Runtime) (clock : Instant) (file : RawMediaFile) (item : RawMediaItem)
  (ctx : RawContext)

/-- The row is itself as old as the evaluator takes the file to be, up to the padded day. -/
def RowAgesWithFile (now : Instant) : Prop :=
  ∀ added, earliest item.createdAt file.modifiedAt = some added →
    ∃ created, item.createdAt = some created ∧
      created < now - max 0 ((now - added) / dayMs - 1) * dayMs

/-! ### The facts behind the pushed columns -/

theorem resolve_mediaKind : resolvePath (assembleEvaluationFacts rt clock file item ctx)
    ["metadata", "mediaKind"] = .ofOption .string item.mediaType := rfl

theorem resolve_releaseYear : resolvePath (assembleEvaluationFacts rt clock file item ctx)
    ["metadata", "releaseYear"] = .ofOption int item.year := rfl

theorem resolve_libraryId : resolvePath (assembleEvaluationFacts rt clock file item ctx)
    ["safety", "libraryId"] = .string item.libraryId := rfl

theorem resolve_addedAgeDays : resolvePath (assembleEvaluationFacts rt clock file item ctx)
    ["storage", "addedAgeDays"] =
      .ofOption int (daysBetween (earliest item.createdAt file.modifiedAt) (factInstant clock ctx)) := rfl

variable {rt clock file item ctx} {node : PolicyConditionLeaf} {term : Term Column}

/-- What a leaf on a condition without a scale claims when it answers yes. -/
theorem leaf_holds {facts : EvaluationFacts} (definition : CleanupConditionDefinition)
    (hmem : definition ∈ cleanupConditions) (hfield : node.field = definition.id)
    (hplain : definition.enumValues = none ∨ isOrdinal node.operator = false)
    (hyes : (evaluateLeaf rt facts node).result = .yes) :
    (resolvePath facts definition.factPath).isNullish = false ∧
      applyOperator rt node.operator (resolvePath facts definition.factPath) node.value = true := by
  have hget : getCondition node.field = some definition := by
    rw [hfield]
    exact getCondition_of_mem definition hmem
  rw [evaluateLeaf_result hget] at hyes
  exact leafResult_yes hyes hplain

theorem textFragment_eq_some {column : Column} {operator : ConditionOperator} {value : Value}
    (h : textFragment column operator value = some term) :
    ∃ s, operator = .eq ∧ value = .string s ∧ term = ⟨column, .equals, .text s⟩ := by
  unfold textFragment at h
  split at h
  · rename_i s
    exact ⟨s, rfl, rfl, (Option.some.inj h).symm⟩
  · cases h

theorem mediaKind_sound (hfield : node.field = "metadata.mediaKind")
    (hterm : textFragment .mediaType node.operator node.value = some term)
    (hyes : (evaluateLeaf rt (assembleEvaluationFacts rt clock file item ctx) node).result = .yes) :
    term.verdict (rowOf item) = .yes := by
  obtain ⟨s, hop, hvalue, rfl⟩ := textFragment_eq_some hterm
  have hmem : _ ∈ cleanupConditions := List.mem_cons_self
  obtain ⟨-, hholds⟩ := leaf_holds _ hmem hfield (.inr (by rw [hop]; rfl)) hyes
  simp only [resolve_mediaKind, hop, hvalue, applyOperator] at hholds
  rw [verdict_eq_yes]
  cases hkind : item.mediaType with
  | none => simp [hkind, Value.ofOption, Value.strictEq] at hholds
  | some kind =>
    have : kind = s := by simpa [hkind, Value.ofOption, Value.strictEq] using hholds
    exact ⟨.text kind, by simp [rowOf, hkind], by simp [Comparison.test, this]⟩

theorem libraryId_sound (hfield : node.field = "safety.libraryId")
    (hterm : textFragment .libraryId node.operator node.value = some term)
    (hyes : (evaluateLeaf rt (assembleEvaluationFacts rt clock file item ctx) node).result = .yes) :
    term.verdict (rowOf item) = .yes := by
  obtain ⟨s, hop, hvalue, rfl⟩ := textFragment_eq_some hterm
  obtain ⟨-, hholds⟩ := leaf_holds { id := "safety.libraryId", factPath := ["safety", "libraryId"] }
    (by simp [cleanupConditions]) hfield (.inl rfl) hyes
  simp only [resolve_libraryId, hop, hvalue, applyOperator] at hholds
  have : item.libraryId = s := by simpa [Value.strictEq] using hholds
  rw [verdict_eq_yes]
  exact ⟨.text item.libraryId, rfl, by simp [Comparison.test, this]⟩

theorem releaseYear_sound (hfield : node.field = "metadata.releaseYear")
    (hterm : yearFragment node.operator node.value = some term)
    (hyes : (evaluateLeaf rt (assembleEvaluationFacts rt clock file item ctx) node).result = .yes) :
    term.verdict (rowOf item) = .yes := by
  obtain ⟨hpresent, hholds⟩ := leaf_holds
    { id := "metadata.releaseYear", factPath := ["metadata", "releaseYear"] }
    (by simp [cleanupConditions]) hfield (.inl rfl) hyes
  simp only [resolve_releaseYear] at hpresent hholds
  obtain ⟨year, hyear⟩ : ∃ year, item.year = some year := by
    cases h : item.year with
    | none => simp [h, Value.ofOption, Value.isNullish] at hpresent
    | some year => exact ⟨year, rfl⟩
  unfold yearFragment at hterm
  split at hterm
  · rename_i n hn
    rw [hyear, hn] at hholds
    rw [Option.map_eq_some_iff] at hterm
    obtain ⟨comparison, hcomparison, rfl⟩ := hterm
    rw [verdict_eq_yes]
    refine ⟨.number (.fin year), by simp [rowOf, hyear], ?_⟩
    cases hop : node.operator <;>
      simp only [hop, comparisonOf, Option.some.injEq, reduceCtorEq] at hcomparison <;>
      subst hcomparison <;>
      simpa [hop, applyOperator, Value.ofOption, int, Value.strictEq, Comparison.test] using hholds
  · cases hterm

/-! ### Ages -/

theorem addedAgeFragment_eq_some {operator : ConditionOperator} {value : Value} {now : Instant}
    (h : addedAgeFragment operator value now = some term) :
    ∃ days, value = .number (.fin days) ∧
      ((operator = .gt ∨ operator = .gte) ∧
          term = ⟨.createdAt, .lt, .timestamp (cutoff now (max 0 (days - 1)))⟩ ∨
        (operator = .lt ∨ operator = .lte) ∧
          term = ⟨.createdAt, .gt, .timestamp (cutoff now (days + 1))⟩) := by
  unfold addedAgeFragment at h
  split at h
  · rename_i days
    refine ⟨days, rfl, ?_⟩
    cases operator <;> simp only [Option.some.injEq, reduceCtorEq] at h <;> simp [h]
  · cases h

theorem addedAge_holds {days : ℚ} (hfield : node.field = "storage.addedAgeDays")
    (hvalue : node.value = .number (.fin days))
    (hyes : (evaluateLeaf rt (assembleEvaluationFacts rt clock file item ctx) node).result = .yes) :
    ∃ added, earliest item.createdAt file.modifiedAt = some added ∧
      applyOperator rt node.operator (int ((factInstant clock ctx - added) / dayMs))
        (.number (.fin days)) = true := by
  obtain ⟨hpresent, hholds⟩ := leaf_holds
    { id := "storage.addedAgeDays", factPath := ["storage", "addedAgeDays"] }
    (by simp [cleanupConditions]) hfield (.inl rfl) hyes
  simp only [resolve_addedAgeDays, hvalue] at hpresent hholds
  cases hadded : earliest item.createdAt file.modifiedAt with
  | none => simp [hadded, daysBetween, Value.ofOption, Value.isNullish] at hpresent
  | some added =>
    refine ⟨added, rfl, ?_⟩
    simpa [hadded, daysBetween, Value.ofOption] using hholds

theorem earliest_le {a b : Option Instant} {added created : Instant}
    (h : earliest a b = some added) (ha : a = some created) : added ≤ created := by
  subst ha
  cases b with
  | none => exact (Option.some.inj h).ge
  | some modified =>
    simp only [earliest, Option.some.injEq] at h
    split_ifs at h with hle
    · exact h.ge
    · rw [← h]; exact (not_le.1 hle).le

/-- An upper bound on the age is safe whatever the row's own date: the row is never older
than the evaluator takes it to be. -/
theorem youngerThan_sound {now added created : Instant} {days : ℚ} (hle : added ≤ created)
    (hage : (((now - added) / dayMs : ℤ) : ℚ) ≤ days) : cutoff now (days + 1) < created := by
  have hback : cutoff now (days + 1) ≤ cutoff now ((now - added) / dayMs + 1 : ℤ) :=
    cutoff_anti now (by push_cast; linarith)
  rw [cutoff_int] at hback
  have hspan := (days_bracket (now - added)).2
  refine lt_of_le_of_lt hback (lt_of_lt_of_le ?_ hle)
  exact sub_lt_comm.1 hspan

theorem olderThan_sound {now added created : Instant} {days : ℚ}
    (hcreated : created < now - max 0 ((now - added) / dayMs - 1) * dayMs)
    (hage : days ≤ ((now - added) / dayMs : ℤ)) : created < cutoff now (max 0 (days - 1)) := by
  have hback : cutoff now (max 0 ((now - added) / dayMs - 1) : ℤ) ≤ cutoff now (max 0 (days - 1)) := by
    apply cutoff_anti
    push_cast
    exact max_le_max le_rfl (by linarith)
  rw [cutoff_int] at hback
  exact lt_of_lt_of_le hcreated hback

theorem addedAge_sound (hages : RowAgesWithFile file item (factInstant clock ctx))
    (hfield : node.field = "storage.addedAgeDays")
    (hterm : addedAgeFragment node.operator node.value (factInstant clock ctx) = some term)
    (hyes : (evaluateLeaf rt (assembleEvaluationFacts rt clock file item ctx) node).result = .yes) :
    term.verdict (rowOf item) = .yes := by
  obtain ⟨days, hvalue, hcase⟩ := addedAgeFragment_eq_some hterm
  obtain ⟨added, hadded, hholds⟩ := addedAge_holds hfield hvalue hyes
  obtain ⟨created, hcreated, haged⟩ := hages added hadded
  rw [verdict_eq_yes]
  rcases hcase with ⟨hop, rfl⟩ | ⟨hop, rfl⟩
  · have hage : days ≤ ((factInstant clock ctx - added) / dayMs : ℤ) := by
      rcases hop with hop | hop <;> simp [hop, applyOperator, int] at hholds
      · exact hholds.le
      · exact hholds
    exact ⟨.timestamp created, by simp [rowOf, hcreated],
      by simpa [Comparison.test] using olderThan_sound haged hage⟩
  · have hage : (((factInstant clock ctx - added) / dayMs : ℤ) : ℚ) ≤ days := by
      rcases hop with hop | hop <;> simp [hop, applyOperator, int] at hholds
      · exact hholds.le
      · exact hholds
    exact ⟨.timestamp created, by simp [rowOf, hcreated],
      by simpa [Comparison.test] using youngerThan_sound (earliest_le hadded hcreated) hage⟩

/-! ### The filter -/

theorem fragment_sound (hages : RowAgesWithFile file item (factInstant clock ctx))
    (hterm : fragmentFor (factInstant clock ctx) node = some term)
    (hyes : (evaluateLeaf rt (assembleEvaluationFacts rt clock file item ctx) node).result = .yes) :
    term.verdict (rowOf item) = .yes := by
  unfold fragmentFor at hterm
  split_ifs at hterm with hkind hlibrary hyear hage
  · exact mediaKind_sound hkind hterm hyes
  · exact libraryId_sound hlibrary hterm hyes
  · exact releaseYear_sound hyear hterm hyes
  · exact addedAge_sound hages hage hterm hyes

theorem pushdown_sound (hages : RowAgesWithFile file item (factInstant clock ctx))
    {conditions : PolicyConditionNode}
    (hmatched : (evaluatePolicy rt conditions (assembleEvaluationFacts rt clock file item ctx)).outcome
      = .yes) :
    Satisfies (rowOf item) (buildPushdownWhere (some conditions) (factInstant clock ctx)) := by
  rw [satisfies_iff]
  intro term hterm
  simp only [buildPushdownWhere, Option.map_some, Option.getD_some, collect, List.mem_filterMap] at hterm
  obtain ⟨node, hnode, hfragment⟩ := hterm
  have hyes := Formula.spine_of_eval_yes _ conditions hmatched node hnode
  exact fragment_sound hages hfragment hyes

theorem fragmentFor_libraryId {now : Instant} (h : fragmentFor now node = some term)
    (hcolumn : term.column = .libraryId) :
    node.field = "safety.libraryId" ∧ ∃ id, term = ⟨.libraryId, .equals, .text id⟩ := by
  unfold fragmentFor at h
  split_ifs at h with hkind hlibrary hyear hage
  · obtain ⟨s, -, -, rfl⟩ := textFragment_eq_some h
    cases hcolumn
  · obtain ⟨s, -, -, rfl⟩ := textFragment_eq_some h
    exact ⟨hlibrary, s, rfl⟩
  · unfold yearFragment at h
    split at h
    · obtain ⟨comparison, -, rfl⟩ := Option.map_eq_some_iff.1 h
      cases hcolumn
    · cases h
  · obtain ⟨days, -, ⟨-, rfl⟩ | ⟨-, rfl⟩⟩ := addedAgeFragment_eq_some h <;> cases hcolumn

/-- A tree said to bound the run matches in one library only. -/
theorem boundsLibrary_bounds {conditions : PolicyConditionNode} {now : Instant}
    (h : boundsLibrary (some conditions) now = true) :
    ∃ id, ∀ rt clock file item ctx,
      (evaluatePolicy rt conditions (assembleEvaluationFacts rt clock file item ctx)).outcome = .yes →
        item.libraryId = id := by
  simp only [boundsLibrary, buildPushdownWhere, Option.map_some, Option.getD_some, collect,
    List.any_eq_true, List.mem_filterMap, decide_eq_true_eq] at h
  obtain ⟨term, ⟨node, hnode, hfragment⟩, hcolumn⟩ := h
  obtain ⟨hfield, id, rfl⟩ := fragmentFor_libraryId hfragment hcolumn
  refine ⟨id, fun rt clock file item ctx hmatched => ?_⟩
  have hyes := Formula.spine_of_eval_yes _ conditions hmatched node hnode
  have hterm : textFragment .libraryId node.operator node.value = some ⟨.libraryId, .equals, .text id⟩ := by
    simpa [fragmentFor, hfield] using hfragment
  obtain ⟨stored, hstored, htest⟩ := verdict_eq_yes.1 (libraryId_sound hfield hterm hyes)
  cases hstored
  simpa [Comparison.test] using htest

theorem library_bounds : ∃ id, ∀ rt clock file item ctx, (evaluatePolicy rt
    (.all [.leaf { field := "safety.libraryId", operator := .eq, value := .string "films" }])
    (assembleEvaluationFacts rt clock file item ctx)).outcome = .yes → item.libraryId = id :=
  @boundsLibrary_bounds _ 0 (by decide +kernel)

/-- The condition that asks for exactly the age the evaluator sees. -/
def atLeastDays (days : ℤ) : PolicyConditionLeaf where
  field := "storage.addedAgeDays"
  operator := .gte
  value := .number (.fin days)

theorem atLeastDays_matches {added : Instant}
    (hadded : earliest item.createdAt file.modifiedAt = some added) :
    (evaluatePolicy rt (.leaf (atLeastDays ((factInstant clock ctx - added) / dayMs)))
      (assembleEvaluationFacts rt clock file item ctx)).outcome = .yes := by
  have hget : getCondition "storage.addedAgeDays" =
      some { id := "storage.addedAgeDays", factPath := ["storage", "addedAgeDays"] } :=
    getCondition_of_mem { id := "storage.addedAgeDays", factPath := ["storage", "addedAgeDays"] }
      (by simp [cleanupConditions])
  simp only [evaluatePolicy, Formula.eval_leaf]
  rw [evaluateLeaf_result hget]
  simp [leafResult, resolve_addedAgeDays, hadded, daysBetween, Value.ofOption, int, Value.isNullish,
    coerceOrdinalValue, atLeastDays, applyOperator]

theorem atLeastDays_pushed {days : ℤ} {now : Instant}
    (h : Satisfies (rowOf item) (buildPushdownWhere (some (.leaf (atLeastDays days))) now)) :
    ∃ created, item.createdAt = some created ∧ created < now - max 0 (days - 1) * dayMs := by
  have hpushed : (⟨.createdAt, .lt, .timestamp (cutoff now (max 0 ((days : ℚ) - 1)))⟩ : Term Column) ∈
      buildPushdownWhere (some (.leaf (atLeastDays days))) now := by
    simp [buildPushdownWhere, collect, Formula.spine, fragmentFor, atLeastDays, addedAgeFragment]
  obtain ⟨stored, hstored, htest⟩ := verdict_eq_yes.1 (satisfies_iff.1 h _ hpushed)
  simp only [rowOf, Option.map_eq_some_iff] at hstored
  obtain ⟨created, hcreated, rfl⟩ := hstored
  refine ⟨created, hcreated, ?_⟩
  have hcutoff : cutoff now (max 0 ((days : ℚ) - 1)) = now - max 0 (days - 1) * dayMs := by
    rw [← cutoff_int]
    push_cast
    rfl
  simpa [Comparison.test, hcutoff] using htest

variable (rt clock file item ctx)

end UltraTorrent.Cleanup.PushdownSoundness
