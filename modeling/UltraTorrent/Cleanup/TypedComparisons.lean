import UltraTorrent.Cleanup.FactAssembly
import UltraTorrent.Cleanup.PolicyValidator

/-! What an accepted condition says, by the type of its field, and when the evaluator answers so.
Numbers, booleans and texts are compared as what they are. A date is compared with the text it was
authored as, which reads as no number, and a resolution class with its label where the fact is an
ordinal, except by the operators of order. -/
namespace UltraTorrent.Cleanup.TypedComparisons

open Library.EcmaScript Library.Kleene
open PlaybackAggregate (PlaybackAggregateFacts)
open Workflows.ConditionEval ConditionCatalog PolicyEvaluator PolicyDocument PolicyValidator FactAssembly

/-! ### Typed comparisons -/

/-- An operator between two values of one ordered kind. -/
def ordered (op : ConditionOperator) (a b : Numeric) : Bool :=
  match op with
  | .eq => a.eq b
  | .neq => !a.eq b
  | .gt => b.lt a
  | .gte => b.le a
  | .lt => a.lt b
  | .lte => a.le b
  | _ => false

/-- The field whose fact is an ordinal and whose values are labels. -/
def ladderField : String := "technical.resolutionClass"

/-- The place of an authored resolution class on the ladder. -/
def tier : Value → Option Numeric
  | .number n => some n
  | .string s => (resolutionClasses.idxOf? s).map fun i => .fin i
  | _ => none

/-- The ordinal a fact of the ladder is; nothing compares with another fact. -/
def ordinal : Value → Numeric
  | .number n => n
  | _ => .nan

def sameValue : Value → Value → Bool
  | .bool a, .bool b => a = b
  | .string a, .string b => a = b
  | _, _ => false

section Dates

-- What an ISO date says; `none` for a text that is none.
variable (dateOf : String → Option Instant)

/-- Nothing stands in an order to a text that is no date. -/
def comparesDate (op : ConditionOperator) (t : Instant) (text : String) : Bool :=
  match dateOf text with
  | some u => ordered op (.fin t) (.fin u)
  | none => op = .neq

def comparesTier (op : ConditionOperator) (n : Numeric) (value : Value) : Bool :=
  match tier value with
  | some m => ordered op n m
  | none => op = .neq

/-- The comparison of a condition outside the ladder, by the type the catalogue gives its field. -/
def comparesAs (dataType : ConditionDataType) (op : ConditionOperator) (actual value : Value) : Bool :=
  match dataType, actual, value with
  | .number, .number a, .number b => ordered op a b
  | .date, .date t, .string text => comparesDate dateOf op t text
  | _, _, _ => if op = .eq then sameValue actual value
    else if op = .neq then !sameValue actual value else false

/-- The comparison a condition asks for. -/
def typedComparison (field : String) (dataType : ConditionDataType) (op : ConditionOperator)
    (actual value : Value) : Bool :=
  if field = ladderField then comparesTier op (ordinal actual) value
  else comparesAs dateOf dataType op actual value

end Dates

def OfType : ConditionDataType → Value → Prop
  | .number, actual => ∃ n, actual = .number n
  | .date, actual => ∃ t, actual = .date t
  | .boolean, actual => ∃ b, actual = .bool b
  | .string, actual | .enum, actual => ∃ s, actual = .string s
  | .strings, actual => ∃ elements, actual = .array elements

def HasType (field : String) (dataType : ConditionDataType) (actual : Value) : Prop :=
  if field = ladderField then ∃ i : ℕ, actual = .number (.fin i) else OfType dataType actual

/-- On every record with the fact, measured where it must be, the leaf matches just when its
comparison holds. -/
def MeansWhatItSays (rt : Runtime) (dateOf : String → Option Instant)
    (definition : CleanupConditionDefinition) (dataType : ConditionDataType)
    (node : PolicyConditionLeaf) : Prop :=
  ∀ facts : EvaluationFacts,
    (definition.requiresMeasuredData = true → node.allowInferred = true ∨ isMeasured facts = true) →
    HasType node.field dataType (resolvePath facts definition.factPath) →
      ((evaluatePolicy rt (.leaf node) facts).outcome = .yes ↔
        typedComparison dateOf node.field dataType node.operator
          (resolvePath facts definition.factPath) node.value = true)

/-- A date stands to every instant as the number its text reads as, or is compared for equality and
is no date; and no label of a resolution class is compared for equality. -/
def Reliable (rt : Runtime) (dateOf : String → Option Instant) (dataType : ConditionDataType)
    (node : PolicyConditionLeaf) : Prop :=
  match dataType, node.value with
  | .date, .string text =>
    if isOrdinal node.operator then
      ∀ t : Instant, ordered node.operator (.fin t) (rt.numberOfString text) =
        comparesDate dateOf node.operator t text
    else dateOf text = none
  | .enum, .string _ => node.field = ladderField → isOrdinal node.operator = true
  | _, _ => True

variable {rt : Runtime} {dateOf : String → Option Instant} {definition : CleanupConditionDefinition}
  {dataType : ConditionDataType} {operators : List ConditionOperator} {node : PolicyConditionLeaf}
  {facts : EvaluationFacts} {path : String}

/-! ### The catalogue -/

/-- What a scale, a measurement and an order among labels go with. -/
def regular (d : CleanupConditionDefinition) (dataType : ConditionDataType)
    (operators : List ConditionOperator) : Bool :=
  if d.id = ladderField then
    dataType = .enum && d.factPath = ["technical", "resolutionOrdinal"] &&
      d.enumValues = some resolutionClasses
  else (d.enumValues.isNone || dataType = .enum) && match dataType with
    | .number => true
    | .date => !d.requiresMeasuredData && d.factPath ≠ []
    | .boolean | .enum | .string => operators.all fun op => !isOrdinal op
    | .strings => operators = [.contains]

theorem regular_of_mem (hmem : definition ∈ cleanupConditions)
    (h : signatures.lookup definition.id = some (dataType, operators)) :
    regular definition dataType operators = true := by
  have hall : (cleanupConditions.all fun d =>
      (signatures.lookup d.id).all fun s => regular d s.1 s.2) = true := by rfl
  have hdefinition := List.all_eq_true.1 hall definition hmem
  rwa [h, Option.all_some] at hdefinition

theorem id_of_getCondition {field : String} (h : getCondition field = some definition) :
    definition.id = field := by simpa using List.find?_some h

/-! ### One leaf -/

theorem isNullish_of_hasType {field : String} {actual : Value} (h : HasType field dataType actual) :
    actual.isNullish = false := by
  unfold HasType at h
  split_ifs at h
  · obtain ⟨i, rfl⟩ := h
    rfl
  · cases dataType <;> obtain ⟨x, rfl⟩ := h <;> rfl

/-- A leaf is evaluated by its operator on the value as it was authored, or as an ordinal. -/
theorem outcome_leaf (hdefinition : getCondition node.field = some definition)
    (hmeasured : definition.requiresMeasuredData = true → node.allowInferred = true ∨ isMeasured facts = true)
    (htype : HasType node.field dataType (resolvePath facts definition.factPath)) :
    (evaluatePolicy rt (.leaf node) facts).outcome = .yes ↔
      ∃ value ∈ coerceOrdinalValue definition.enumValues node.operator node.value,
        applyOperator rt node.operator (resolvePath facts definition.factPath) value = true := by
  have houtcome : (evaluatePolicy rt (.leaf node) facts).outcome =
      leafResult rt definition node facts := evaluateLeaf_result hdefinition
  rw [houtcome, leafResult_present hmeasured (isNullish_of_hasType htype)]
  cases coerceOrdinalValue definition.enumValues node.operator node.value with
  | none => simp
  | some value => simp

theorem applyOperator_number {op : ConditionOperator} (hop : op ∈ ordOperators) (a b : Numeric) :
    applyOperator rt op (.number a) (.number b) = ordered op a b := by
  cases op <;> first | rfl | simp [ordOperators] at hop

theorem applyOperator_date {op : ConditionOperator} (hop : op ∈ ordOperators) (t : Instant)
    (text : String) : applyOperator rt op (.date t) (.string text) =
      if isOrdinal op then ordered op (.fin t) (rt.numberOfString text) else decide (op = .neq) := by
  cases op <;> first | rfl | simp [ordOperators] at hop

theorem eq_or_neq {op : ConditionOperator} (hop : op ∈ ordOperators) (hordinal : isOrdinal op = false) :
    op = .eq ∨ op = .neq := by
  cases op <;> simp [ordOperators, isOrdinal] at hop hordinal ⊢

theorem strictEq_eq_sameValue {actual : Value}
    (h : (∃ b, actual = .bool b) ∨ ∃ s, actual = .string s) (value : Value) :
    actual.strictEq value = sameValue actual value := by
  rcases h with ⟨b, rfl⟩ | ⟨s, rfl⟩ <;> cases value <;> rfl

/-- A record with one fact. -/
def recordWith : List String → Value → Value
  | [], actual => actual
  | key :: path, actual => .object [(key, recordWith path actual)]

theorem resolvePath_recordWith {path : List String} (hpath : path ≠ []) (actual : Value) :
    resolvePath (recordWith path actual) path = actual := by
  have hfold : ∀ path : List String, path.foldl (fun (cur : Value) key => cur.get key) (recordWith path actual) =
      actual := by
    intro path
    induction path with
    | nil => rfl
    | cons key rest ih => simpa [recordWith, Value.get] using ih
  cases path with
  | nil => exact absurd rfl hpath
  | cons key rest => exact hfold (key :: rest)

/-! ### By type -/

/-- A field outside the ladder, and outside the enumerations when it is compared by order, is
evaluated on the value as it was authored. -/
theorem means_plain (hdefinition : getCondition node.field = some definition)
    (hplain : definition.enumValues = none ∨ isOrdinal node.operator = false)
    (h : ∀ actual, HasType node.field dataType actual →
      applyOperator rt node.operator actual node.value =
        typedComparison dateOf node.field dataType node.operator actual node.value) :
    MeansWhatItSays rt dateOf definition dataType node := by
  intro facts hmeasured htype
  rw [outcome_leaf hdefinition hmeasured htype, coerceOrdinalValue_plain hplain, ← h _ htype]
  simp

theorem means_number (hdefinition : getCondition node.field = some definition)
    (hfield : node.field ≠ ladderField) (hplain : definition.enumValues = none)
    (hop : node.operator ∈ ordOperators) (hvalue : Accepted (validateValue .number node path)) :
    MeansWhatItSays rt dateOf definition .number node := by
  refine means_plain hdefinition (.inl hplain) fun actual htype => ?_
  unfold HasType at htype
  rw [if_neg hfield] at htype
  obtain ⟨a, rfl⟩ := htype
  unfold validateValue at hvalue
  cases hnode : node.value with
  | number b =>
    rw [applyOperator_number hop, typedComparison, if_neg hfield]
    rfl
  | _ =>
    rw [hnode] at hvalue
    exact absurd hvalue not_accepted_err

theorem means_equality (hdefinition : getCondition node.field = some definition)
    (hfield : node.field ≠ ladderField) (hop : node.operator ∈ ordOperators)
    (hordinal : isOrdinal node.operator = false)
    (hdataType : dataType = .boolean ∨ dataType = .string ∨ dataType = .enum) :
    MeansWhatItSays rt dateOf definition dataType node := by
  refine means_plain hdefinition (.inr hordinal) fun actual htype => ?_
  have hactual : (∃ b, actual = .bool b) ∨ ∃ s, actual = .string s := by
    unfold HasType at htype
    rw [if_neg hfield] at htype
    rcases hdataType with rfl | rfl | rfl
    · exact .inl htype
    · exact .inr htype
    · exact .inr htype
  have htyped : typedComparison dateOf node.field dataType node.operator actual node.value =
      if node.operator = .eq then sameValue actual node.value
      else if node.operator = .neq then !sameValue actual node.value else false := by
    rw [typedComparison, if_neg hfield]
    rcases hdataType with rfl | rfl | rfl <;> rfl
  rw [htyped]
  rcases eq_or_neq hop hordinal with hop | hop <;> rw [hop]
  · exact strictEq_eq_sameValue hactual _
  · exact congrArg not (strictEq_eq_sameValue hactual _)

theorem means_date_iff {text : String} (hdefinition : getCondition node.field = some definition)
    (hfield : node.field ≠ ladderField) (hplain : definition.enumValues = none)
    (hunmeasured : definition.requiresMeasuredData = false) (hpath : definition.factPath ≠ [])
    (hvalue : node.value = .string text) :
    MeansWhatItSays rt dateOf definition .date node ↔ ∀ t : Instant,
      applyOperator rt node.operator (.date t) (.string text) =
        comparesDate dateOf node.operator t text := by
  have htyped : ∀ t : Instant, typedComparison dateOf node.field .date node.operator (.date t)
      node.value = comparesDate dateOf node.operator t text := by
    intro t
    rw [typedComparison, if_neg hfield, hvalue]
    rfl
  have hdate : ∀ t : Instant, HasType node.field .date (.date t) := by
    intro t
    rw [HasType, if_neg hfield]
    exact ⟨t, rfl⟩
  constructor
  · intro h t
    have hfact := resolvePath_recordWith hpath (.date t)
    have hmeasured : definition.requiresMeasuredData = true →
        node.allowInferred = true ∨ isMeasured (recordWith definition.factPath (.date t)) = true := by
      intro hrequires
      rw [hunmeasured] at hrequires
      cases hrequires
    have ht := h (recordWith definition.factPath (.date t)) hmeasured (hfact.symm ▸ hdate t)
    rw [outcome_leaf hdefinition hmeasured (hfact.symm ▸ hdate t), hfact, htyped,
      coerceOrdinalValue_plain (.inl hplain), hvalue] at ht
    exact Bool.eq_iff_iff.2 (by simpa using ht)
  · intro h
    refine means_plain hdefinition (.inl hplain) fun actual htype => ?_
    unfold HasType at htype
    rw [if_neg hfield] at htype
    obtain ⟨t, rfl⟩ := htype
    rw [htyped, hvalue, h t]

theorem reliable_date_iff {text : String} (hop : node.operator ∈ ordOperators)
    (hvalue : node.value = .string text) :
    Reliable rt dateOf .date node ↔ ∀ t : Instant,
      applyOperator rt node.operator (.date t) (.string text) =
        comparesDate dateOf node.operator t text := by
  simp only [applyOperator_date hop]
  unfold Reliable
  rw [hvalue]
  dsimp only
  cases hordinal : isOrdinal node.operator with
  | true => simp
  | false =>
    simp only [Bool.false_eq_true, if_false]
    unfold comparesDate
    cases hdate : dateOf text with
    | none => simp
    | some u =>
      refine ⟨nofun, fun h => ?_⟩
      have hu := h u
      rcases eq_or_neq hop hordinal with hop | hop <;> rw [hop] at hu <;> simp [ordered] at hu

theorem coerceOrdinalValue_ladder {op : ConditionOperator} (hordinal : isOrdinal op = true)
    (value : Value) :
    coerceOrdinalValue (some resolutionClasses) op value = (tier value).map .number := by
  unfold coerceOrdinalValue
  simp only [hordinal, Bool.not_true, Bool.false_eq_true, if_false]
  cases value <;> first | rfl | simp [tier]

theorem means_ladder (hdefinition : getCondition node.field = some definition)
    (hfield : node.field = ladderField) (henum : definition.enumValues = some resolutionClasses)
    (hop : node.operator ∈ ordOperators) (hordinal : isOrdinal node.operator = true) :
    MeansWhatItSays rt dateOf definition dataType node := by
  intro facts hmeasured htype
  rw [outcome_leaf hdefinition hmeasured htype, henum, coerceOrdinalValue_ladder hordinal,
    typedComparison, if_pos hfield, comparesTier]
  unfold HasType at htype
  rw [if_pos hfield] at htype
  obtain ⟨i, hi⟩ := htype
  rw [hi]
  have hneq : node.operator ≠ .neq := by
    intro hneq
    rw [hneq] at hordinal
    cases hordinal
  cases tier node.value with
  | none => simp [hneq]
  | some n => simp [applyOperator_number hop, ordinal]

/-- A probed file of the class at a place of the ladder. -/
def probed (i : ℕ) : EvaluationFacts :=
  .object [("technical", .object [("techSource", .string "probe"),
    ("resolutionOrdinal", .number (.fin i))])]

/-- For equality the ordinal is compared with the value as it was authored, so that no label is one. -/
theorem means_ladder_iff (hdefinition : getCondition node.field = some definition)
    (hfield : node.field = ladderField) (henum : definition.enumValues = some resolutionClasses)
    (hpath : definition.factPath = ["technical", "resolutionOrdinal"])
    (hop : node.operator ∈ ordOperators) (hordinal : isOrdinal node.operator = false)
    (haccepted : Accepted (validateEnum definition.enumValues node path)) :
    MeansWhatItSays rt dateOf definition dataType node ↔ ∀ label, node.value ≠ .string label := by
  have hoperator := eq_or_neq hop hordinal
  have htyped : ∀ actual, typedComparison dateOf node.field dataType node.operator actual node.value =
      comparesTier node.operator (ordinal actual) node.value := by
    intro actual
    rw [typedComparison, if_pos hfield]
  constructor
  · intro h label hvalue
    have hlabel : label ∈ resolutionClasses := by
      rw [henum] at haccepted
      unfold validateEnum at haccepted
      rw [hvalue] at haccepted
      exact List.contains_iff_mem.1 (ok_of_accepted haccepted)
    obtain ⟨i, hi⟩ := Option.isSome_iff_exists.1 (List.isSome_idxOf?.2 hlabel)
    have hfact : resolvePath (probed i) definition.factPath = .number (.fin i) := by
      rw [hpath]
      rfl
    have htype : HasType node.field dataType (resolvePath (probed i) definition.factPath) := by
      unfold HasType
      rw [if_pos hfield]
      exact ⟨i, hfact⟩
    have hprobed := h (probed i) (fun _ => .inr rfl) htype
    rw [outcome_leaf hdefinition (fun _ => .inr rfl) htype, coerceOrdinalValue_plain (.inr hordinal),
      htyped, hfact, hvalue] at hprobed
    rcases hoperator with hop | hop <;>
      simp [hop, comparesTier, tier, hi, ordinal, ordered, applyOperator, Value.strictEq] at hprobed
  · intro hlabel facts hmeasured htype
    rw [outcome_leaf hdefinition hmeasured htype, coerceOrdinalValue_plain (.inr hordinal), htyped]
    unfold HasType at htype
    rw [if_pos hfield] at htype
    obtain ⟨i, hi⟩ := htype
    rw [hi]
    cases hvalue : node.value with
    | string label => exact absurd hvalue (hlabel label)
    | number n => simp [applyOperator_number hop, comparesTier, tier, ordinal]
    | _ =>
      rcases hoperator with hop | hop <;>
        simp [hop, comparesTier, tier, applyOperator, Value.strictEq]

theorem ladder_iff_reliable (hdefinition : getCondition node.field = some definition)
    (hfield : node.field = ladderField) (henum : definition.enumValues = some resolutionClasses)
    (hpath : definition.factPath = ["technical", "resolutionOrdinal"])
    (hop : node.operator ∈ ordOperators)
    (haccepted : Accepted (validateEnum definition.enumValues node path)) :
    MeansWhatItSays rt dateOf definition .enum node ↔ Reliable rt dateOf .enum node := by
  cases hordinal : isOrdinal node.operator with
  | true =>
    refine iff_of_true (means_ladder hdefinition hfield henum hop hordinal) ?_
    unfold Reliable
    cases node.value with
    | string label => exact fun _ => hordinal
    | _ => trivial
  | false =>
    rw [means_ladder_iff hdefinition hfield henum hpath hop hordinal haccepted]
    unfold Reliable
    cases node.value with
    | string label => simp [hfield, hordinal]
    | _ => exact iff_of_true nofun trivial

theorem date_iff_reliable (hdefinition : getCondition node.field = some definition)
    (hfield : node.field ≠ ladderField) (hplain : definition.enumValues = none)
    (hunmeasured : definition.requiresMeasuredData = false) (hpath : definition.factPath ≠ [])
    (hop : node.operator ∈ ordOperators) (haccepted : Accepted (validateValue .date node path)) :
    MeansWhatItSays rt dateOf definition .date node ↔ Reliable rt dateOf .date node := by
  unfold validateValue at haccepted
  cases hvalue : node.value with
  | string text =>
    rw [means_date_iff hdefinition hfield hplain hunmeasured hpath hvalue, reliable_date_iff hop hvalue]
  | _ =>
    rw [hvalue] at haccepted
    exact absurd haccepted not_accepted_err

theorem reliable_of_ne (hfield : node.field ≠ ladderField) (hdate : dataType ≠ .date) :
    Reliable rt dateOf dataType node := by
  unfold Reliable
  cases dataType with
  | date => exact absurd rfl hdate
  | enum =>
    cases node.value with
    | string label => exact fun hladder => absurd hladder hfield
    | _ => trivial
  | _ => trivial

/-- An accepted condition under an operator of equality or order means what it says just when it is
reliable. -/
theorem means_iff_reliable (rt : Runtime) (dateOf : String → Option Instant) (bytes : ℕ) (now : Instant)
    (doc : CleanupPolicyDocument) (conditions : PolicyConditionNode) (node : PolicyConditionLeaf)
    (hconditions : doc.conditions = some conditions)
    (hvalid : (validatePolicyDocument rt bytes now doc).valid = true)
    (hnode : node ∈ conditions.leaves) (hop : node.operator ∈ ordOperators) :
    ∃ definition dataType operators, getCondition node.field = some definition ∧
      signatures.lookup node.field = some (dataType, operators) ∧
      (MeansWhatItSays rt dateOf definition dataType node ↔ Reliable rt dateOf dataType node) := by
  obtain ⟨path, haccepted⟩ := accepted_leaf (accepted_conditions hconditions hvalid) hnode
  obtain ⟨definition, dataType, operators, hdefinition, hsignature, hoperator, hvalue, henum⟩ :=
    leaf_of_accepted haccepted
  refine ⟨definition, dataType, operators, hdefinition, hsignature, ?_⟩
  have hid := id_of_getCondition hdefinition
  have hregular := regular_of_mem (List.mem_of_find?_eq_some hdefinition) (hid ▸ hsignature)
  unfold regular at hregular
  rw [hid] at hregular
  split_ifs at hregular with hfield
  · simp only [Bool.and_eq_true, decide_eq_true_eq] at hregular
    obtain ⟨⟨rfl, hpath⟩, hscale⟩ := hregular
    exact ladder_iff_reliable hdefinition hfield hscale hpath hop henum
  · obtain ⟨hscale, hregular⟩ := Bool.and_eq_true_iff.1 hregular
    have hplain : dataType ≠ .enum → definition.enumValues = none := by simpa [imp_iff_or_not] using hscale
    by_cases hdate : dataType = .date
    · subst hdate
      simp only [Bool.and_eq_true, Bool.not_eq_true', decide_eq_true_eq] at hregular
      exact date_iff_reliable hdefinition hfield (hplain nofun) hregular.1 hregular.2 hop hvalue
    · refine iff_of_true ?_ (reliable_of_ne hfield hdate)
      cases dataType with
      | date => exact absurd rfl hdate
      | number => exact means_number hdefinition hfield (hplain nofun) hop hvalue
      | strings =>
        rw [of_decide_eq_true hregular, List.mem_singleton] at hoperator
        rw [hoperator] at hop
        simp [ordOperators] at hop
      | _ =>
        have hordinal : isOrdinal node.operator = false := by
          simpa using List.all_eq_true.1 hregular _ hoperator
        exact means_equality hdefinition hfield hop hordinal (by simp)

/-- What the witnesses read as a date. -/
def newYear (text : String) : Option Instant :=
  if text = "2020-01-01" then some 1577836800000 else none

def reportOn (node : PolicyConditionLeaf) : CleanupPolicyDocument where
  schemaVersion := 1
  conditions := some (.leaf node)
  exclusions := some {}
  action := some { mode := .reportOnly, destination := .quarantine }

def before2001 : PolicyConditionLeaf := ⟨"metadata.releaseYear", .lt, .number (.fin 2001), false⟩

theorem before2001_means : MeansWhatItSays .ascii newYear
    { id := "metadata.releaseYear", factPath := ["metadata", "releaseYear"] } .number before2001 := by
  obtain ⟨definition, dataType, operators, hdefinition, hsignature, hiff⟩ :=
    means_iff_reliable .ascii newYear 500 0 (reportOn before2001) (.leaf before2001) before2001 rfl
      (by rfl) (List.mem_singleton_self _) (by decide)
  have hcatalogue : getCondition before2001.field =
      some { id := "metadata.releaseYear", factPath := ["metadata", "releaseYear"] } := by rfl
  have hnumber : signatures.lookup before2001.field = some (.number, ordOperators) := by rfl
  cases hcatalogue.symm.trans hdefinition
  cases hnumber.symm.trans hsignature
  exact hiff.2 trivial

def not1080p : PolicyConditionLeaf := ⟨"technical.resolutionClass", .neq, .string "1080p", false⟩

def fullHd : RawMediaFile where
  id := "file"
  path := "/media/film.mkv"
  size := 4000000000
  width := some 1920
  height := some 1080
  techSource := some "probe"
  probedAt := some 0

/-- A policy on what is not 1080p matches a file that is. -/
theorem fullHd_matched : (validatePolicyDocument .ascii 500 0 (reportOn not1080p)).valid = true ∧
    ∃ facts, facts = assembleEvaluationFacts .ascii 0 fullHd { id := "item", libraryId := "films" } {} ∧
      (evaluatePolicy .ascii (.leaf not1080p) facts).outcome = .yes ∧
      typedComparison newYear not1080p.field .enum not1080p.operator
        (resolvePath facts ["technical", "resolutionOrdinal"]) not1080p.value = false :=
  ⟨by rfl, _, rfl, by rfl, by rfl⟩

/-! ### Assembled facts -/

theorem ofType_ofOption {α : Type*} {f : α → Value} (h : ∀ a, OfType dataType (f a)) (o : Option α) :
    (Value.ofOption f o).isNullish = true ∨ OfType dataType (.ofOption f o) := by
  cases o with
  | none => exact .inl rfl
  | some a => exact .inr (h a)

theorem ofType_playback {now : Instant} {key : String} {playback : Option PlaybackAggregateFacts}
    (h : ∀ p, ((playbackFacts (some p) now).get key).isNullish = true ∨
      OfType dataType ((playbackFacts (some p) now).get key)) :
    ((playbackFacts playback now).get key).isNullish = true ∨
      OfType dataType ((playbackFacts playback now).get key) := by
  cases playback with
  | none => exact .inl rfl
  | some p => exact h p

theorem ofType_asArray (value : Value) :
    (asArray rt value).isNullish = true ∨ OfType .strings (asArray rt value) := by
  cases value with
  | array elements => exact .inr ⟨_, rfl⟩
  | _ => exact .inl rfl

theorem assembled_hasType (clock : Instant) (file : RawMediaFile) (item : RawMediaItem)
    (ctx : RawContext) : ∀ s ∈ signatures.zip cleanupConditions,
      (resolvePath (assembleEvaluationFacts rt clock file item ctx) s.2.factPath).isNullish = true ∨
        HasType s.1.1 s.1.2.1
          (resolvePath (assembleEvaluationFacts rt clock file item ctx) s.2.factPath) := by
  have int? : ∀ o, (Value.ofOption int o).isNullish = true ∨ OfType .number (.ofOption int o) :=
    ofType_ofOption fun _ => ⟨_, rfl⟩
  have rat? : ∀ o, (Value.ofOption rat o).isNullish = true ∨ OfType .number (.ofOption rat o) :=
    ofType_ofOption fun _ => ⟨_, rfl⟩
  have date? : ∀ o, (Value.ofOption .date o).isNullish = true ∨ OfType .date (.ofOption .date o) :=
    ofType_ofOption fun _ => ⟨_, rfl⟩
  have bool? : ∀ o, (Value.ofOption .bool o).isNullish = true ∨ OfType .boolean (.ofOption .bool o) :=
    ofType_ofOption fun _ => ⟨_, rfl⟩
  have string? : ∀ o, (Value.ofOption .string o).isNullish = true ∨
      OfType .string (.ofOption .string o) := ofType_ofOption fun _ => ⟨_, rfl⟩
  have enum? : ∀ o, (Value.ofOption .string o).isNullish = true ∨
      OfType .enum (.ofOption .string o) := ofType_ofOption fun _ => ⟨_, rfl⟩
  have measured : ∀ measured b : Bool,
      (if measured then Value.bool b else .undefined).isNullish = true ∨
        OfType .boolean (if measured then .bool b else .undefined) := by
    intro measured b
    cases measured with
    | false => exact .inl rfl
    | true => exact .inr ⟨b, rfl⟩
  have ladder : ∀ (measured : Bool) (o : Option ℕ),
      (if measured then Value.ofOption (fun i : ℕ => int i) o else .undefined).isNullish = true ∨
        ∃ i : ℕ, (if measured then Value.ofOption (fun i : ℕ => int i) o else .undefined) =
          .number (.fin i) := by
    intro measured o
    cases measured with
    | false => exact .inl rfl
    | true =>
      cases o with
      | none => exact .inl rfl
      | some i => exact .inr ⟨i, by simp [Value.ofOption, int]⟩
  simp only [signatures, cleanupConditions, List.zip_cons_cons, List.forall_mem_cons,
    List.zip_nil_left, HasType, ladderField, String.reduceEq, if_false, if_true]
  refine ⟨enum? _, int? _, date? _, ofType_asArray _, string? _, string? _, int? _, rat? _, enum? _,
    .inr ⟨_, rfl⟩, .inr ⟨_, rfl⟩, .inr ⟨_, rfl⟩, .inr ⟨_, rfl⟩, ofType_asArray _,
    ofType_playback fun _ => .inr ⟨_, rfl⟩, ofType_playback fun _ => .inr ⟨_, rfl⟩,
    ofType_playback fun _ => .inr ⟨_, rfl⟩, ofType_playback fun _ => .inr ⟨_, rfl⟩,
    ofType_playback fun _ => date? _, ofType_playback fun _ => int? _,
    ofType_playback fun _ => .inr ⟨_, rfl⟩, ofType_playback fun _ => .inr ⟨_, rfl⟩,
    ofType_playback fun _ => .inr ⟨_, rfl⟩, ofType_playback fun _ => .inr ⟨_, rfl⟩,
    ofType_playback fun _ => .inl rfl, ofType_playback fun _ => .inl rfl, ladder _ _, int? _,
    int? _, string? _, int? _, string? _, string? _, measured _ _, string? _, int? _, int? _,
    rat? _, string? _, int? _, .inr ⟨_, rfl⟩, .inr ⟨_, rfl⟩, .inr ⟨_, rfl⟩, date? _, int? _,
    date? _, int? _, int? _, rat? _, .inr ⟨_, rfl⟩, .inr ⟨_, rfl⟩, bool? _, bool? _, rat? _,
    .inr ⟨_, rfl⟩, enum? _, .inr ⟨_, rfl⟩, .inr ⟨_, rfl⟩, .inr ⟨_, rfl⟩, .inr ⟨_, rfl⟩,
    .inr ⟨_, rfl⟩, .inr ⟨_, rfl⟩, .inr ⟨_, rfl⟩, nofun⟩

end UltraTorrent.Cleanup.TypedComparisons
