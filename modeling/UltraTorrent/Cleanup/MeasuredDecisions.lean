import UltraTorrent.Cleanup.PolicyValidator

/-! What a decision of a cleanup policy rests on. A file that matches, or does not, on some of its
facts does so whatever else becomes known of it, and whatever was guessed where nothing was probed;
and a policy that may be published matches nothing without a condition that holds. -/
namespace UltraTorrent.Cleanup.MeasuredDecisions

open Library.EcmaScript Library.Kleene Verdict
open Workflows.ConditionEval ConditionCatalog PolicyEvaluator PolicyDocument PolicyValidator

def probeOnly (path : List String) : Bool :=
  cleanupConditions.any fun d => d.requiresMeasuredData && decide (d.factPath = path)

/-- The second record has every fact of the first, and may have more. What only a probe measures may
be anything there if the first has not been probed. -/
def Agrees (facts more : EvaluationFacts) : Prop :=
  ∀ group key, isMeasured facts = true ∨ probeOnly [group, key] = false →
    ((facts.get group).get key).isNullish = false →
      (more.get group).get key = (facts.get group).get key

variable {rt : Runtime} {facts more : EvaluationFacts} {node : PolicyConditionLeaf}
  {definition : CleanupConditionDefinition}

/-- Every fact is a key of a group, and what a probe measures has a key of its own. -/
theorem factPath_of_mem (h : definition ∈ cleanupConditions) : definition.factPath.length = 2 ∧
    (definition.requiresMeasuredData = true ∨ probeOnly definition.factPath = false) := by
  have hall : (cleanupConditions.all fun d => decide (d.factPath.length = 2) &&
      (d.requiresMeasuredData || !probeOnly d.factPath)) = true := by rfl
  simpa using List.all_eq_true.1 hall definition h

theorem isMeasured_of_agrees (h : Agrees facts more) (hmeasured : isMeasured facts = true) :
    isMeasured more = true := by
  have hsource := h "technical" "techSource" (.inl hmeasured)
  unfold isMeasured at *
  cases hvalue : (facts.get "technical").get "techSource" with
  | string s =>
    rw [hvalue] at hsource hmeasured
    rw [hsource rfl]
    exact hmeasured
  | _ =>
    rw [hvalue] at hmeasured
    cases hmeasured

theorem leafResult_refines (hagree : Agrees facts more) (hmem : definition ∈ cleanupConditions)
    (hinferred : node.allowInferred = false) :
    Refines (leafResult rt definition node facts) (leafResult rt definition node more) := by
  intro hsettled
  unfold leafResult at *
  obtain ⟨hlength, hprobe⟩ := factPath_of_mem hmem
  obtain ⟨group, key, hpath⟩ := List.length_eq_two.1 hlength
  have hresolve : ∀ record : EvaluationFacts,
      resolvePath record definition.factPath = (record.get group).get key := by
    intro record
    rw [hpath]
    rfl
  have hmeasured : definition.requiresMeasuredData = true → isMeasured facts = true := by
    intro hrequires
    by_contra hnot
    simp [hrequires, hinferred, hnot] at hsettled
  have hfact : ((facts.get group).get key).isNullish = false := by
    by_contra hnull
    simp [hresolve, hnull] at hsettled
  have hsame : resolvePath more definition.factPath = resolvePath facts definition.factPath := by
    rw [hresolve, hresolve]
    refine hagree group key ?_ hfact
    rw [hpath] at hprobe
    exact hprobe.imp_left hmeasured
  rw [hsame]
  cases hrequires : definition.requiresMeasuredData with
  | false => rfl
  | true =>
    rw [hmeasured hrequires, isMeasured_of_agrees hagree (hmeasured hrequires)]

theorem evaluateLeaf_refines (hagree : Agrees facts more) (hinferred : node.allowInferred = false) :
    Refines (evaluateLeaf rt facts node).result (evaluateLeaf rt more node).result := by
  cases hdefinition : getCondition node.field with
  | none => simp [evaluateLeaf, hdefinition, Refines]
  | some definition =>
    rw [evaluateLeaf_result hdefinition, evaluateLeaf_result hdefinition]
    exact leafResult_refines hagree (List.mem_of_find?_eq_some hdefinition) hinferred

/-! ### Accepted trees -/

theorem populated_of_validateNode {isAutomatic : Bool} {path : String} {t : PolicyConditionNode}
    (h : Accepted (validateNode isAutomatic path t)) : t.Populated := by
  induction t using Formula.induction generalizing path with
  | leaf node => exact .leaf node
  | all cs ih =>
    rw [validateNode] at h
    obtain ⟨hlength, hchildren⟩ := groupIssues_accepted h
    refine .all (fun hnil => hlength (congrArg List.length hnil)) fun c hc => ?_
    obtain ⟨below, hbelow⟩ := mem_validateChildren hc
    exact ih c hc fun issue hissue => hchildren issue (hbelow issue hissue)
  | any cs ih =>
    rw [validateNode] at h
    obtain ⟨hlength, hchildren⟩ := groupIssues_accepted h
    refine .any (fun hnil => hlength (congrArg List.length hnil)) fun c hc => ?_
    obtain ⟨below, hbelow⟩ := mem_validateChildren hc
    exact ih c hc fun issue hissue => hchildren issue (hbelow issue hissue)

theorem populated_of_valid {bytes : ℕ} {now : Instant} {doc : CleanupPolicyDocument}
    {conditions : PolicyConditionNode} (hconditions : doc.conditions = some conditions)
    (hvalid : (validatePolicyDocument rt bytes now doc).valid = true) : conditions.Populated :=
  populated_of_validateNode (accepted_conditions hconditions hvalid)

/-- What is settled without inferred values stays as it is when more becomes known, and a policy
that is accepted matches by a condition that holds. -/
theorem decision_rests_on_facts (rt : Runtime) (conditions : PolicyConditionNode) :
    (∀ facts more : EvaluationFacts, Agrees facts more →
      (∀ node ∈ conditions.leaves, node.allowInferred = false) →
      (evaluatePolicy rt conditions facts).outcome ≠ .unknown →
        (evaluatePolicy rt conditions more).outcome = (evaluatePolicy rt conditions facts).outcome) ∧
    ∀ (facts : EvaluationFacts) (bytes : ℕ) (now : Instant) (doc : CleanupPolicyDocument),
      doc.conditions = some conditions → (validatePolicyDocument rt bytes now doc).valid = true →
      (evaluatePolicy rt conditions facts).outcome = .yes →
        ∃ trace ∈ (evaluatePolicy rt conditions facts).traces, trace.result = .yes := by
  constructor
  · intro facts more hagree hinferred
    exact conditions.eval_refines fun node hnode => evaluateLeaf_refines hagree (hinferred node hnode)
  · intro facts bytes now doc hconditions hvalid hmatched
    obtain ⟨node, hnode, hyes⟩ := (populated_of_valid hconditions hvalid).exists_leaf hmatched
    exact ⟨_, List.mem_map_of_mem hnode, hyes⟩

/-- An old file, or one that a probe found small. -/
def oldOrSmall : PolicyConditionNode :=
  .any [.leaf ⟨"metadata.releaseYear", .lt, .number (.fin 2001), false⟩,
    .leaf ⟨"technical.width", .lt, .number (.fin 1280), false⟩]

/-- A file whose width was guessed to be `width`. -/
def guessed (width : ℚ) : EvaluationFacts :=
  .object [("metadata", .object [("releaseYear", .number (.fin 1995))]),
    ("technical", .object [("techSource", .string "filename"), ("width", .number (.fin width))])]

def reporting : CleanupPolicyDocument where
  schemaVersion := 1
  conditions := some oldOrSmall
  exclusions := some {}
  action := some { mode := .reportOnly, destination := .quarantine }

theorem guessed_agrees (width width' : ℚ) : Agrees (guessed width) (guessed width') := by
  intro group key hfact _
  have hwidth : probeOnly ["technical", "width"] = true := by rfl
  have hsource : isMeasured (guessed width) = false := by rfl
  by_cases hgroup : group = "technical"
  · have hkey : key ≠ "width" := by
      rintro rfl
      rw [hgroup, hwidth, hsource] at hfact
      simp at hfact
    simp [guessed, Value.get, List.lookup_cons, hgroup, beq_false_of_ne hkey]
  · simp [guessed, Value.get, List.lookup_cons, beq_false_of_ne hgroup]

theorem oldOrSmall_decided : (evaluatePolicy .ascii oldOrSmall (guessed 3840)).outcome = .yes ∧
    ∃ trace ∈ (evaluatePolicy .ascii oldOrSmall (guessed 720)).traces, trace.result = .yes := by
  have hmatched : (evaluatePolicy .ascii oldOrSmall (guessed 720)).outcome = .yes := by rfl
  have hinferred : ∀ node ∈ oldOrSmall.leaves, node.allowInferred = false := by decide
  obtain ⟨hstays, hleaf⟩ := decision_rests_on_facts .ascii oldOrSmall
  exact ⟨(hstays _ _ (guessed_agrees 720 3840) hinferred (by rw [hmatched]; decide)).trans hmatched,
    hleaf _ 0 0 reporting rfl (by rfl) hmatched⟩

end UltraTorrent.Cleanup.MeasuredDecisions
