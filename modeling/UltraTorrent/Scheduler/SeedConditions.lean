import UltraTorrent.Library.Kleene
import UltraTorrent.Workflows.ConditionEval

/-! Conditions a seeding rule is written against. A verdict is `met`, `not_met` or
`unknown` in the source; here those are the answers of `Verdict`. -/
namespace UltraTorrent.Scheduler.SeedConditions

open Library.EcmaScript Library.Kleene
open Workflows.ConditionEval (ConditionOperator includes)

structure SeedFacts where
  ratio : Option ℚ := none
  ageDays : Option ℚ := none
  sizeBytes : Option ℚ := none
  tracker : Option String := none
  category : Option String := none
  label : Option String := none
  isPrivate : Option Bool := none
  name : Option String := none
  libraryId : Option String := none
  importCompleted : Option Bool := none
  libraryCopyVerified : Option Bool := none
  uploadedBytes : Option ℚ := none
  seedMinutes : Option ℚ := none
  deriving DecidableEq

inductive FactKey where
  | ratio
  | ageDays
  | sizeBytes
  | tracker
  | category
  | label
  | isPrivate
  | name
  | libraryId
  | importCompleted
  | libraryCopyVerified
  | uploadedBytes
  | seedMinutes
  deriving DecidableEq

/-- `facts[key]`. -/
def SeedFacts.get (facts : SeedFacts) : FactKey → Value
  | .ratio => .ofOption (.number <| .fin ·) facts.ratio
  | .ageDays => .ofOption (.number <| .fin ·) facts.ageDays
  | .sizeBytes => .ofOption (.number <| .fin ·) facts.sizeBytes
  | .tracker => .ofOption .string facts.tracker
  | .category => .ofOption .string facts.category
  | .label => .ofOption .string facts.label
  | .isPrivate => .ofOption .bool facts.isPrivate
  | .name => .ofOption .string facts.name
  | .libraryId => .ofOption .string facts.libraryId
  | .importCompleted => .ofOption .bool facts.importCompleted
  | .libraryCopyVerified => .ofOption .bool facts.libraryCopyVerified
  | .uploadedBytes => .ofOption (.number <| .fin ·) facts.uploadedBytes
  | .seedMinutes => .ofOption (.number <| .fin ·) facts.seedMinutes

structure SeedConditionDefinition where
  id : String
  factKey : FactKey
  unavailable : Bool := false
  deriving DecidableEq

def seedConditions : List SeedConditionDefinition :=
  [⟨"seed.ratio", .ratio, false⟩,
   ⟨"seed.ageDays", .ageDays, false⟩,
   ⟨"seed.uploadedBytes", .uploadedBytes, false⟩,
   ⟨"seed.seedMinutes", .seedMinutes, true⟩,
   ⟨"seed.tracker", .tracker, true⟩,
   ⟨"seed.isPrivate", .isPrivate, true⟩,
   ⟨"seed.sizeBytes", .sizeBytes, false⟩,
   ⟨"seed.name", .name, false⟩,
   ⟨"seed.category", .category, false⟩,
   ⟨"seed.label", .label, false⟩,
   ⟨"seed.libraryId", .libraryId, false⟩,
   ⟨"seed.importCompleted", .importCompleted, false⟩,
   ⟨"seed.libraryCopyVerified", .libraryCopyVerified, false⟩]

def seedConditionById (id : String) : Option SeedConditionDefinition :=
  seedConditions.find? (·.id = id)

structure SeedConditionLeaf where
  field : String
  operator : ConditionOperator
  value : Value

abbrev SeedConditionNode := Formula SeedConditionLeaf

abbrev SeedConditionVerdict := Verdict

/-- The ordering operators need both sides to be finite numbers. -/
def compareNumbers (holds : Numeric → Numeric → Bool) (a b : Numeric) : SeedConditionVerdict :=
  if a.isFinite && b.isFinite then .ofBool (holds a b) else .unknown

def compare (rt : Runtime) (operator : ConditionOperator) (actual expected : Value) :
    SeedConditionVerdict :=
  if actual.isNullish then .unknown
  else match operator with
    | .eq => .ofBool (actual.strictEq expected)
    | .neq => .ofBool !actual.strictEq expected
    | .gt => compareNumbers (fun a b => b.lt a) (rt.number actual) (rt.number expected)
    | .gte => compareNumbers (fun a b => b.le a) (rt.number actual) (rt.number expected)
    | .lt => compareNumbers Numeric.lt (rt.number actual) (rt.number expected)
    | .lte => compareNumbers Numeric.le (rt.number actual) (rt.number expected)
    | .contains => .ofBool <|
        includes (rt.toLowerCase (rt.string actual)) (rt.toLowerCase (rt.string expected))
    | .matches =>
      match rt.regexTest (rt.string expected) (rt.string actual) with
      | some b => .ofBool b
      | none => .unknown
    | .other _ => .unknown

def evaluateLeaf (rt : Runtime) (facts : SeedFacts) (node : SeedConditionLeaf) :
    SeedConditionVerdict :=
  match seedConditionById node.field with
  | none => .unknown
  | some definition => compare rt node.operator (facts.get definition.factKey) node.value

mutual

/-- A group without children is met, whichever kind it is. -/
def evaluateSeedConditions (rt : Runtime) (facts : SeedFacts) :
    SeedConditionNode → SeedConditionVerdict
  | .leaf node => evaluateLeaf rt facts node
  | .all children =>
    if children.isEmpty then .yes else .all (evaluateChildren rt facts children)
  | .any children =>
    if children.isEmpty then .yes else .any (evaluateChildren rt facts children)

def evaluateChildren (rt : Runtime) (facts : SeedFacts) :
    List SeedConditionNode → List SeedConditionVerdict
  | [] => []
  | child :: rest => evaluateSeedConditions rt facts child :: evaluateChildren rt facts rest

end

/-- The fields of a tree nothing on the platform measures, each once, in order of first
appearance. -/
def unmeasurableFields (node : Option SeedConditionNode) : List String :=
  (((node.elim [] Formula.leaves).map SeedConditionLeaf.field).filter fun field =>
    (seedConditionById field).any SeedConditionDefinition.unavailable).eraseDups

end UltraTorrent.Scheduler.SeedConditions
