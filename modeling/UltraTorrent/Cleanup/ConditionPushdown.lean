import UltraTorrent.Cleanup.FactAssembly
import UltraTorrent.Library.Kleene

/-! The selective half of a policy's conditions as a filter over the item's own row. Only
leaves on the conjunctive spine are pushed, and only those backed by a column. -/
namespace UltraTorrent.Cleanup.ConditionPushdown

open Library.EcmaScript Library.Kleene Library.Sql
open Workflows.ConditionEval PolicyEvaluator FactAssembly

/-- The columns of a media item a condition can be pushed to. -/
inductive Column where
  | mediaType
  | libraryId
  | year
  | createdAt
  deriving DecidableEq

def cutoff (now : Instant) (days : ℚ) : Instant := newDate (now - days * dayMs)

def comparisonOf : ConditionOperator → Option Comparison
  | .eq => some .equals
  | .gt => some .gt
  | .gte => some .gte
  | .lt => some .lt
  | .lte => some .lte
  | _ => none

/-- `neq` would exclude a missing value, which the evaluator calls unmeasured. -/
def textFragment (column : Column) (operator : ConditionOperator) (value : Value) :
    Option (Term Column) :=
  match operator, value with
  | .eq, .string s => some ⟨column, .equals, .text s⟩
  | _, _ => none

def yearFragment (operator : ConditionOperator) (value : Value) : Option (Term Column) :=
  match value with
  | .number n => (comparisonOf operator).map fun c => ⟨.year, c, .number n⟩
  | _ => none

/-- Older means earlier, so the comparison turns round; a day is added on the permissive
side because the evaluator counts whole days. -/
def addedAgeFragment (operator : ConditionOperator) (value : Value) (now : Instant) :
    Option (Term Column) :=
  match value with
  | .number (.fin days) =>
    match operator with
    | .gt | .gte => some ⟨.createdAt, .lt, .timestamp (cutoff now (max 0 (days - 1)))⟩
    | .lt | .lte => some ⟨.createdAt, .gt, .timestamp (cutoff now (days + 1))⟩
    | _ => none
  | _ => none

/-- A leaf that cannot be pushed is left to the evaluator. -/
def fragmentFor (now : Instant) (node : PolicyConditionLeaf) : Option (Term Column) :=
  if node.field = "metadata.mediaKind" then textFragment .mediaType node.operator node.value
  else if node.field = "safety.libraryId" then textFragment .libraryId node.operator node.value
  else if node.field = "metadata.releaseYear" then yearFragment node.operator node.value
  else if node.field = "storage.addedAgeDays" then addedAgeFragment node.operator node.value now
  else none

def collect (now : Instant) (conditions : PolicyConditionNode) : List (Term Column) :=
  conditions.spine.filterMap (fragmentFor now)

/-- Nothing pushable restores the load of everything in scope. -/
def buildPushdownWhere (conditions : Option PolicyConditionNode) (now : Instant) :
    List (Term Column) :=
  (conditions.map (collect now)).getD []

/-- Does the tree bound the run to particular libraries? -/
def boundsLibrary (conditions : Option PolicyConditionNode) (now : Instant) : Bool :=
  (buildPushdownWhere conditions now).any (·.column = .libraryId)

/-- What the database compares: the item's row, never its files. -/
def rowOf (item : RawMediaItem) : Row Column
  | .mediaType => item.mediaType.map .text
  | .libraryId => some (.text item.libraryId)
  | .year => item.year.map fun y => .number (.fin y)
  | .createdAt => item.createdAt.map .timestamp

/-! ### Cutoffs -/

theorem cutoff_int (now days : ℤ) : cutoff now days = now - days * dayMs := by
  unfold cutoff
  rw [← newDate_int (now - days * dayMs)]
  push_cast
  rfl

/-- More days reach further back. -/
theorem cutoff_anti (now : Instant) {a b : ℚ} (h : a ≤ b) : cutoff now b ≤ cutoff now a := by
  unfold cutoff
  apply newDate_mono
  have hday : (0 : ℚ) ≤ dayMs := by simp [dayMs]
  have := mul_le_mul_of_nonneg_right h hday
  linarith

theorem days_bracket (span : ℤ) :
    span / dayMs * dayMs ≤ span ∧ span < (span / dayMs + 1) * dayMs := by
  unfold dayMs
  constructor <;> omega

end UltraTorrent.Cleanup.ConditionPushdown
