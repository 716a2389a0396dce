import UltraTorrent.Scheduler.SeedConditions

/-! Seed conditions on torrents that were measured in part: a condition that is met or not met on
some facts is so on any record that holds them, whatever else is measured later. -/
namespace UltraTorrent.Scheduler.PartialFacts

open Library.EcmaScript Library.Kleene Verdict
open SeedConditions

/-- The second record holds every fact of the first, and may hold more. -/
def Extends (facts more : SeedFacts) : Prop :=
  ∀ key, (facts.get key).isNullish = false → more.get key = facts.get key

variable {rt : Runtime} {facts more : SeedFacts}

theorem evaluateChildren_eq_map (children : List SeedConditionNode) :
    evaluateChildren rt facts children = children.map (evaluateSeedConditions rt facts) := by
  induction children with
  | nil => rfl
  | cons child rest ih => rw [evaluateChildren, ih, List.map_cons]

/-- Only a missing fact leaves room for another answer. -/
theorem evaluateLeaf_refines (h : Extends facts more) (node : SeedConditionLeaf) :
    Refines (evaluateLeaf rt facts node) (evaluateLeaf rt more node) := by
  unfold evaluateLeaf
  cases seedConditionById node.field with
  | none => exact .refl _
  | some definition =>
    intro hsettled
    dsimp only at hsettled ⊢
    cases hmissing : (facts.get definition.factKey).isNullish with
    | true => exact absurd (by simp [SeedConditions.compare, hmissing]) hsettled
    | false => rw [h _ hmissing]

theorem evaluateSeedConditions_refines (h : Extends facts more) (node : SeedConditionNode) :
    Refines (evaluateSeedConditions rt facts node) (evaluateSeedConditions rt more node) := by
  induction node using Formula.induction with
  | leaf node =>
    simp only [evaluateSeedConditions]
    exact evaluateLeaf_refines h node
  | all children ih =>
    simp only [evaluateSeedConditions, evaluateChildren_eq_map]
    split_ifs
    · exact .refl _
    · exact .all ih
  | any children ih =>
    simp only [evaluateSeedConditions, evaluateChildren_eq_map]
    split_ifs
    · exact .refl _
    · exact .any ih

/-- A verdict that does not wait for a fact is final; no conditions at all are always met. -/
theorem verdict_final (rt : Runtime) (h : Extends facts more) (node : Option SeedConditionNode)
    {verdict : SeedConditionVerdict} (hsettled : verdict = .yes ∨ verdict = .no)
    (hverdict : node.elim .yes (evaluateSeedConditions rt facts) = verdict) :
    node.elim .yes (evaluateSeedConditions rt more) = verdict := by
  cases node with
  | none => exact hverdict
  | some node =>
    have hne : evaluateSeedConditions rt facts node ≠ .unknown := by
      rcases hsettled with rfl | rfl <;> exact hverdict.trans_ne (by simp)
    exact (evaluateSeedConditions_refines h node hne).trans hverdict

def seeded : SeedFacts := { ratio := some 2 }

/-- The same torrent once its tracker is known. -/
def tracked : SeedFacts := { ratio := some 2, tracker := some "tracker" }

def ratioOrTracker : SeedConditionNode :=
  .any [.leaf ⟨"seed.ratio", .gte, .number (.fin 2)⟩, .leaf ⟨"seed.tracker", .eq, .string "other"⟩]

theorem seeded_extends_tracked : Extends seeded tracked := by
  intro key h
  cases key <;> first | rfl | cases h

theorem ratioOrTracker_final :
    (some ratioOrTracker).elim .yes (evaluateSeedConditions .ascii tracked) = .yes :=
  verdict_final .ascii seeded_extends_tracked (some ratioOrTracker) (.inl rfl) (by decide +kernel)

end UltraTorrent.Scheduler.PartialFacts
