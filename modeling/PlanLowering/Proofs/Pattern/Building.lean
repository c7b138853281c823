import Mathlib.Data.List.DropRight
import PlanLowering.Proofs.Pattern.Positions

/-!
Patterns built up step by step. Conditions are never lost, whenever they are added; child patterns are
those of the last step that sets all of them, with one more for each later step that adds one. So the
place of a condition among the steps makes no difference.
-/

namespace PlanLowering.Pattern

variable {N : Type} [SizeOf N] [TreeNode N]

/-- A step in the building of a pattern. -/
inductive Step (N : Type) [SizeOf N] [TreeNode N] where
  | condition (holds : N → Bool)
  | child (pattern : Pattern N)
  | children (patterns : List (Pattern N))

namespace Step

def apply (pattern : Pattern N) : Step N → Pattern N
  | condition holds => pattern.withPredicate holds
  | child added => pattern.withChild added
  | children all => pattern.withChildren all

/-- The child pattern that the step adds. -/
def added? : Step N → Option (Pattern N)
  | child added => some added
  | _ => none

/-- The child patterns that the step sets in place of all earlier ones. -/
def replacing? : Step N → Option (List (Pattern N))
  | children all => some all
  | _ => none

end Step

/-- The pattern that some steps make of the one for all nodes of a kind. -/
def build (kind : TreeNode.Kind N) (steps : List (Step N)) : Pattern N :=
  steps.foldl Step.apply (ofKind kind)

theorem build_concat (kind : TreeNode.Kind N) (steps : List (Step N)) (step : Step N) :
    build kind (steps ++ [step]) = step.apply (build kind steps) := by
  rw [build, List.foldl_append]
  rfl

/-- The list that the last replacing step sets, none if there is no such step, and behind it what the
steps after that one add. -/
def childPatterns (steps : List (Step N)) : List (Pattern N) :=
  (steps.filterMap Step.replacing?).getLast?.getD [] ++
    (steps.rtakeWhile fun step => step.replacing?.isNone).filterMap Step.added?

section Concat

variable (steps : List (Step N))

theorem childPatterns_concat_condition (holds : N → Bool) :
    childPatterns (steps ++ [.condition holds]) = childPatterns steps := by
  rw [childPatterns, List.rtakeWhile_concat_pos _ _ _ rfl, List.filterMap_append,
    List.filterMap_append]
  simp [childPatterns, Step.replacing?, Step.added?]

theorem childPatterns_concat_child (pattern : Pattern N) :
    childPatterns (steps ++ [.child pattern]) = childPatterns steps ++ [pattern] := by
  rw [childPatterns, List.rtakeWhile_concat_pos _ _ _ rfl, List.filterMap_append,
    List.filterMap_append]
  simp [childPatterns, Step.replacing?, Step.added?]

theorem childPatterns_concat_children (patterns : List (Pattern N)) :
    childPatterns (steps ++ [.children patterns]) = patterns := by
  rw [childPatterns, List.rtakeWhile_concat_neg _ _ _ (by simp [Step.replacing?]),
    List.filterMap_append]
  simp [Step.replacing?]

end Concat

/-- A condition, wherever it stands among the steps, leaves the child patterns as they are. -/
theorem childPatterns_insert_condition (before after : List (Step N)) (holds : N → Bool) :
    childPatterns (before ++ .condition holds :: after) = childPatterns (before ++ after) := by
  induction after using List.reverseRecOn with
  | nil => rw [childPatterns_concat_condition, List.append_nil]
  | append_singleton after step ih =>
      rw [← List.cons_append, ← List.append_assoc, ← List.append_assoc]
      cases step with
      | condition later => rw [childPatterns_concat_condition, childPatterns_concat_condition, ih]
      | child pattern => rw [childPatterns_concat_child, childPatterns_concat_child, ih]
      | children patterns => rw [childPatterns_concat_children, childPatterns_concat_children]

@[simp] theorem kind_apply (pattern : Pattern N) (step : Step N) :
    (step.apply pattern).kind = pattern.kind := by
  cases pattern
  cases step <;> rfl

theorem kind_build (kind : TreeNode.Kind N) (steps : List (Step N)) :
    (build kind steps).kind = kind := by
  induction steps using List.reverseRecOn with
  | nil => rfl
  | append_singleton steps step ih => rw [build_concat, kind_apply, ih]

theorem children_build (kind : TreeNode.Kind N) (steps : List (Step N)) :
    (build kind steps).children = childPatterns steps := by
  induction steps using List.reverseRecOn with
  | nil => rfl
  | append_singleton steps step ih =>
      rw [build_concat]
      cases hbuild : build kind steps with
      | mk _ predicate patterns =>
          obtain rfl : patterns = childPatterns steps := by rw [← ih, hbuild, children]
          cases step with
          | condition holds => exact (childPatterns_concat_condition steps holds).symm
          | child pattern => exact (childPatterns_concat_child steps pattern).symm
          | children patterns => exact (childPatterns_concat_children steps patterns).symm

/-- What a step asks of a node in addition. -/
theorem meets_apply (pattern : Pattern N) (step : Step N) (node : N) :
    meets (step.apply pattern).predicate node = true ↔
      meets pattern.predicate node = true ∧
        ∀ holds, .condition holds = step → holds node = true := by
  cases pattern
  cases step with
  | condition holds => simp [Step.apply, withPredicate, predicate, meets]
  | child pattern => simp [Step.apply, withChild, predicate]
  | children patterns => simp [Step.apply, withChildren, predicate]

/-- The condition of a built pattern is that all the conditions added hold. -/
theorem meets_build (kind : TreeNode.Kind N) (steps : List (Step N)) (node : N) :
    meets (build kind steps).predicate node = true ↔
      ∀ holds, .condition holds ∈ steps → holds node = true := by
  induction steps using List.reverseRecOn with
  | nil => simp [build, ofKind, predicate, meets]
  | append_singleton steps step ih =>
      rw [build_concat, meets_apply, ih]
      simp only [List.mem_append, List.mem_singleton, or_imp, forall_and]

theorem accepts_build_iff (kind : TreeNode.Kind N) (steps : List (Step N)) (node : N) :
    (build kind steps).accepts node = true ↔ TreeNode.kind node = kind ∧
      (∀ holds, .condition holds ∈ steps → holds node = true) ∧
      (childPatterns steps = [] ∨ (childPatterns steps).length = TreeNode.childCount node ∧
        ∀ (index : Nat) (part : Pattern N), (childPatterns steps)[index]? = some part →
          ∃ child, (TreeNode.children node)[index]? = some child ∧ part.accepts child = true) := by
  rw [accepts_iff_children, kind_build, meets_build, children_build]

/-- A built pattern describes the nodes of its kind that meet every condition added, and whose
children are described one by one by the child patterns, if there are any. Hence a condition may be
added a step earlier or later. -/
theorem build_normal_form (kind : TreeNode.Kind N) :
    (∀ (steps : List (Step N)) (node : N),
      (build kind steps).accepts node = true ↔ TreeNode.kind node = kind ∧
        (∀ holds, .condition holds ∈ steps → holds node = true) ∧
        (childPatterns steps = [] ∨ (childPatterns steps).length = TreeNode.childCount node ∧
          ∀ (index : Nat) (part : Pattern N), (childPatterns steps)[index]? = some part →
            ∃ child, (TreeNode.children node)[index]? = some child ∧
              part.accepts child = true)) ∧
    ∀ (before after : List (Step N)) (holds : N → Bool) (step : Step N) (node : N),
      (build kind (before ++ .condition holds :: step :: after)).accepts node =
        (build kind (before ++ step :: .condition holds :: after)).accepts node := by
  refine ⟨accepts_build_iff kind, fun before after holds step node => ?_⟩
  have hpatterns : childPatterns (before ++ step :: .condition holds :: after) =
      childPatterns (before ++ .condition holds :: step :: after) := by
    rw [childPatterns_insert_condition before, List.append_cons, childPatterns_insert_condition,
      ← List.append_cons]
  have hconditions : ∀ other, .condition other ∈ before ++ step :: .condition holds :: after ↔
      .condition other ∈ before ++ .condition holds :: step :: after :=
    fun _ => (List.Perm.append_left before (.swap _ _ after)).mem_iff
  rw [Bool.eq_iff_iff, accepts_build_iff, accepts_build_iff, hpatterns]
  simp only [hconditions]

end PlanLowering.Pattern
