import PlanLowering.Proofs.Tree.PreOrder
import PlanLowering.Tree.Validate

/-!
The check of a tree reports the first violation in pre-order, and nothing else.
-/

namespace PlanLowering

theorem Walk.Settles.discard {σ α : Type} {walk : Walk σ α} {path : NodePath}
    {outcome : Except CompileError α} (hwalk : walk.Settles path outcome) :
    (Functor.discard walk).Settles path (outcome.map fun _ => ()) := by
  have hdiscard : Functor.discard walk = walk >>= fun _ => pure () := rfl
  rw [hdiscard]
  cases outcome with
  | error failure => exact hwalk.bind_error
  | ok a => exact hwalk.bind (settles_pure () path)

/-- A tree with a defect in none of its nodes. -/
inductive TreeNode.Sound {N : Type} [SizeOf N] [TreeNode N] : N → Prop where
  | intro {node : N} (hnode : defect? node = none)
      (hchildren : ∀ child ∈ children node, Sound child) : Sound node

namespace PlanValidator

variable {N : Type} [SizeOf N] [TreeNode N]

/-- The first violation of a tree whose root is at a position. -/
def firstViolation (validator : PlanValidator) : N → NodePath → Option CompileError :=
  TreeNode.firstFault fun path node => validator.violation? node path

theorem firstViolation_eq (validator : PlanValidator) (root : N) (path : NodePath) :
    validator.firstViolation root path =
      (validator.violation? root path).or (TreeNode.firstFaultBelow
        (fun path node => validator.violation? node path) path 0 (TreeNode.children root)) :=
  TreeNode.firstFault_eq _ root path

theorem walk_eq (validator : PlanValidator) (root : N) :
    validator.walk root = (do
      if let some failure := validator.violation? root (← Walk.here) then
        throw failure
      discard (Walk.children ((TreeNode.children root).map validator.walk))) := by
  rw [walk, TreeNode.fold_eq]
  rfl

theorem walk_settles (validator : PlanValidator) (root : N) (path : NodePath) :
    (validator.walk root).Settles path
      ((validator.firstViolation root path).elim (.ok ()) .error) := by
  induction root using TreeNode.induction generalizing path with
  | step node ih =>
      rw [walk_eq, firstViolation_eq]
      refine (Walk.settles_here path).bind ?_
      cases hnode : validator.violation? node path with
      | some failure => exact (Walk.settles_throw failure path).bind_error
      | none =>
          have hbelow := (Walk.settles_children path ih).discard
          have hcollect : path.collect 0 ((TreeNode.children node).map fun child path =>
              (validator.firstViolation child path).elim (.ok ()) .error) = _ :=
            TreeNode.collect_firstFault path 0 fun _ _ _ => rfl
          rw [hcollect] at hbelow
          cases hfirst : TreeNode.firstFaultBelow
              (fun path node => validator.violation? node path) path 0
              (TreeNode.children node) with
          | some failure =>
              rw [hfirst] at hbelow
              exact hbelow
          | none =>
              rw [hfirst] at hbelow
              exact hbelow

/-- A tree is refused with its first violation, and accepted if it has none. -/
theorem validate_eq (validator : PlanValidator) (root : N) :
    validator.validate root =
      (validator.firstViolation root .root).elim (.ok ()) .error := by
  obtain ⟨_, h⟩ := validator.walk_settles root .root ()
  rw [validate, h]

theorem validate_eq_ok_iff {validator : PlanValidator} {root : N} :
    validator.validate root = .ok () ↔
      ∀ place ∈ TreeNode.located root,
        place.1.depth ≤ validator.maxDepth ∧ TreeNode.defect? place.2 = none := by
  have hplace : ∀ place : NodePath × N, validator.violation? place.2 place.1 = none ↔
      place.1.depth ≤ validator.maxDepth ∧ TreeNode.defect? place.2 = none := by
    intro place
    rw [violation?]
    split <;> simp <;> omega
  have hnone : validator.validate root = .ok () ↔
      validator.firstViolation root .root = none := by
    rw [validate_eq]
    cases validator.firstViolation root .root <;> simp
  rw [hnone, firstViolation, TreeNode.firstFault_eq_none_iff]
  exact forall₂_congr fun place _ => hplace place

theorem sound_of_validate {validator : PlanValidator} {root : N}
    (hvalid : validator.validate root = .ok ()) : TreeNode.Sound root := by
  have hnodes : ∀ node ∈ TreeNode.nodes root, TreeNode.defect? node = none := by
    rw [← TreeNode.map_snd_locatedFrom root .root, List.forall_mem_map]
    exact fun place hplace => (validate_eq_ok_iff.mp hvalid place hplace).2
  clear hvalid
  induction root using TreeNode.induction with
  | step node ih =>
      obtain ⟨hnode, hbelow⟩ := TreeNode.forall_mem_nodes_iff.mp hnodes
      exact .intro hnode fun child hchild => ih child hchild (hbelow child hchild)

/-- A sound tree is accepted as soon as the limit is not below its depth. -/
theorem validate_of_sound {validator : PlanValidator} {root : N} (hsound : TreeNode.Sound root)
    (hdepth : ∀ place ∈ TreeNode.located root, place.1.depth ≤ validator.maxDepth) :
    validator.validate root = .ok () := by
  have hnodes : ∀ node ∈ TreeNode.nodes root, TreeNode.defect? node = none := by
    clear hdepth
    induction hsound with
    | intro hnode _ ih => exact TreeNode.forall_mem_nodes_iff.mpr ⟨hnode, ih⟩
  rw [← TreeNode.map_snd_locatedFrom root .root, List.forall_mem_map] at hnodes
  exact validate_eq_ok_iff.mpr fun place hplace => ⟨hdepth place hplace, hnodes place hplace⟩

end PlanValidator

end PlanLowering
