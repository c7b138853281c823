import PlanLowering.Pattern
import PlanLowering.Proofs.Tree.Positions

/-!
What a pattern says, position by position. A pattern is a tree of its own, and it describes a node
exactly if there is a node below at each position of the pattern, and each part of the pattern agrees
with the node at its position. Of nodes elsewhere it says nothing.
-/

namespace PlanLowering.Pattern

variable {N : Type} [SizeOf N] [TreeNode N]

/-- What holds of a pattern whenever it holds of its child patterns holds of every pattern. -/
theorem induction {motive : Pattern N → Prop}
    (step : ∀ pattern, (∀ child ∈ pattern.children, motive child) → motive pattern)
    (pattern : Pattern N) : motive pattern :=
  step pattern fun child _ => induction step child
termination_by sizeOf pattern
decreasing_by
  cases pattern with
  | mk kind predicate children =>
      have hlt : sizeOf child < sizeOf children := List.sizeOf_lt_of_mem ‹_›
      rw [mk.sizeOf_spec]
      omega

/-- The part of a pattern at a position, if the pattern goes so far. -/
def part? (pattern : Pattern N) (path : NodePath) : Option (Pattern N) :=
  path.indices.foldlM (fun part index => part.children[index]?) pattern

theorem part?_cons (pattern : Pattern N) (index : Nat) (indices : List Nat) :
    pattern.part? ⟨index :: indices⟩ =
      pattern.children[index]?.bind fun child => child.part? ⟨indices⟩ := by
  rw [part?, List.foldlM_cons]
  rfl

/-- The parts of a pattern are the pattern itself and the parts of its child patterns. -/
theorem forall_part_iff {pattern : Pattern N} {motive : NodePath → Pattern N → Prop} :
    (∀ path part, pattern.part? path = some part → motive path part) ↔
      motive .root pattern ∧ ∀ (index : Nat) (child : Pattern N),
        pattern.children[index]? = some child →
          ∀ path part, child.part? path = some part → motive ⟨index :: path.indices⟩ part := by
  constructor
  · intro hall
    refine ⟨hall .root pattern rfl, fun index child hchild path part hpart => hall _ part ?_⟩
    rw [part?_cons, hchild, Option.bind_some]
    exact hpart
  · rintro ⟨hroot, hchildren⟩ ⟨indices⟩ part hpart
    cases indices with
    | nil => exact Option.some.inj hpart ▸ hroot
    | cons index indices =>
        rw [part?_cons] at hpart
        obtain ⟨child, hchild, hbelow⟩ := Option.bind_eq_some_iff.mp hpart
        exact hchildren index child hchild ⟨indices⟩ part hbelow

/-- What a pattern says of the node itself: its kind, the condition on it, and how many children it
has, provided that there are child patterns. -/
structure Describes (pattern : Pattern N) (node : N) : Prop where
  kind : TreeNode.kind node = pattern.kind
  predicate : ∀ holds ∈ pattern.predicate, holds node = true
  childCount : pattern.children ≠ [] → TreeNode.childCount node = pattern.children.length

/-- As many nodes as patterns, each described by the pattern at its index. -/
theorem acceptsAll_iff {patterns : List (Pattern N)} {nodes : List N} :
    acceptsAll patterns nodes = true ↔ patterns.length = nodes.length ∧
      ∀ (index : Nat) (part : Pattern N), patterns[index]? = some part →
        ∃ child, nodes[index]? = some child ∧ part.accepts child = true := by
  induction patterns generalizing nodes with
  | nil => cases nodes <;> simp [acceptsAll]
  | cons pattern patterns ih =>
      cases nodes with
      | nil => simp [acceptsAll]
      | cons node nodes =>
          rw [acceptsAll, Bool.and_eq_true, ih, List.length_cons, List.length_cons,
            Nat.add_right_cancel_iff, and_left_comm]
          refine and_congr_right fun _ => ?_
          constructor
          · rintro ⟨hnode, hnodes⟩ index part hpart
            cases index with
            | zero => exact ⟨node, rfl, Option.some.inj hpart ▸ hnode⟩
            | succ index => exact hnodes index part hpart
          · intro hall
            obtain ⟨child, hchild, haccepts⟩ := hall 0 pattern rfl
            refine ⟨Option.some.inj hchild ▸ haccepts, fun index part hpart => ?_⟩
            exact hall (index + 1) part hpart

/-- One level of a pattern, where no child patterns ask for nothing. -/
theorem accepts_iff_children {pattern : Pattern N} {node : N} :
    pattern.accepts node = true ↔ TreeNode.kind node = pattern.kind ∧
      meets pattern.predicate node = true ∧
      (pattern.children = [] ∨ pattern.children.length = TreeNode.childCount node ∧
        ∀ (index : Nat) (part : Pattern N), pattern.children[index]? = some part →
          ∃ child, (TreeNode.children node)[index]? = some child ∧ part.accepts child = true) := by
  obtain ⟨kind, predicate, patterns⟩ := pattern
  rw [accepts, Bool.and_eq_true, Bool.and_eq_true, decide_eq_true_eq, Bool.or_eq_true,
    List.isEmpty_iff, acceptsAll_iff, and_assoc]
  rfl

/-- One level of a pattern: what it says of the node, and what its child patterns say of the
children. -/
theorem accepts_iff {pattern : Pattern N} {node : N} :
    pattern.accepts node = true ↔ pattern.Describes node ∧
      ∀ (index : Nat) (part : Pattern N), pattern.children[index]? = some part →
        ∃ child, (TreeNode.children node)[index]? = some child ∧ part.accepts child = true := by
  have hmeets : meets pattern.predicate node = true ↔
      ∀ holds ∈ pattern.predicate, holds node = true := by
    cases pattern.predicate <;> simp [meets]
  rw [accepts_iff_children, hmeets]
  constructor
  · rintro ⟨hkind, hpredicate, hnone | ⟨hlength, hall⟩⟩
    · refine ⟨⟨hkind, hpredicate, fun hsome => absurd hnone hsome⟩, ?_⟩
      intro index part hpart
      rw [hnone] at hpart
      cases hpart
    · exact ⟨⟨hkind, hpredicate, fun _ => hlength.symm⟩, hall⟩
  · rintro ⟨⟨hkind, hpredicate, hcount⟩, hall⟩
    refine ⟨hkind, hpredicate, ?_⟩
    by_cases hnone : pattern.children = []
    · exact Or.inl hnone
    · exact Or.inr ⟨(hcount hnone).symm, hall⟩

/-- A pattern describes a tree exactly if at each position of the pattern there is a node in the tree,
of the kind and with the property asked for there, and with as many children as there are child
patterns, if there are any. -/
theorem accepts_iff_forall_part (pattern : Pattern N) (node : N) :
    pattern.accepts node = true ↔ ∀ path part, pattern.part? path = some part →
      ∃ below, TreeNode.resolve node path = some below ∧ part.Describes below := by
  induction pattern using induction generalizing node with
  | step pattern ih =>
      rw [accepts_iff, forall_part_iff]
      refine and_congr ?_ (forall₃_congr fun index child hchild => ?_)
      · constructor
        · intro hnode
          exact ⟨node, rfl, hnode⟩
        · rintro ⟨root, hroot, hdescribes⟩
          obtain rfl : node = root := Option.some.inj hroot
          exact hdescribes
      · have ih := ih child (List.mem_of_getElem? hchild)
        constructor
        · rintro ⟨found, hfound, haccepts⟩ path part hpart
          rw [TreeNode.resolve_cons, hfound, Option.bind_some]
          exact (ih found).mp haccepts path part hpart
        · intro hall
          -- the node below is the one that the child pattern itself asks for
          obtain ⟨_, hresolve, _⟩ := hall .root child rfl
          rw [TreeNode.resolve_cons] at hresolve
          obtain ⟨found, hfound, _⟩ := Option.bind_eq_some_iff.mp hresolve
          refine ⟨found, hfound, (ih found).mpr fun path part hpart => ?_⟩
          have hbelow := hall path part hpart
          rwa [TreeNode.resolve_cons, hfound, Option.bind_some] at hbelow

end PlanLowering.Pattern
