import PlanLowering.Tree.Node

/-!
Visitors. A visitor sees each node before its descendants, together with the action that visits them
all, and decides whether to run that action; results of children are dropped. A visitor that always
descends meets every node, and `leave` is called on the nodes from the leaves up.
-/

namespace PlanLowering

/-- A traversal with the state `σ` and a result of type `ρ` for each node. -/
structure Visitor (N σ ρ : Type) where
  /-- Called on the way in. The action given visits the children in order and then leaves the node;
  a visitor that does not run it leaves out the whole subtree. -/
  enter : N → StateM σ ρ → StateM σ ρ := fun _ descend => descend
  /-- Called after the children; its result is that of the node. -/
  leave : N → StateM σ ρ

namespace Visitor

variable {N : Type} [SizeOf N] [TreeNode N] {σ ρ : Type}

def visit (visitor : Visitor N σ ρ) (root : N) : StateM σ ρ :=
  TreeNode.fold (fun node below =>
    visitor.enter node do
      below.forM fun child => discard child
      visitor.leave node) root

/-- The state after a visit that starts with `start`. -/
def stateAfter (visitor : Visitor N σ ρ) (start : σ) (root : N) : σ :=
  ((visitor.visit root).run start).2

/-- The visitor that descends everywhere and lists the nodes as it leaves them. -/
def recorder : Visitor N (List N) Unit where
  leave node := modify (· ++ [node])

end Visitor

namespace TreeNode

/-- All nodes of a tree, each after its children. -/
def postOrder {N : Type} [SizeOf N] [TreeNode N] (root : N) : List N :=
  Visitor.recorder.stateAfter [] root

end TreeNode

end PlanLowering
