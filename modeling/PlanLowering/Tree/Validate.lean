import PlanLowering.Tree.Walk

/-!
The check of a whole tree before it is compiled: no node lies below the depth limit, and no node has a
defect. The first offending node is reported, parents before children; for one node the depth comes
first.
-/

namespace PlanLowering

/-- A depth limit; the root has depth zero. -/
structure PlanValidator where
  maxDepth : Nat
deriving DecidableEq, Repr

namespace PlanValidator

variable {N : Type} [SizeOf N] [TreeNode N]

/-- What is wrong with a node at a position. -/
def violation? (validator : PlanValidator) (node : N) (path : NodePath) : Option CompileError :=
  if validator.maxDepth < path.depth then
    some (.tooDeepAt (TreeNode.kindName node) path validator.maxDepth)
  else
    (TreeNode.defect? node).map (.malformed (TreeNode.kindName node) path)

def walk (validator : PlanValidator) (root : N) : Walk Unit Unit :=
  TreeNode.fold (fun node below => do
    if let some failure := validator.violation? node (← Walk.here) then
      throw failure
    discard (Walk.children below)) root

def validate (validator : PlanValidator) (root : N) : Except CompileError Unit :=
  ((validator.walk root).runFrom .root ()).1

end PlanValidator

end PlanLowering
