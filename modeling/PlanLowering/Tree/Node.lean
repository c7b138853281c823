import PlanLowering.Failure
import PlanLowering.Named

/-!
The contract of a tree of nodes. A node has a kind, its children in order, and possibly a defect of
its own; nothing else is known to patterns, strategies and the compiler. Every recursion over a tree
goes through `TreeNode.fold`, which is pinned down by `TreeNode.fold_eq`, and every proof by
`TreeNode.induction`.
-/

namespace PlanLowering

class TreeNode (N : Type) [SizeOf N] where
  /-- The kinds of node; matching a kind is equality, there are no wider categories. -/
  Kind : Type
  [named : Named Kind]
  [decEq : DecidableEq Kind]
  kind : N → Kind
  /-- The children in the order their fields are declared; an absent optional field leaves no gap. -/
  children : N → List N
  /-- What is wrong with the node itself, its children left aside. -/
  defect? : N → Option String
  sizeOf_child_lt : ∀ {node child : N}, child ∈ children node → sizeOf child < sizeOf node

namespace TreeNode

variable {N : Type} [SizeOf N] [TreeNode N] {α : Type}

instance : Named (Kind N) := named

instance : DecidableEq (Kind N) := decEq

def kindName (node : N) : String :=
  Named.name (kind node)

def childCount (node : N) : Nat :=
  (children node).length

/-- Combines a node with the results of its children, in order, from the leaves up. -/
def fold (f : N → List α → α) (node : N) : α :=
  f node ((children node).attach.map fun child => fold f child.val)
termination_by sizeOf node
decreasing_by exact sizeOf_child_lt child.property

theorem fold_eq (f : N → List α → α) (node : N) :
    fold f node = f node ((children node).map (fold f)) := by
  rw [fold, List.attach_map_val]

/-- What holds of a node whenever it holds of its children holds of every node. -/
theorem induction {motive : N → Prop}
    (step : ∀ node, (∀ child ∈ children node, motive child) → motive node) (node : N) :
    motive node :=
  step node fun child _ => induction step child
termination_by sizeOf node
decreasing_by exact sizeOf_child_lt ‹_›

/-- All nodes of a tree, each before its children. -/
def nodes (root : N) : List N :=
  fold (fun node below => node :: below.flatten) root

/-- The node at a position, if there is one. -/
def resolve (root : N) (path : NodePath) : Option N :=
  path.indices.foldlM (fun node index => (children node)[index]?) root

/-- All nodes of a tree with their positions below `path`, each before its children. -/
def locatedFrom (root : N) : NodePath → List (NodePath × N) :=
  fold (fun node (below : List (NodePath → List (NodePath × N))) path =>
    (path, node) :: below.zipIdx.flatMap fun child => child.1 (path.child child.2)) root

/-- All nodes of a tree with their positions, each before its children. -/
def located (root : N) : List (NodePath × N) :=
  locatedFrom root .root

/-- Two trees agree node by node: as many children everywhere, and `agree` on each pair of nodes. -/
def alike (agree : N → N → Bool) (a b : N) : Bool :=
  fold (fun node (below : List (N → Bool)) (other : N) =>
    agree node other && below.length == childCount other &&
      (below.zip (children other)).all fun pair => pair.1 pair.2) a b

end TreeNode

end PlanLowering
