import PlanLowering.Tree.Visitor

/-!
Visitors kind by kind. A visitor of this form has a callback for each kind of node; the nodes of a
kind go to the callback of that kind, and a callback that is left as it is descends.
-/

namespace PlanLowering

/-- The nodes of one kind. -/
def NodeOf (N : Type) [SizeOf N] [TreeNode N] (kind : TreeNode.Kind N) : Type :=
  { node : N // TreeNode.kind node = kind }

/-- A node among those of its own kind. -/
def NodeOf.of {N : Type} [SizeOf N] [TreeNode N] (node : N) : NodeOf N (TreeNode.kind node) :=
  ⟨node, rfl⟩

/-- A traversal with a callback for each kind of node. -/
structure KindVisitor (N σ ρ : Type) [SizeOf N] [TreeNode N] where
  /-- Called with a node of the kind and with the action that visits its children in order and then
  leaves it; a callback that does not run it leaves out the whole subtree. -/
  callback : (kind : TreeNode.Kind N) → NodeOf N kind → StateM σ ρ → StateM σ ρ :=
    fun _ _ descend => descend
  /-- Called after the children; its result is that of the node. -/
  leave : N → StateM σ ρ

namespace KindVisitor

variable {N : Type} [SizeOf N] [TreeNode N] {σ ρ : Type}

/-- Each node goes to the callback of its own kind. -/
def dispatch (visitor : KindVisitor N σ ρ) : Visitor N σ ρ where
  enter node := visitor.callback (TreeNode.kind node) (.of node)
  leave := visitor.leave

def visit (visitor : KindVisitor N σ ρ) (root : N) : StateM σ ρ :=
  visitor.dispatch.visit root

/-- The state after a visit that starts with `start`. -/
def stateAfter (visitor : KindVisitor N σ ρ) (start : σ) (root : N) : σ :=
  ((visitor.visit root).run start).2

end KindVisitor

/-- The words of a name in capitals-and-smalls, joined by underscores in lower case. -/
def snakeCase (name : String) : String :=
  let spelled := name.toList.flatMap fun c => if c.isUpper then ['_', c.toLower] else [c]
  String.ofList (spelled.dropWhile (· == '_'))

/-- The name of the callback that a kind-by-kind visitor has for a kind. -/
def callbackName {κ : Type} [Named κ] (kind : κ) : String :=
  "visit_" ++ snakeCase (Named.name kind)

end PlanLowering
