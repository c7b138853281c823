import PlanLowering.Text.Quoted
import PlanLowering.Tree.Node

/-!
Patterns: the kind of a node, an optional condition on it, and patterns for its children. A pattern
without child patterns leaves the children free; otherwise there is one for each child.
-/

namespace PlanLowering

inductive Pattern (N : Type) [SizeOf N] [TreeNode N] where
  | mk (kind : TreeNode.Kind N) (predicate : Option (N → Bool)) (children : List (Pattern N))

namespace Pattern

variable {N : Type} [SizeOf N] [TreeNode N]

def kind : Pattern N → TreeNode.Kind N
  | mk kind _ _ => kind

def predicate : Pattern N → Option (N → Bool)
  | mk _ predicate _ => predicate

def children : Pattern N → List (Pattern N)
  | mk _ _ children => children

/-- The pattern of all nodes of a kind. -/
def ofKind (kind : TreeNode.Kind N) : Pattern N :=
  mk kind none []

/-- The condition of a node is met; no condition is always met. -/
def meets (predicate : Option (N → Bool)) (node : N) : Bool :=
  predicate.all fun holds => holds node

/-- Adds a condition to those that have to hold already. -/
def withPredicate : Pattern N → (N → Bool) → Pattern N
  | mk kind predicate children, holds =>
    mk kind (some fun node => meets predicate node && holds node) children

/-- Adds a pattern for one more child. -/
def withChild : Pattern N → Pattern N → Pattern N
  | mk kind predicate children, child => mk kind predicate (children ++ [child])

/-- Replaces the patterns of the children; none at all leaves the children free. -/
def withChildren : Pattern N → List (Pattern N) → Pattern N
  | mk kind predicate _, children => mk kind predicate children

def hasPredicate (pattern : Pattern N) : Bool :=
  pattern.predicate.isSome

mutual

/-- The pattern describes the node. -/
def accepts : Pattern N → N → Bool
  | mk kind predicate children, node =>
    TreeNode.kind node = kind && meets predicate node &&
      (children.isEmpty || acceptsAll children (TreeNode.children node))

/-- There are as many nodes as patterns, and each pattern describes its node. -/
def acceptsAll : List (Pattern N) → List N → Bool
  | [], [] => true
  | pattern :: patterns, node :: nodes => pattern.accepts node && acceptsAll patterns nodes
  | _, _ => false

end

mutual

/-- The kind, a question mark for a condition, and the patterns of the children between brackets. -/
def display : Pattern N → String
  | mk kind predicate children =>
    Named.name kind ++ (if predicate.isSome then "?" else "") ++
      match children with
      | [] => ""
      | child :: others => "[" ++ child.display ++ displayOthers others ++ "]"

def displayOthers : List (Pattern N) → String
  | [] => ""
  | pattern :: patterns => ", " ++ pattern.display ++ displayOthers patterns

end

mutual

def debug : Pattern N → String
  | mk kind predicate children =>
    Text.record "Pattern"
      [("kind", Named.name kind),
        ("predicate", Text.optional (if predicate.isSome then some "\"<fn>\"" else none)),
        ("children", Text.bracketed (debugAll children))]

def debugAll : List (Pattern N) → List String
  | [] => []
  | pattern :: patterns => pattern.debug :: debugAll patterns

end

end Pattern

end PlanLowering
