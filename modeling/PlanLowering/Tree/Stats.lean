import PlanLowering.Tree.Visitor

/-!
Statistics of a tree: how many nodes it has, how deep it is, and how many nodes there are of each
kind.
-/

namespace PlanLowering

/-- Counters by name, in the order of their first use. -/
abbrev Counts := List (String × Nat)

namespace Counts

/-- Raises the counter of a name by one; a name not seen before starts at one. -/
def increment (name : String) : Counts → Counts
  | [] => [(name, 1)]
  | (other, n) :: rest =>
    if other = name then (other, n + 1) :: rest else (other, n) :: increment name rest

def get (counts : Counts) (name : String) : Nat :=
  (counts.lookup name).getD 0

end Counts

structure PlanStats where
  nodeCount : Nat
  /-- The depth of the deepest node; the root has depth zero. -/
  maxDepth : Nat
  kinds : Counts
deriving DecidableEq, Repr

namespace PlanStats

def empty : PlanStats :=
  ⟨0, 0, []⟩

/-- Takes a node at a depth into account. -/
def add (stats : PlanStats) (kind : String) (depth : Nat) : PlanStats :=
  ⟨stats.nodeCount + 1, max stats.maxDepth depth, Counts.increment kind stats.kinds⟩

/-- A count under way: the statistics so far and the depth of the current node. -/
structure Tally where
  stats : PlanStats
  depth : Nat
deriving DecidableEq, Repr

variable {N : Type} [SizeOf N] [TreeNode N]

/-- Counts each node on the way in and is one deeper while it visits the children. -/
def counter : Visitor N Tally Unit where
  enter node descend := do
    modify fun tally => ⟨tally.stats.add (TreeNode.kindName node) tally.depth, tally.depth + 1⟩
    descend
    modify fun tally => ⟨tally.stats, tally.depth - 1⟩
  leave _ := pure ()

def collect (root : N) : PlanStats :=
  (counter.stateAfter ⟨empty, 0⟩ root).stats

def countOf (stats : PlanStats) (kind : String) : Nat :=
  stats.kinds.get kind

end PlanStats

end PlanLowering
