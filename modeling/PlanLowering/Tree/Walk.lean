import PlanLowering.Tree.Node

/-!
Walks: traversals that know where they are and may fail. The position is part of the state; going to
a child and coming back is one operation, which steps back also when the child fails.
-/

namespace PlanLowering

/-- The state of a walk: where it is, and what it has gathered. -/
structure Cursor (σ : Type) where
  path : NodePath
  gathered : σ
deriving Repr

/-- A traversal that gathers a `σ` and ends with an `α` or a failure. -/
abbrev Walk (σ α : Type) := ExceptT CompileError (StateM (Cursor σ)) α

namespace Walk

variable {σ α : Type}

/-- The current position. -/
def here : Walk σ NodePath :=
  return (← get).path

/-- Runs a walk at the child with this index and steps back, whatever the outcome. -/
def atChild (index : Nat) (walk : Walk σ α) : Walk σ α :=
  ExceptT.mk do
    modify fun cursor => { cursor with path := cursor.path.child index }
    let outcome ← walk.run
    modify fun cursor => { cursor with path := cursor.path.parent }
    return outcome

/-- Runs the walks of the children from the one with this index on, in order, until one fails. -/
def childrenFrom : Nat → List (Walk σ α) → Walk σ (List α)
  | _, [] => return []
  | index, walk :: walks => do
    let first ← walk.atChild index
    let others ← childrenFrom (index + 1) walks
    return first :: others

def children (walks : List (Walk σ α)) : Walk σ (List α) :=
  childrenFrom 0 walks

/-- The outcome of a walk from a position, and the cursor it ends with. -/
def runFrom (walk : Walk σ α) (path : NodePath) (gathered : σ) :
    Except CompileError α × Cursor σ :=
  walk.run.run ⟨path, gathered⟩

end Walk

end PlanLowering
