import PlanLowering.Plan.Operator
import PlanLowering.Tree.KindVisitor

/-!
The tables that a plan refers to.
-/

namespace PlanLowering.Operator

/-- Notes the name of each global on the way in, unless it is there already. -/
def globalCollector : KindVisitor Operator (List String) Unit where
  callback
    | .global, ⟨global name, _⟩, _ =>
      modify fun names => if name ∈ names then names else names ++ [name]
    | _, _, descend => descend
  leave _ := pure ()

/-- The names of the globals of a plan, each once, in the order in which they first occur. -/
def globals (plan : Operator) : List String :=
  globalCollector.stateAfter [] plan

end PlanLowering.Operator
