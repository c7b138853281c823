import PlanLowering.Query.Node
import PlanLowering.Tree.KindVisitor

/-!
The variables that a query refers to.
-/

namespace PlanLowering.QueryNode

/-- The symbols of a chain of identifiers; links whose root is no identifier add none, and the chain
ends where the next link is no chain. -/
def chainSymbols : QueryNode → List String
  | identifierChain root next =>
    let own :=
      match root with
      | identifier symbol _ => [symbol]
      | _ => []
    match next with
    | some link => own ++ chainSymbols link
    | none => own
  | _ => []

/-- Notes the qualified name of each variable reference and does not look below it. -/
def identifierCollector : KindVisitor QueryNode (List String) Unit where
  callback
    | .exprVarRef, ⟨exprVarRef (identifierChain root next), _⟩, _ =>
      modify (· ++ [".".intercalate (identifierChain root next).chainSymbols])
    | .exprVarRef, _, _ => pure ()
    | _, _, descend => descend
  leave _ := pure ()

/-- The names of the variable references of a query in order, repetitions included. -/
def identifiers (query : QueryNode) : List String :=
  identifierCollector.stateAfter [] query

end PlanLowering.QueryNode
