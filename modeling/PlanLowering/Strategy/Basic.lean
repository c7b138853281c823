import PlanLowering.Pattern
import PlanLowering.Strategy.Match

/-!
Strategies: named rules that lower the nodes described by a pattern.
-/

namespace PlanLowering

/-- Where a strategy comes from, which only its debug text shows. -/
inductive StrategyOrigin where
  | standard
  | custom
deriving DecidableEq, Repr

structure Strategy (N E : Type) [SizeOf N] [TreeNode N] where
  name : String
  pattern : Pattern N
  /-- Lowers a matched node whose children are lowered already. -/
  apply : Match N E → Except CompileError E
  /-- The strategy wants the node. -/
  accepts : N → Bool := pattern.accepts
  origin : StrategyOrigin := .custom

namespace Strategy

variable {N E : Type} [SizeOf N] [TreeNode N]

/-- The first strategy of a list that wants the node. -/
def select (strategies : List (Strategy N E)) (node : N) : Option (Strategy N E) :=
  strategies.find? fun strategy => strategy.accepts node

def debug (strategy : Strategy N E) : String :=
  match strategy.origin with
  | .standard => Text.record strategy.name [("pattern", strategy.pattern.debug)]
  | .custom =>
    Text.record "StrategyFn"
      [("name", Text.quoted strategy.name), ("pattern", strategy.pattern.debug)]

end Strategy

end PlanLowering
