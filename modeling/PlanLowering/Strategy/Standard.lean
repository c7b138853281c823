import PlanLowering.Physical.Expr
import PlanLowering.Plan.Operator
import PlanLowering.Strategy.Basic

/-!
The standard strategies: one for each kind of operator that can be lowered, after the one that fuses a
limit with the sort below it. Their order is their priority.
-/

namespace PlanLowering.Standard

open Conversion

/-- A conversion of plan nodes to physical expressions. -/
abbrev Lowering := Conversion Operator Expr

abbrev StandardStrategy := Strategy Operator Expr

/-- The strategy of a kind. `lower` says how to lower a node of that kind and has no answer for the
others. -/
def strategy (name : String) (kind : OperatorKind) (pattern : Pattern Operator)
    (lower : Operator → Option (Lowering Expr)) : StandardStrategy where
  name := name
  pattern := pattern
  origin := .standard
  apply m :=
    match lower m.node with
    | some conversion => conversion.on m
    | none => .error (m.failure ("期望 " ++ Named.name kind ++ " 节点"))

/-- The strategy of all nodes of a kind. -/
def strategyOf (kind : OperatorKind) (lower : Operator → Option (Lowering Expr)) :
    StandardStrategy :=
  strategy (Named.name kind ++ "Strategy") kind (.ofKind kind) lower

def modeHere : Lowering Mode :=
  return (← get).mode

def permissiveHere : Lowering Bool :=
  return (← modeHere).isPermissive

/-- Values as the mode of the match wants them. -/
def handledHere (values : List Expr) : Lowering (List Expr) :=
  return values.map (Expr.handled (← modeHere))

/-- A literal bound of a limit. -/
def literalBound? : Operator → Option UInt64
  | .lit (.int n) => if 0 ≤ n.toInt then some n.toUInt64 else none
  | _ => none

/-- A limit right above a sort, with a literal bound from zero up. -/
def topNPattern : Pattern Operator :=
  (Pattern.ofKind OperatorKind.limit).withChildren
    [.ofKind OperatorKind.sort,
      (Pattern.ofKind OperatorKind.lit).withPredicate fun node =>
        match node with
        | .lit value => value.isNonNegativeInt
        | _ => false]

/-- The lowered sort gives its input and keys away; the lowered bound is not looked at. -/
def topN : StandardStrategy :=
  strategy "TopNStrategy" .limit topNPattern fun
    | .limit _ bound => some do
      match literalBound? bound with
      | none => fail "LIMIT 上限不是非负整数字面量"
      | some limit =>
        match ← take 0 with
        | .sort input specs => return .topN input specs limit
        | other => fail ("期望已转换的 Sort 输入，实际为 " ++ other.name)
    | _ => none

def scan : StandardStrategy :=
  strategyOf .scan fun
    | .scan _ => some do return .scan (← take 0) (← permissiveHere)
    | _ => none

def scanIndexed : StandardStrategy :=
  strategyOf .scanIndexed fun
    | .scanIndexed _ => some do return .scanIndexed (← take 0) (← permissiveHere)
    | _ => none

def unpivot : StandardStrategy :=
  strategyOf .unpivot fun
    | .unpivot _ => some do return .unpivot (← take 0) (← permissiveHere)
    | _ => none

def filter : StandardStrategy :=
  strategyOf .filter fun
    | .filter _ _ => some do return .filter (← take 0) (← take 1)
    | _ => none

def project : StandardStrategy :=
  strategyOf .project fun
    | .project _ _ => some do
      let input ← take 0
      return .project input (← handledHere (← takeRest 1))
    | _ => none

def projectAll : StandardStrategy :=
  strategyOf .projectAll fun
    | .projectAll _ quantifier => some do return .projectAll (← take 0) quantifier.isDistinct
    | _ => none

def limit : StandardStrategy :=
  strategyOf .limit fun
    | .limit _ _ => some do return .limit (← take 0) (← take 1)
    | _ => none

def offset : StandardStrategy :=
  strategyOf .offset fun
    | .offset _ _ => some do return .offset (← take 0) (← take 1)
    | _ => none

def distinct : StandardStrategy :=
  strategyOf .distinct fun
    | .distinct _ => some do return .distinct (← take 0)
    | _ => none

/-- The lowered keys come after the input, and each keeps the order of its specification. -/
def sort : StandardStrategy :=
  strategyOf .sort fun
    | .sort _ specs => some do
      let input ← take 0
      let keys ← takeRest 1
      if keys.length = specs.length then
        return .sort input (keys.zip (specs.map (·.2)))
      else
        fail "排序键数量与子节点数量不一致"
    | _ => none

def join : StandardStrategy :=
  strategyOf .join fun
    | .join _ _ _ joinType => some do
      return .join (← take 0) (← take 1) (← take 2) joinType
    | _ => none

def exclude : StandardStrategy :=
  strategyOf .exclude fun
    | .exclude _ paths => some do return .exclude (← take 0) paths
    | _ => none

def setOp : StandardStrategy :=
  strategyOf .setOp fun
    | .setOp kind quantifier _ _ => some do
      return .setOp kind quantifier.isDistinct (← take 0) (← take 1)
    | _ => none

def lit : StandardStrategy :=
  strategyOf .lit fun
    | .lit value => some do return .literal value
    | _ => none

/-- A variable of the current scope needs no depth. -/
def var : StandardStrategy :=
  strategyOf .var fun
    | .var depth offset => some do
      return if depth = 0 then .varLocal offset else .varOuter depth offset
    | _ => none

def global : StandardStrategy :=
  strategyOf .global fun
    | .global name => some do return .global name
    | _ => none

def pathKey : StandardStrategy :=
  strategyOf .pathKey fun
    | .pathKey _ _ => some do return .pathKey (← take 0) (← take 1)
    | _ => none

def pathSymbol : StandardStrategy :=
  strategyOf .pathSymbol fun
    | .pathSymbol _ symbol => some do return .pathSymbol (← take 0) symbol
    | _ => none

def pathIndex : StandardStrategy :=
  strategyOf .pathIndex fun
    | .pathIndex _ _ => some do return .pathIndex (← take 0) (← take 1)
    | _ => none

def call : StandardStrategy :=
  strategyOf .call fun
    | .call function _ => some do return .call function (← takeRemaining)
    | _ => none

/-- Takes `count` pairs of lowered children from `first` on. -/
def takePairs (first : Nat) : Nat → Lowering (List (Expr × Expr))
  | 0 => return []
  | count + 1 => do
    let left ← take first
    let right ← take (first + 1)
    let others ← takePairs (first + 2) count
    return (left, right) :: others

def case : StandardStrategy :=
  strategyOf .case fun
    | .case branches _ => some do
      let lowered ← takePairs 0 branches.length
      return .case lowered (← take (2 * branches.length))
    | _ => none

def cast : StandardStrategy :=
  strategyOf .cast fun
    | .cast _ target => some do return .cast (← take 0) target
    | _ => none

def collection : StandardStrategy :=
  strategyOf .collection fun
    | .collection kind _ => some do
      return .collection kind (← handledHere (← takeRemaining))
    | _ => none

/-- Of each field only the value is handled. -/
def struct : StandardStrategy :=
  strategyOf .struct fun
    | .struct fields => some do
      let lowered ← takePairs 0 fields.length
      let mode ← modeHere
      return .struct (lowered.map fun field => (field.1, field.2.handled mode))
    | _ => none

def tupleUnion : StandardStrategy :=
  strategyOf .tupleUnion fun
    | .tupleUnion _ => some do return .tupleUnion (← takeRemaining)
    | _ => none

/-- A selection from a sort is ordered. -/
def select : StandardStrategy :=
  strategyOf .select fun
    | .select rel _ => some do
      let lowered ← take 0
      let constructor ← take 1
      return .select lowered (constructor.handled (← modeHere)) (rel.kind = .sort)
    | _ => none

def subquery : StandardStrategy :=
  strategyOf .subquery fun
    | .subquery _ _ coercion => some do
      return .subquery (← take 0) (← take 1) coercion
    | _ => none

def pivot : StandardStrategy :=
  strategyOf .pivot fun
    | .pivot _ _ _ => some do
      return .pivot (← take 0) (← take 1) (← take 2) (← permissiveHere)
    | _ => none

/-- The standard strategies by priority. A fault left over in a plan has none. -/
def strategies : List StandardStrategy :=
  [topN, scan, scanIndexed, unpivot, filter, project, projectAll, limit, offset, distinct, sort,
    join, exclude, setOp, lit, var, global, pathKey, pathSymbol, pathIndex, call, case, cast,
    collection, struct, tupleUnion, select, subquery, pivot]

end PlanLowering.Standard
