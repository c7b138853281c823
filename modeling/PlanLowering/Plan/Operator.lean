import PlanLowering.Scalar
import PlanLowering.Text.Blank
import PlanLowering.Tree.Fields
import PlanLowering.Tree.Node
import PlanLowering.Value

/-!
Logical plans: relational and scalar operators in one type of tree.
-/

namespace PlanLowering

inductive Operator where
  | scan (rex : Operator)
  /-- A scan that also numbers the rows. -/
  | scanIndexed (rex : Operator)
  | unpivot (rex : Operator)
  | filter (input predicate : Operator)
  | project (input : Operator) (projections : List Operator)
  | projectAll (input : Operator) (quantifier : SetQuantifier)
  | limit (input bound : Operator)
  | offset (input count : Operator)
  | distinct (input : Operator)
  | sort (input : Operator) (specs : List (Operator × SortOrder))
  | join (lhs rhs condition : Operator) (joinType : JoinType)
  | exclude (input : Operator) (paths : List ExcludePath)
  | setOp (kind : SetOpKind) (quantifier : SetQuantifier) (lhs rhs : Operator)
  | lit (value : Value)
  /-- A variable by its offset, `depth` scopes outwards. -/
  | var (depth offset : UInt64)
  | global (name : String)
  | pathKey (root key : Operator)
  | pathSymbol (root : Operator) (symbol : String)
  | pathIndex (root index : Operator)
  | call (function : String) (args : List Operator)
  /-- The branches are pairs of a condition and a result. -/
  | case (branches : List (Operator × Operator)) (default : Operator)
  | cast (arg : Operator) (target : String)
  | collection (kind : CollectionKind) (values : List Operator)
  /-- The fields are pairs of a key and a value. -/
  | struct (fields : List (Operator × Operator))
  | tupleUnion (args : List Operator)
  | select (rel constructor : Operator)
  | subquery (rel constructor : Operator) (coercion : Coercion)
  | pivot (rel key value : Operator)
  /-- A fault left over from the construction of the plan. -/
  | err (message : String)
deriving Inhabited, Repr

inductive OperatorKind where
  | scan
  | scanIndexed
  | unpivot
  | filter
  | project
  | projectAll
  | limit
  | offset
  | distinct
  | sort
  | join
  | exclude
  | setOp
  | lit
  | var
  | global
  | pathKey
  | pathSymbol
  | pathIndex
  | call
  | case
  | cast
  | collection
  | struct
  | tupleUnion
  | select
  | subquery
  | pivot
  | err
deriving DecidableEq, Repr, Inhabited

namespace OperatorKind

instance : Named OperatorKind where
  all := [scan, scanIndexed, unpivot, filter, project, projectAll, limit, offset, distinct, sort,
    join, exclude, setOp, lit, var, global, pathKey, pathSymbol, pathIndex, call, case, cast,
    collection, struct, tupleUnion, select, subquery, pivot, err]
  name
    | scan => "Scan"
    | scanIndexed => "ScanIndexed"
    | unpivot => "Unpivot"
    | filter => "Filter"
    | project => "Project"
    | projectAll => "ProjectAll"
    | limit => "Limit"
    | offset => "Offset"
    | distinct => "Distinct"
    | sort => "Sort"
    | join => "Join"
    | exclude => "Exclude"
    | setOp => "SetOp"
    | lit => "Lit"
    | var => "Var"
    | global => "Global"
    | pathKey => "PathKey"
    | pathSymbol => "PathSymbol"
    | pathIndex => "PathIndex"
    | call => "Call"
    | case => "Case"
    | cast => "Cast"
    | collection => "Collection"
    | struct => "Struct"
    | tupleUnion => "TupleUnion"
    | select => "Select"
    | subquery => "Subquery"
    | pivot => "Pivot"
    | err => "Err"
  find_name kind := by cases kind <;> decide

end OperatorKind

namespace Operator

def kind : Operator → OperatorKind
  | scan .. => .scan
  | scanIndexed .. => .scanIndexed
  | unpivot .. => .unpivot
  | filter .. => .filter
  | project .. => .project
  | projectAll .. => .projectAll
  | limit .. => .limit
  | offset .. => .offset
  | distinct .. => .distinct
  | sort .. => .sort
  | join .. => .join
  | exclude .. => .exclude
  | setOp .. => .setOp
  | lit .. => .lit
  | var .. => .var
  | global .. => .global
  | pathKey .. => .pathKey
  | pathSymbol .. => .pathSymbol
  | pathIndex .. => .pathIndex
  | call .. => .call
  | case .. => .case
  | cast .. => .cast
  | collection .. => .collection
  | struct .. => .struct
  | tupleUnion .. => .tupleUnion
  | select .. => .select
  | subquery .. => .subquery
  | pivot .. => .pivot
  | err .. => .err

def children : Operator → List Operator
  | scan rex | scanIndexed rex | unpivot rex => [rex]
  | filter input predicate => [input, predicate]
  | project input projections => input :: projections
  | projectAll input _ => [input]
  | limit input bound => [input, bound]
  | offset input count => [input, count]
  | distinct input => [input]
  | sort input specs => input :: specs.map (·.1)
  | join lhs rhs condition _ => [lhs, rhs, condition]
  | exclude input _ => [input]
  | setOp _ _ lhs rhs => [lhs, rhs]
  | lit _ | var _ _ | global _ => []
  | pathKey root key => [root, key]
  | pathSymbol root _ => [root]
  | pathIndex root index => [root, index]
  | call _ args => args
  | case branches default => inPairs branches ++ [default]
  | cast arg _ => [arg]
  | collection _ values => values
  | struct fields => inPairs fields
  | tupleUnion args => args
  | select rel constructor => [rel, constructor]
  | subquery rel constructor _ => [rel, constructor]
  | pivot rel key value => [rel, key, value]
  | err _ => []

/-- Lists that may not be empty, names that may not be blank, and faults left over. -/
def defect? : Operator → Option String
  | project _ [] => some "投影列表为空"
  | sort _ [] => some "排序键为空"
  | exclude _ [] => some "EXCLUDE 路径为空"
  | call function _ => if Text.isBlankText function then some "函数名为空" else none
  | case [] _ => some "CASE 至少需要一个分支"
  | err message => some ("计划中包含错误节点: " ++ message)
  | _ => none

theorem sizeOf_child_lt {node child : Operator} (h : child ∈ node.children) :
    sizeOf child < sizeOf node := by
  cases node <;>
    grind [children, → List.sizeOf_lt_of_mem, → sizeOf_fst_lt, → sizeOf_lt_of_mem_inPairs]

instance : TreeNode Operator where
  Kind := OperatorKind
  kind := kind
  children := children
  defect? := defect?
  sizeOf_child_lt := sizeOf_child_lt

def isRelational (op : Operator) : Bool :=
  [OperatorKind.scan, .scanIndexed, .unpivot, .filter, .project, .projectAll, .limit, .offset,
    .distinct, .sort, .join, .exclude, .setOp].contains op.kind

/-- Two nodes agree in kind and in what they hold beside their children. -/
def agree : Operator → Operator → Bool
  | projectAll _ q, projectAll _ q' => q = q'
  | sort _ specs, sort _ specs' => specs.map (·.2) = specs'.map (·.2)
  | join _ _ _ t, join _ _ _ t' => t = t'
  | exclude _ paths, exclude _ paths' => paths = paths'
  | setOp k q _ _, setOp k' q' _ _ => k = k' && q = q'
  | lit v, lit v' => v.matchesValue v'
  | var d o, var d' o' => d = d' && o = o'
  | global n, global n' => n = n'
  | pathSymbol _ s, pathSymbol _ s' => s = s'
  | call f _, call f' _ => f = f'
  | cast _ t, cast _ t' => t = t'
  | collection k _, collection k' _ => k = k'
  | subquery _ _ c, subquery _ _ c' => c = c'
  | err m, err m' => m = m'
  | a, b => a.kind = b.kind

/-- Equality of plans as the language sees it: float literals are compared as numbers. -/
def matchesPlan (a b : Operator) : Bool :=
  TreeNode.alike agree a b

end Operator

end PlanLowering
