import PlanLowering.Mode
import PlanLowering.Scalar
import PlanLowering.Tree.Fields
import PlanLowering.Tree.Node
import PlanLowering.Value

/-!
Physical expressions: the vocabulary of the standard strategies and their contract with the
evaluation. In permissive mode scans carry a mark, and projected and constructed values are wrapped.
-/

namespace PlanLowering

inductive Expr where
  | scan (rex : Expr) (permissive : Bool)
  | scanIndexed (rex : Expr) (permissive : Bool)
  | unpivot (rex : Expr) (permissive : Bool)
  | filter (input predicate : Expr)
  | project (input : Expr) (projections : List Expr)
  | projectAll (input : Expr) (distinct : Bool)
  | limit (input bound : Expr)
  | offset (input count : Expr)
  /-- The first `limit` rows in sort order: a limit and the sort below it in one. -/
  | topN (input : Expr) (specs : List (Expr × SortOrder)) (limit : UInt64)
  | distinct (input : Expr)
  | sort (input : Expr) (specs : List (Expr × SortOrder))
  | join (lhs rhs condition : Expr) (joinType : JoinType)
  | exclude (input : Expr) (paths : List ExcludePath)
  | setOp (kind : SetOpKind) (distinct : Bool) (lhs rhs : Expr)
  | literal (value : Value)
  | varLocal (offset : UInt64)
  | varOuter (depth offset : UInt64)
  | global (name : String)
  | pathKey (root key : Expr)
  | pathSymbol (root : Expr) (symbol : String)
  | pathIndex (root index : Expr)
  | call (function : String) (args : List Expr)
  | case (branches : List (Expr × Expr)) (default : Expr)
  | cast (arg : Expr) (target : String)
  | collection (kind : CollectionKind) (values : List Expr)
  | struct (fields : List (Expr × Expr))
  | tupleUnion (args : List Expr)
  | select (rel constructor : Expr) (ordered : Bool)
  | subquery (rel constructor : Expr) (coercion : Coercion)
  | pivot (rel key value : Expr) (permissive : Bool)
  /-- A value whose evaluation turns errors into a missing value. -/
  | permissive (value : Expr)
deriving Inhabited, Repr

inductive ExprKind where
  | scan
  | scanIndexed
  | unpivot
  | filter
  | project
  | projectAll
  | limit
  | offset
  | topN
  | distinct
  | sort
  | join
  | exclude
  | setOp
  | literal
  | varLocal
  | varOuter
  | global
  | pathKey
  | pathSymbol
  | pathIndex
  | call
  | case
  | cast
  | collection
  | struct
  | tupleUnion
  | select
  | subquery
  | pivot
  | permissive
deriving DecidableEq, Repr, Inhabited

namespace ExprKind

instance : Named ExprKind where
  all := [scan, scanIndexed, unpivot, filter, project, projectAll, limit, offset, topN, distinct,
    sort, join, exclude, setOp, literal, varLocal, varOuter, global, pathKey, pathSymbol, pathIndex,
    call, case, cast, collection, struct, tupleUnion, select, subquery, pivot, permissive]
  name
    | scan => "Scan"
    | scanIndexed => "ScanIndexed"
    | unpivot => "Unpivot"
    | filter => "Filter"
    | project => "Project"
    | projectAll => "ProjectAll"
    | limit => "Limit"
    | offset => "Offset"
    | topN => "TopN"
    | distinct => "Distinct"
    | sort => "Sort"
    | join => "Join"
    | exclude => "Exclude"
    | setOp => "SetOp"
    | literal => "Literal"
    | varLocal => "VarLocal"
    | varOuter => "VarOuter"
    | global => "Global"
    | pathKey => "PathKey"
    | pathSymbol => "PathSymbol"
    | pathIndex => "PathIndex"
    | call => "Call"
    | case => "Case"
    | cast => "Cast"
    | collection => "Collection"
    | struct => "Struct"
    | tupleUnion => "TupleUnion"
    | select => "Select"
    | subquery => "Subquery"
    | pivot => "Pivot"
    | permissive => "Permissive"
  find_name kind := by cases kind <;> decide

end ExprKind

namespace Expr

def kind : Expr → ExprKind
  | scan .. => .scan
  | scanIndexed .. => .scanIndexed
  | unpivot .. => .unpivot
  | filter .. => .filter
  | project .. => .project
  | projectAll .. => .projectAll
  | limit .. => .limit
  | offset .. => .offset
  | topN .. => .topN
  | distinct .. => .distinct
  | sort .. => .sort
  | join .. => .join
  | exclude .. => .exclude
  | setOp .. => .setOp
  | literal .. => .literal
  | varLocal .. => .varLocal
  | varOuter .. => .varOuter
  | global .. => .global
  | pathKey .. => .pathKey
  | pathSymbol .. => .pathSymbol
  | pathIndex .. => .pathIndex
  | call .. => .call
  | case .. => .case
  | cast .. => .cast
  | collection .. => .collection
  | struct .. => .struct
  | tupleUnion .. => .tupleUnion
  | select .. => .select
  | subquery .. => .subquery
  | pivot .. => .pivot
  | permissive .. => .permissive

/-- The operator's name in messages. -/
def name (e : Expr) : String :=
  Named.name e.kind

def children : Expr → List Expr
  | scan rex _ | scanIndexed rex _ | unpivot rex _ => [rex]
  | filter input predicate => [input, predicate]
  | project input projections => input :: projections
  | projectAll input _ => [input]
  | limit input bound => [input, bound]
  | offset input count => [input, count]
  | topN input specs _ => input :: specs.map (·.1)
  | distinct input => [input]
  | sort input specs => input :: specs.map (·.1)
  | join lhs rhs condition _ => [lhs, rhs, condition]
  | exclude input _ => [input]
  | setOp _ _ lhs rhs => [lhs, rhs]
  | literal _ | varLocal _ | varOuter _ _ | global _ => []
  | pathKey root key => [root, key]
  | pathSymbol root _ => [root]
  | pathIndex root index => [root, index]
  | call _ args => args
  | case branches default => inPairs branches ++ [default]
  | cast arg _ => [arg]
  | collection _ values => values
  | struct fields => inPairs fields
  | tupleUnion args => args
  | select rel constructor _ => [rel, constructor]
  | subquery rel constructor _ => [rel, constructor]
  | pivot rel key value _ => [rel, key, value]
  | permissive value => [value]

theorem sizeOf_child_lt {node child : Expr} (h : child ∈ node.children) :
    sizeOf child < sizeOf node := by
  cases node <;>
    grind [children, → List.sizeOf_lt_of_mem, → sizeOf_fst_lt, → sizeOf_lt_of_mem_inPairs]

instance : TreeNode Expr where
  Kind := ExprKind
  kind := kind
  children := children
  defect? := fun _ => none
  sizeOf_child_lt := sizeOf_child_lt

/-- Two nodes agree in kind and in what they hold beside their children. -/
def agree : Expr → Expr → Bool
  | scan _ p, scan _ p' => p = p'
  | scanIndexed _ p, scanIndexed _ p' => p = p'
  | unpivot _ p, unpivot _ p' => p = p'
  | projectAll _ d, projectAll _ d' => d = d'
  | topN _ specs n, topN _ specs' n' => specs.map (·.2) = specs'.map (·.2) && n = n'
  | sort _ specs, sort _ specs' => specs.map (·.2) = specs'.map (·.2)
  | join _ _ _ t, join _ _ _ t' => t = t'
  | exclude _ paths, exclude _ paths' => paths = paths'
  | setOp k d _ _, setOp k' d' _ _ => k = k' && d = d'
  | literal v, literal v' => v.matchesValue v'
  | varLocal o, varLocal o' => o = o'
  | varOuter d o, varOuter d' o' => d = d' && o = o'
  | global n, global n' => n = n'
  | pathSymbol _ s, pathSymbol _ s' => s = s'
  | call f _, call f' _ => f = f'
  | cast _ t, cast _ t' => t = t'
  | collection k _, collection k' _ => k = k'
  | select _ _ o, select _ _ o' => o = o'
  | subquery _ _ c, subquery _ _ c' => c = c'
  | pivot _ _ _ p, pivot _ _ _ p' => p = p'
  | a, b => a.kind = b.kind

/-- Equality of expressions as the language sees it: float literals are compared as numbers. -/
def matchesExpr (a b : Expr) : Bool :=
  TreeNode.alike agree a b

/-- A value expression as a mode wants it: permissive mode wraps it, once. -/
def handled (mode : Mode) (e : Expr) : Expr :=
  match mode, e with
  | .strict, e => e
  | .permissive, permissive value => permissive value
  | .permissive, e => permissive e

/-- The expression below all wrappers. -/
def unwrapped : Expr → Expr
  | permissive value => unwrapped value
  | e => e

end Expr

end PlanLowering
