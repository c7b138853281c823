import PlanLowering.Scalar
import PlanLowering.Tree.Fields
import PlanLowering.Tree.Node
import PlanLowering.Value

/-!
Syntax trees of queries. Strategies do not insist on plans: any tree of nodes can be lowered, and this
is the other one. Optional clauses that are absent leave no gap among the children.
-/

namespace PlanLowering

inductive QueryNode where
  | query (body : QueryNode)
  | queryBodySfw (select : QueryNode) (excluded : Option QueryNode) (source : QueryNode)
      (bindings condition groups having : Option QueryNode)
  /-- The operator is a child of its own. -/
  | queryBodySetOp (op : QueryNode) (isOuter : Bool) (lhs rhs : QueryNode)
  | setOp (kind : SetOpKind) (quantifier : Option SetQuantifier)
  | selectStar (quantifier : Option SetQuantifier)
  | selectList (quantifier : Option SetQuantifier) (items : List QueryNode)
  | selectItemExpr (expr : QueryNode) (label : Option QueryNode)
  | selectValue (quantifier : Option SetQuantifier) (constructor : QueryNode)
  | exclude (paths : List QueryNode)
  | excludePath (root : QueryNode) (steps : List QueryNode)
  | fromClause (tables : List QueryNode)
  | fromExpr (expr : QueryNode) (asAlias atAlias : Option QueryNode)
  | letClause (bindings : List QueryNode)
  | letBinding (expr label : QueryNode)
  | groupBy (keys : List QueryNode)
  | groupByKey (expr : QueryNode) (label : Option QueryNode)
  | identifier (symbol : String) (caseSensitive : Bool)
  /-- A qualified name, link by link. -/
  | identifierChain (root : QueryNode) (next : Option QueryNode)
  | exprLit (value : Value)
  | exprVarRef (target : QueryNode)
  | exprCall (function : QueryNode) (args : List QueryNode)
  /-- A unary operator has no left operand. -/
  | exprOperator (symbol : String) (lhs : Option QueryNode) (rhs : QueryNode)
  | exprAnd (lhs rhs : QueryNode)
  | exprOr (lhs rhs : QueryNode)
  | exprNot (value : QueryNode)
  | exprPath (root : QueryNode) (steps : List QueryNode)
  | pathStepField (field : QueryNode)
  | pathStepElement (element : QueryNode)
deriving Inhabited, Repr

inductive QueryKind where
  | query
  | queryBodySfw
  | queryBodySetOp
  | setOp
  | selectStar
  | selectList
  | selectItemExpr
  | selectValue
  | exclude
  | excludePath
  | fromClause
  | fromExpr
  | letClause
  | letBinding
  | groupBy
  | groupByKey
  | identifier
  | identifierChain
  | exprLit
  | exprVarRef
  | exprCall
  | exprOperator
  | exprAnd
  | exprOr
  | exprNot
  | exprPath
  | pathStepField
  | pathStepElement
deriving DecidableEq, Repr, Inhabited

namespace QueryKind

instance : Named QueryKind where
  all := [query, queryBodySfw, queryBodySetOp, setOp, selectStar, selectList, selectItemExpr,
    selectValue, exclude, excludePath, fromClause, fromExpr, letClause, letBinding, groupBy,
    groupByKey, identifier, identifierChain, exprLit, exprVarRef, exprCall, exprOperator, exprAnd,
    exprOr, exprNot, exprPath, pathStepField, pathStepElement]
  name
    | query => "Query"
    | queryBodySfw => "QueryBodySfw"
    | queryBodySetOp => "QueryBodySetOp"
    | setOp => "SetOp"
    | selectStar => "SelectStar"
    | selectList => "SelectList"
    | selectItemExpr => "SelectItemExpr"
    | selectValue => "SelectValue"
    | exclude => "Exclude"
    | excludePath => "ExcludePath"
    | fromClause => "From"
    | fromExpr => "FromExpr"
    | letClause => "Let"
    | letBinding => "LetBinding"
    | groupBy => "GroupBy"
    | groupByKey => "GroupByKey"
    | identifier => "Identifier"
    | identifierChain => "IdentifierChain"
    | exprLit => "ExprLit"
    | exprVarRef => "ExprVarRef"
    | exprCall => "ExprCall"
    | exprOperator => "ExprOperator"
    | exprAnd => "ExprAnd"
    | exprOr => "ExprOr"
    | exprNot => "ExprNot"
    | exprPath => "ExprPath"
    | pathStepField => "PathStepField"
    | pathStepElement => "PathStepElement"
  find_name kind := by cases kind <;> decide

end QueryKind

namespace QueryNode

def kind : QueryNode → QueryKind
  | query .. => .query
  | queryBodySfw .. => .queryBodySfw
  | queryBodySetOp .. => .queryBodySetOp
  | setOp .. => .setOp
  | selectStar .. => .selectStar
  | selectList .. => .selectList
  | selectItemExpr .. => .selectItemExpr
  | selectValue .. => .selectValue
  | exclude .. => .exclude
  | excludePath .. => .excludePath
  | fromClause .. => .fromClause
  | fromExpr .. => .fromExpr
  | letClause .. => .letClause
  | letBinding .. => .letBinding
  | groupBy .. => .groupBy
  | groupByKey .. => .groupByKey
  | identifier .. => .identifier
  | identifierChain .. => .identifierChain
  | exprLit .. => .exprLit
  | exprVarRef .. => .exprVarRef
  | exprCall .. => .exprCall
  | exprOperator .. => .exprOperator
  | exprAnd .. => .exprAnd
  | exprOr .. => .exprOr
  | exprNot .. => .exprNot
  | exprPath .. => .exprPath
  | pathStepField .. => .pathStepField
  | pathStepElement .. => .pathStepElement

def children : QueryNode → List QueryNode
  | query body => [body]
  | queryBodySfw select excluded source bindings condition groups having =>
    select :: excluded.toList ++ source :: bindings.toList ++ condition.toList ++ groups.toList ++
      having.toList
  | queryBodySetOp op _ lhs rhs => [op, lhs, rhs]
  | setOp _ _ | selectStar _ => []
  | selectList _ items => items
  | selectItemExpr expr label => expr :: label.toList
  | selectValue _ constructor => [constructor]
  | exclude paths => paths
  | excludePath root steps => root :: steps
  | fromClause tables => tables
  | fromExpr expr asAlias atAlias => expr :: asAlias.toList ++ atAlias.toList
  | letClause bindings => bindings
  | letBinding expr label => [expr, label]
  | groupBy keys => keys
  | groupByKey expr label => expr :: label.toList
  | identifier _ _ => []
  | identifierChain root next => root :: next.toList
  | exprLit _ => []
  | exprVarRef target => [target]
  | exprCall function args => function :: args
  | exprOperator _ lhs rhs => lhs.toList ++ [rhs]
  | exprAnd lhs rhs | exprOr lhs rhs => [lhs, rhs]
  | exprNot value => [value]
  | exprPath root steps => root :: steps
  | pathStepField field => [field]
  | pathStepElement element => [element]

/-- A selection lists something and a `FROM` clause has a source. -/
def defect? : QueryNode → Option String
  | selectList _ [] => some "SELECT 列表不能为空"
  | fromClause [] => some "FROM 子句至少需要一个数据源"
  | _ => none

theorem sizeOf_child_lt {node child : QueryNode} (h : child ∈ node.children) :
    sizeOf child < sizeOf node := by
  cases node <;> grind [children, → List.sizeOf_lt_of_mem, → sizeOf_lt_of_mem_toList]

instance : TreeNode QueryNode where
  Kind := QueryKind
  kind := kind
  children := children
  defect? := defect?
  sizeOf_child_lt := sizeOf_child_lt

/-- Two nodes agree in kind, in what they hold beside their children, and in which of their optional
clauses are present. -/
def agree : QueryNode → QueryNode → Bool
  | queryBodySfw _ e _ b c g h, queryBodySfw _ e' _ b' c' g' h' =>
    e.isSome = e'.isSome && b.isSome = b'.isSome && c.isSome = c'.isSome &&
      g.isSome = g'.isSome && h.isSome = h'.isSome
  | queryBodySetOp _ o _ _, queryBodySetOp _ o' _ _ => o = o'
  | setOp k q, setOp k' q' => k = k' && q = q'
  | selectStar q, selectStar q' => q = q'
  | selectList q _, selectList q' _ => q = q'
  | selectValue q _, selectValue q' _ => q = q'
  | fromExpr _ a i, fromExpr _ a' i' => a.isSome = a'.isSome && i.isSome = i'.isSome
  | identifier s c, identifier s' c' => s = s' && c = c'
  | exprLit v, exprLit v' => v.matchesValue v'
  | exprOperator s _ _, exprOperator s' _ _ => s = s'
  | a, b => a.kind = b.kind

/-- Equality of queries as the language sees it: float literals are compared as numbers. -/
def matchesQuery (a b : QueryNode) : Bool :=
  TreeNode.alike agree a b

/-- The name `a.b.c` as a chain of identifiers, each with its case sensitivity. -/
def chain (first : String × Bool) : List (String × Bool) → QueryNode
  | [] => identifierChain (identifier first.1 first.2) none
  | next :: others => identifierChain (identifier first.1 first.2) (some (chain next others))

/-- A reference to a variable by a plain name. -/
def named (symbol : String) : QueryNode :=
  exprVarRef (chain (symbol, false) [])

end QueryNode

end PlanLowering
