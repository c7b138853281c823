import PlanLowering.Plan.Operator
import PlanLowering.Proofs.Strategy.Pairs
import PlanLowering.Proofs.Tree.Outline
import PlanLowering.Query.Node

/-!
The subterms of plans and queries. Both types of tree are written out by recursion on what their
constructors hold, and the traversals of every plan and of every query follow its outline.
-/

namespace PlanLowering

namespace Operator

mutual

/-- A plan with the plans that its fields hold, in the order of the fields. -/
def outline : Operator → Outline Operator
  | scan rex => .mk (scan rex) [outline rex]
  | scanIndexed rex => .mk (scanIndexed rex) [outline rex]
  | unpivot rex => .mk (unpivot rex) [outline rex]
  | filter input predicate => .mk (filter input predicate) [outline input, outline predicate]
  | project input projections =>
    .mk (project input projections) (outline input :: outlineList projections)
  | projectAll input quantifier => .mk (projectAll input quantifier) [outline input]
  | limit input bound => .mk (limit input bound) [outline input, outline bound]
  | offset input count => .mk (offset input count) [outline input, outline count]
  | distinct input => .mk (distinct input) [outline input]
  | sort input specs => .mk (sort input specs) (outline input :: outlineSpecs specs)
  | join lhs rhs condition joinType =>
    .mk (join lhs rhs condition joinType) [outline lhs, outline rhs, outline condition]
  | exclude input paths => .mk (exclude input paths) [outline input]
  | setOp kind quantifier lhs rhs =>
    .mk (setOp kind quantifier lhs rhs) [outline lhs, outline rhs]
  | lit value => .mk (lit value) []
  | var depth slot => .mk (var depth slot) []
  | global name => .mk (global name) []
  | pathKey root key => .mk (pathKey root key) [outline root, outline key]
  | pathSymbol root symbol => .mk (pathSymbol root symbol) [outline root]
  | pathIndex root index => .mk (pathIndex root index) [outline root, outline index]
  | call function args => .mk (call function args) (outlineList args)
  | case branches default =>
    .mk (case branches default) (outlinePairs branches ++ [outline default])
  | cast arg target => .mk (cast arg target) [outline arg]
  | collection kind values => .mk (collection kind values) (outlineList values)
  | struct fields => .mk (struct fields) (outlinePairs fields)
  | tupleUnion args => .mk (tupleUnion args) (outlineList args)
  | select rel constructor => .mk (select rel constructor) [outline rel, outline constructor]
  | subquery rel constructor coercion =>
    .mk (subquery rel constructor coercion) [outline rel, outline constructor]
  | pivot rel key value => .mk (pivot rel key value) [outline rel, outline key, outline value]
  | err message => .mk (err message) []

def outlineList : List Operator → List (Outline Operator)
  | [] => []
  | op :: others => outline op :: outlineList others

/-- Sort keys, without their orders. -/
def outlineSpecs : List (Operator × SortOrder) → List (Outline Operator)
  | [] => []
  | (rex, _) :: others => outline rex :: outlineSpecs others

/-- Both members of each pair, one after the other. -/
def outlinePairs : List (Operator × Operator) → List (Outline Operator)
  | [] => []
  | (first, second) :: others => outline first :: outline second :: outlinePairs others

end

theorem outlineList_eq (ops : List Operator) : outlineList ops = ops.map outline := by
  induction ops with
  | nil => rfl
  | cons op others ih => rw [outlineList, ih, List.map_cons]

theorem outlineSpecs_eq (specs : List (Operator × SortOrder)) :
    outlineSpecs specs = (specs.map (·.1)).map outline := by
  induction specs with
  | nil => rfl
  | cons spec others ih => rw [outlineSpecs, ih, List.map_cons, List.map_cons]

theorem outlinePairs_eq (pairs : List (Operator × Operator)) :
    outlinePairs pairs = (inPairs pairs).map outline := by
  induction pairs with
  | nil => rfl
  | cons pair others ih => rw [outlinePairs, ih, inPairs_cons, List.map_cons, List.map_cons]

/-- What a plan holds is what it lists as its children. -/
theorem outline_eq (op : Operator) : op.outline = .mk op (op.children.map outline) := by
  cases op with
  | project input projections => rw [outline, outlineList_eq]; rfl
  | sort input specs => rw [outline, outlineSpecs_eq]; rfl
  | call function args => rw [outline, outlineList_eq]; rfl
  | case branches default => rw [outline, outlinePairs_eq, children, List.map_append]; rfl
  | collection kind values => rw [outline, outlineList_eq]; rfl
  | struct fields => rw [outline, outlinePairs_eq]; rfl
  | tupleUnion args => rw [outline, outlineList_eq]; rfl
  | _ => rw [outline]; rfl

end Operator

namespace QueryNode

mutual

/-- A query with the queries that its fields hold, in the order of the fields. -/
def outline : QueryNode → Outline QueryNode
  | query body => .mk (query body) [outline body]
  | queryBodySfw select excluded source bindings condition groups having =>
    .mk (queryBodySfw select excluded source bindings condition groups having)
      (outline select :: outlineOption excluded ++ outline source :: outlineOption bindings ++
        outlineOption condition ++ outlineOption groups ++ outlineOption having)
  | queryBodySetOp op isOuter lhs rhs =>
    .mk (queryBodySetOp op isOuter lhs rhs) [outline op, outline lhs, outline rhs]
  | setOp kind quantifier => .mk (setOp kind quantifier) []
  | selectStar quantifier => .mk (selectStar quantifier) []
  | selectList quantifier items => .mk (selectList quantifier items) (outlineList items)
  | selectItemExpr expr label =>
    .mk (selectItemExpr expr label) (outline expr :: outlineOption label)
  | selectValue quantifier constructor =>
    .mk (selectValue quantifier constructor) [outline constructor]
  | exclude paths => .mk (exclude paths) (outlineList paths)
  | excludePath root steps => .mk (excludePath root steps) (outline root :: outlineList steps)
  | fromClause tables => .mk (fromClause tables) (outlineList tables)
  | fromExpr expr asAlias atAlias =>
    .mk (fromExpr expr asAlias atAlias)
      (outline expr :: outlineOption asAlias ++ outlineOption atAlias)
  | letClause bindings => .mk (letClause bindings) (outlineList bindings)
  | letBinding expr label => .mk (letBinding expr label) [outline expr, outline label]
  | groupBy keys => .mk (groupBy keys) (outlineList keys)
  | groupByKey expr label => .mk (groupByKey expr label) (outline expr :: outlineOption label)
  | identifier symbol caseSensitive => .mk (identifier symbol caseSensitive) []
  | identifierChain root next =>
    .mk (identifierChain root next) (outline root :: outlineOption next)
  | exprLit value => .mk (exprLit value) []
  | exprVarRef target => .mk (exprVarRef target) [outline target]
  | exprCall function args => .mk (exprCall function args) (outline function :: outlineList args)
  | exprOperator symbol lhs rhs =>
    .mk (exprOperator symbol lhs rhs) (outlineOption lhs ++ [outline rhs])
  | exprAnd lhs rhs => .mk (exprAnd lhs rhs) [outline lhs, outline rhs]
  | exprOr lhs rhs => .mk (exprOr lhs rhs) [outline lhs, outline rhs]
  | exprNot value => .mk (exprNot value) [outline value]
  | exprPath root steps => .mk (exprPath root steps) (outline root :: outlineList steps)
  | pathStepField field => .mk (pathStepField field) [outline field]
  | pathStepElement element => .mk (pathStepElement element) [outline element]

def outlineList : List QueryNode → List (Outline QueryNode)
  | [] => []
  | node :: others => outline node :: outlineList others

/-- An absent clause leaves no gap. -/
def outlineOption : Option QueryNode → List (Outline QueryNode)
  | none => []
  | some node => [outline node]

end

theorem outlineList_eq (nodes : List QueryNode) : outlineList nodes = nodes.map outline := by
  induction nodes with
  | nil => rfl
  | cons node others ih => rw [outlineList, ih, List.map_cons]

theorem outlineOption_eq (clause : Option QueryNode) :
    outlineOption clause = clause.toList.map outline := by
  cases clause <;> rfl

/-- What a query holds is what it lists as its children. -/
theorem outline_eq (node : QueryNode) : node.outline = .mk node (node.children.map outline) := by
  cases node <;>
    simp only [outline, outlineList_eq, outlineOption_eq, children, List.map_cons,
      List.map_append, List.map_nil]

end QueryNode

/-- Whatever optional clauses are present and however long the lists are, the traversals of a plan
and of a query go through all that its fields hold: children and visits come to every subterm
exactly once, in the order of the fields, and the paths that lead somewhere are the positions of
the subterms. -/
theorem traversals_follow_fields :
    (∀ plan : Operator, TreeNode.Follows plan plan.outline) ∧
      ∀ query : QueryNode, TreeNode.Follows query query.outline :=
  ⟨TreeNode.follows_of_parts Operator.outline_eq, TreeNode.follows_of_parts QueryNode.outline_eq⟩

end PlanLowering
