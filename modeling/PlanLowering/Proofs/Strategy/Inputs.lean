import PlanLowering.Proofs.Strategy.Pairs
import PlanLowering.Strategy.Standard
import Mathlib.Data.List.Basic

/-!
One step of the lowering without matches. `Standard.Fits` says how lowered children are laid out
over the fields of a node, and `Standard.combine` what becomes of the two. Everything that is shown
of a step is shown by cases on the layout.
-/

namespace PlanLowering.Standard

/-- The inputs are one for each child of the node, in the layout of its fields. -/
inductive Fits : Operator → List Expr → Prop where
  | scan (rex : Operator) (e : Expr) : Fits (.scan rex) [e]
  | scanIndexed (rex : Operator) (e : Expr) : Fits (.scanIndexed rex) [e]
  | unpivot (rex : Operator) (e : Expr) : Fits (.unpivot rex) [e]
  | filter (input predicate : Operator) (e e' : Expr) : Fits (.filter input predicate) [e, e']
  | project (input : Operator) (projections : List Operator) (e : Expr) (others : List Expr)
      (hlength : others.length = projections.length) :
      Fits (.project input projections) (e :: others)
  | projectAll (input : Operator) (quantifier : SetQuantifier) (e : Expr) :
      Fits (.projectAll input quantifier) [e]
  | limit (input bound : Operator) (e e' : Expr) : Fits (.limit input bound) [e, e']
  | offset (input count : Operator) (e e' : Expr) : Fits (.offset input count) [e, e']
  | distinct (input : Operator) (e : Expr) : Fits (.distinct input) [e]
  | sort (input : Operator) (specs : List (Operator × SortOrder)) (e : Expr)
      (keys : List (Expr × SortOrder)) (horders : keys.map (·.2) = specs.map (·.2)) :
      Fits (.sort input specs) (e :: keys.map (·.1))
  | join (lhs rhs condition : Operator) (joinType : JoinType) (e e' e'' : Expr) :
      Fits (.join lhs rhs condition joinType) [e, e', e'']
  | exclude (input : Operator) (paths : List ExcludePath) (e : Expr) :
      Fits (.exclude input paths) [e]
  | setOp (kind : SetOpKind) (quantifier : SetQuantifier) (lhs rhs : Operator) (e e' : Expr) :
      Fits (.setOp kind quantifier lhs rhs) [e, e']
  | lit (value : Value) : Fits (.lit value) []
  | var (depth offset : UInt64) : Fits (.var depth offset) []
  | global (name : String) : Fits (.global name) []
  | pathKey (root key : Operator) (e e' : Expr) : Fits (.pathKey root key) [e, e']
  | pathSymbol (root : Operator) (symbol : String) (e : Expr) : Fits (.pathSymbol root symbol) [e]
  | pathIndex (root index : Operator) (e e' : Expr) : Fits (.pathIndex root index) [e, e']
  | call (function : String) (args : List Operator) (others : List Expr)
      (hlength : others.length = args.length) : Fits (.call function args) others
  | case (branches : List (Operator × Operator)) (default : Operator)
      (pairs : List (Expr × Expr)) (e : Expr) (hlength : pairs.length = branches.length) :
      Fits (.case branches default) (inPairs pairs ++ [e])
  | cast (arg : Operator) (target : String) (e : Expr) : Fits (.cast arg target) [e]
  | collection (kind : CollectionKind) (values : List Operator) (others : List Expr)
      (hlength : others.length = values.length) : Fits (.collection kind values) others
  | struct (fields : List (Operator × Operator)) (pairs : List (Expr × Expr))
      (hlength : pairs.length = fields.length) : Fits (.struct fields) (inPairs pairs)
  | tupleUnion (args : List Operator) (others : List Expr)
      (hlength : others.length = args.length) : Fits (.tupleUnion args) others
  | select (rel constructor : Operator) (e e' : Expr) : Fits (.select rel constructor) [e, e']
  | subquery (rel constructor : Operator) (coercion : Coercion) (e e' : Expr) :
      Fits (.subquery rel constructor coercion) [e, e']
  | pivot (rel key value : Operator) (e e' e'' : Expr) : Fits (.pivot rel key value) [e, e', e'']

/-- A fault left over is a defect. -/
theorem kind_ne_err {node : Operator} (h : node.defect? = none) : node.kind ≠ .err := by
  cases node with
  | err message => cases h
  | _ => simp [Operator.kind]

/-- Inputs fit a node as soon as there is one for each child. -/
theorem fits_of_length {node : Operator} (hkind : node.kind ≠ .err) {inputs : List Expr}
    (hinputs : inputs.length = TreeNode.childCount node) : Fits node inputs := by
  have hlength : inputs.length = node.children.length := hinputs
  cases node
  case scan | scanIndexed | unpivot | projectAll | distinct | exclude | pathSymbol | cast =>
    obtain ⟨e, rfl⟩ := List.length_eq_one_iff.mp hlength
    constructor
  case filter | limit | offset | setOp | pathKey | pathIndex | select | subquery =>
    obtain ⟨e, e', rfl⟩ := List.length_eq_two.mp hlength
    constructor
  case join | pivot =>
    obtain ⟨e, e', e'', rfl⟩ := List.length_eq_three.mp hlength
    constructor
  case lit | var | global =>
    obtain rfl := List.length_eq_zero_iff.mp hlength
    constructor
  case call function args => exact .call function args inputs hlength
  case tupleUnion args => exact .tupleUnion args inputs hlength
  case collection kind values => exact .collection kind values inputs hlength
  case project input projections =>
    obtain ⟨e, others, rfl⟩ := List.exists_cons_of_length_eq_add_one hlength
    exact .project input projections e others (Nat.succ.inj hlength)
  case sort input specs =>
    obtain ⟨e, others, rfl⟩ := List.exists_cons_of_length_eq_add_one hlength
    have hothers : others.length = (specs.map (·.2)).length := by
      simpa [Operator.children] using hlength
    have hfit := Fits.sort input specs e (others.zip (specs.map (·.2)))
      (List.map_snd_zip (Nat.le_of_eq hothers.symm))
    rwa [List.map_fst_zip (Nat.le_of_eq hothers)] at hfit
  case case branches default =>
    have hcount : inputs.length = 2 * branches.length + 1 := by
      simpa [Operator.children] using hlength
    obtain ⟨pairs, others, hpairs, hothers, rfl⟩ := exists_inPairs_append hcount
    obtain ⟨e, rfl⟩ := List.length_eq_one_iff.mp hothers
    exact .case branches default pairs e hpairs
  case struct fields =>
    have hcount : inputs.length = 2 * fields.length + 0 := by
      simpa [Operator.children] using hlength
    obtain ⟨pairs, others, hpairs, hothers, rfl⟩ := exists_inPairs_append hcount
    rw [List.length_eq_zero_iff.mp hothers, List.append_nil]
    exact .struct fields pairs hpairs
  case err message => exact absurd rfl hkind

/-- What the strategy of its kind makes of a node whose children are lowered. -/
def plain (mode : Mode) : Operator → List Expr → Expr
  | .scan _, [rex] => .scan rex mode.isPermissive
  | .scanIndexed _, [rex] => .scanIndexed rex mode.isPermissive
  | .unpivot _, [rex] => .unpivot rex mode.isPermissive
  | .filter _ _, [input, predicate] => .filter input predicate
  | .project _ _, input :: projections => .project input (projections.map (Expr.handled mode))
  | .projectAll _ quantifier, [input] => .projectAll input quantifier.isDistinct
  | .limit _ _, [input, bound] => .limit input bound
  | .offset _ _, [input, count] => .offset input count
  | .distinct _, [input] => .distinct input
  | .sort _ specs, input :: keys => .sort input (keys.zip (specs.map (·.2)))
  | .join _ _ _ joinType, [lhs, rhs, condition] => .join lhs rhs condition joinType
  | .exclude _ paths, [input] => .exclude input paths
  | .setOp kind quantifier _ _, [lhs, rhs] => .setOp kind quantifier.isDistinct lhs rhs
  | .lit value, _ => .literal value
  | .var depth offset, _ => if depth = 0 then .varLocal offset else .varOuter depth offset
  | .global name, _ => .global name
  | .pathKey _ _, [root, key] => .pathKey root key
  | .pathSymbol _ symbol, [root] => .pathSymbol root symbol
  | .pathIndex _ _, [root, index] => .pathIndex root index
  | .call function _, args => .call function args
  | .case _ _, inputs => .case (pairsOf inputs) (inputs.getLast?.getD default)
  | .cast _ target, [arg] => .cast arg target
  | .collection kind _, values => .collection kind (values.map (Expr.handled mode))
  | .struct _, inputs =>
    .struct ((pairsOf inputs).map fun field => (field.1, field.2.handled mode))
  | .tupleUnion _, args => .tupleUnion args
  | .select rel _, [lowered, constructor] =>
    .select lowered (constructor.handled mode) (rel.kind = .sort)
  | .subquery _ _ coercion, [rel, constructor] => .subquery rel constructor coercion
  | .pivot _ _ _, [rel, key, value] => .pivot rel key value mode.isPermissive
  | _, _ => default

@[simp]
theorem plain_sort (mode : Mode) (input : Operator) {specs : List (Operator × SortOrder)}
    (e : Expr) {keys : List (Expr × SortOrder)} (horders : keys.map (·.2) = specs.map (·.2)) :
    plain mode (.sort input specs) (e :: keys.map (·.1)) = .sort e keys := by
  have hkeys : (keys.map (·.1)).zip (specs.map (·.2)) = keys := by
    rw [← horders, List.zip_map']
    exact List.map_id keys
  rw [plain, hkeys]

@[simp]
theorem plain_case (mode : Mode) (branches : List (Operator × Operator)) (default : Operator)
    (pairs : List (Expr × Expr)) (e : Expr) :
    plain mode (.case branches default) (inPairs pairs ++ [e]) = .case pairs e := by
  simp [plain]

@[simp]
theorem plain_struct (mode : Mode) (fields : List (Operator × Operator))
    (pairs : List (Expr × Expr)) :
    plain mode (.struct fields) (inPairs pairs) =
      .struct (pairs.map fun field => (field.1, field.2.handled mode)) := by
  simp [plain]

section Mapped

variable (f : Expr → Expr) (mode : Mode)

theorem plain_sort_map (input : Operator) {specs : List (Operator × SortOrder)} (e : Expr)
    {keys : List (Expr × SortOrder)} (horders : keys.map (·.2) = specs.map (·.2)) :
    plain mode (.sort input specs) ((e :: keys.map (·.1)).map f) =
      .sort (f e) (keys.map fun key => (f key.1, key.2)) := by
  rw [List.map_cons, ← map_fst_mapFst, plain_sort]
  rw [map_snd_mapFst, horders]

theorem plain_case_map (branches : List (Operator × Operator)) (default : Operator)
    (pairs : List (Expr × Expr)) (e : Expr) :
    plain mode (.case branches default) ((inPairs pairs ++ [e]).map f) =
      .case (pairs.map (Prod.map f f)) (f e) := by
  rw [List.map_append, inPairs_map, List.map_singleton, plain_case]

theorem plain_struct_map (fields : List (Operator × Operator)) (pairs : List (Expr × Expr)) :
    plain mode (.struct fields) ((inPairs pairs).map f) =
      .struct (pairs.map fun field => (f field.1, (f field.2).handled mode)) := by
  rw [inPairs_map, plain_struct, List.map_map]
  rfl

end Mapped

/-- The fusion of a limit with the sort below it, where there is one to fuse. -/
def fused? : Operator → List Expr → Option Expr
  | .limit (.sort _ _) (.lit (.int n)), .sort input keys :: _ =>
    if 0 ≤ n.toInt then some (.topN input keys n.toUInt64) else none
  | _, _ => none

/-- One step of the lowering: a node together with its lowered children. -/
def combine (fuse : Bool) (mode : Mode) (node : Operator) (inputs : List Expr) : Expr :=
  if fuse then (fused? node inputs).getD (plain mode node inputs) else plain mode node inputs

/-- A fusion takes the place of a limit whose bound is a number from zero up and whose sort was
lowered to one. -/
theorem fused?_eq_some {node : Operator} {inputs : List Expr} {e : Expr}
    (h : fused? node inputs = some e) :
    ∃ input specs n source keys others, node = .limit (.sort input specs) (.lit (.int n)) ∧
      inputs = .sort source keys :: others ∧ 0 ≤ n.toInt ∧ e = .topN source keys n.toUInt64 := by
  unfold fused? at h
  split at h
  · next input specs n source keys others =>
      split at h
      · next hn =>
          exact ⟨input, specs, n, source, keys, others, rfl, rfl, hn, (Option.some.inj h).symm⟩
      · cases h
  · cases h

/-- A step is the plain one or a fusion. -/
theorem combine_cases (fuse : Bool) (mode : Mode) (node : Operator) (inputs : List Expr) :
    combine fuse mode node inputs = plain mode node inputs ∨
      ∃ input specs n source keys others, node = .limit (.sort input specs) (.lit (.int n)) ∧
        inputs = .sort source keys :: others ∧
        combine fuse mode node inputs = .topN source keys n.toUInt64 := by
  cases fuse with
  | false => exact Or.inl rfl
  | true =>
      rw [combine, if_pos rfl]
      cases hfused : fused? node inputs with
      | none => exact Or.inl rfl
      | some e =>
          obtain ⟨input, specs, n, source, keys, others, rfl, rfl, _, rfl⟩ := fused?_eq_some hfused
          exact Or.inr ⟨input, specs, n, source, keys, others, rfl, rfl, rfl⟩

end PlanLowering.Standard
