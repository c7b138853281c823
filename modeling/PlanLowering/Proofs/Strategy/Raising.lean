import PlanLowering.Proofs.Strategy.Lowered

/-!
The lowering loses nothing. An expression is raised field by field to the plan it was lowered from:
marks and wrappers are dropped, and a fused limit comes apart into the limit and its sort.
-/

namespace PlanLowering

/-- The quantifier that a flag for distinct rows stands for. -/
def SetQuantifier.ofDistinct : Bool → SetQuantifier
  | false => .all
  | true => .distinct

@[simp]
theorem SetQuantifier.ofDistinct_isDistinct (quantifier : SetQuantifier) :
    ofDistinct quantifier.isDistinct = quantifier := by
  cases quantifier <;> rfl

namespace Expr

/-- The plan that an expression is the lowering of. -/
def raise : Expr → Operator
  | scan rex _ => .scan rex.raise
  | scanIndexed rex _ => .scanIndexed rex.raise
  | unpivot rex _ => .unpivot rex.raise
  | filter input predicate => .filter input.raise predicate.raise
  | project input projections => .project input.raise (projections.map raise)
  | projectAll input isDistinct => .projectAll input.raise (.ofDistinct isDistinct)
  | limit input bound => .limit input.raise bound.raise
  | offset input count => .offset input.raise count.raise
  | topN input specs n =>
    .limit (.sort input.raise (specs.map fun spec => (spec.1.raise, spec.2)))
      (.lit (.int n.toInt64))
  | distinct input => .distinct input.raise
  | sort input specs => .sort input.raise (specs.map fun spec => (spec.1.raise, spec.2))
  | join lhs rhs condition joinType => .join lhs.raise rhs.raise condition.raise joinType
  | exclude input paths => .exclude input.raise paths
  | setOp kind isDistinct lhs rhs => .setOp kind (.ofDistinct isDistinct) lhs.raise rhs.raise
  | literal value => .lit value
  | varLocal slot => .var 0 slot
  | varOuter depth slot => .var depth slot
  | global name => .global name
  | pathKey root key => .pathKey root.raise key.raise
  | pathSymbol root symbol => .pathSymbol root.raise symbol
  | pathIndex root index => .pathIndex root.raise index.raise
  | call function args => .call function (args.map raise)
  | case branches default =>
    .case (branches.map fun branch => (branch.1.raise, branch.2.raise)) default.raise
  | cast arg target => .cast arg.raise target
  | collection kind values => .collection kind (values.map raise)
  | struct fields => .struct (fields.map fun field => (field.1.raise, field.2.raise))
  | tupleUnion args => .tupleUnion (args.map raise)
  | select rel constructor _ => .select rel.raise constructor.raise
  | subquery rel constructor coercion => .subquery rel.raise constructor.raise coercion
  | pivot rel key value _ => .pivot rel.raise key.raise value.raise
  | permissive value => value.raise
termination_by e => sizeOf e
decreasing_by
  all_goals grind [→ List.sizeOf_lt_of_mem, → sizeOf_fst_lt, → sizeOf_snd_lt]

@[simp]
theorem raise_handled (mode : Mode) (e : Expr) : (e.handled mode).raise = e.raise := by
  unfold handled
  split <;> simp [raise]

end Expr

namespace Standard

/-- A node comes back from its lowering if its children come back from theirs. -/
theorem raise_plain {mode : Mode} {node : Operator} {inputs : List Expr}
    (hfits : Fits node inputs) (hinputs : inputs.map Expr.raise = node.children) :
    (plain mode node inputs).raise = node := by
  have hhandled : ∀ values : List Expr,
      (values.map (Expr.handled mode)).map Expr.raise = values.map Expr.raise := by
    simp
  cases hfits with
  | project input projections e others =>
      obtain ⟨he, hothers⟩ := List.cons.inj hinputs
      rw [plain, Expr.raise, hhandled, he, hothers]
  | sort input specs e keys horders =>
      obtain ⟨he, hkeys⟩ := List.cons.inj hinputs
      have hspecs : keys.map (fun key => (key.1.raise, key.2)) = specs := by
        apply eq_of_map_fst_of_map_snd
        · rw [map_fst_mapFst, hkeys]
        · rw [map_snd_mapFst, horders]
      rw [plain_sort mode input e horders, Expr.raise, he, hspecs]
  | call function args => rw [plain, Expr.raise, hinputs, Operator.children]
  | tupleUnion args => rw [plain, Expr.raise, hinputs, Operator.children]
  | collection kind values =>
      rw [plain, Expr.raise, hhandled, hinputs, Operator.children]
  | case branches default pairs e =>
      rw [List.map_append, inPairs_map] at hinputs
      obtain ⟨hpairs, he⟩ := List.append_inj' hinputs rfl
      rw [plain_case, Expr.raise, List.head_eq_of_cons_eq he]
      exact congrArg₂ Operator.case (inPairs_injective hpairs) rfl
  | struct fields pairs =>
      rw [inPairs_map] at hinputs
      have hpairs : pairs.map (Prod.map Expr.raise Expr.raise) = fields :=
        inPairs_injective hinputs
      simp only [plain_struct, Expr.raise, List.map_map, ← hpairs]
      simp
  | var depth offset =>
      rw [plain]
      split
      · next h => rw [Expr.raise, h]
      · rw [Expr.raise]
  | lit | global => rw [plain, Expr.raise]
  | _ => simpa [plain, Expr.raise, Operator.children] using hinputs

/-- So does a limit that was fused with its sort: the bound is the number in the literal. -/
theorem raise_combine {fuse : Bool} {mode : Mode} {node : Operator} {inputs : List Expr}
    (hfits : Fits node inputs) (hinputs : inputs.map Expr.raise = node.children) :
    (combine fuse mode node inputs).raise = node := by
  rcases combine_cases fuse mode node inputs with
    hplain | ⟨input, specs, n, source, keys, others, rfl, rfl, hfused⟩
  · rw [hplain]
    exact raise_plain hfits hinputs
  · have hsort := (List.cons.inj hinputs).1
    rw [Expr.raise] at hsort
    rw [hfused, Expr.raise, hsort, Int64.toInt64_toUInt64]

/-- Every sound plan comes back from its lowering. -/
theorem raise_lowered (fuse : Bool) (mode : Mode) {plan : Operator}
    (hplan : TreeNode.Sound plan) : (lowered fuse mode plan).raise = plan := by
  induction hplan with
  | intro hnode _ ih =>
      rw [lowered_eq]
      apply raise_combine (fits_lowered hnode fuse mode)
      rw [List.map_map]
      exact (List.map_congr_left ih).trans (List.map_id _)

theorem raise_of_prepare {options : CompilerOptions} {plan : Operator} {mode : Mode}
    {statement : Statement Expr}
    (hprepare : (Compiler.standard.withOptions options).prepare plan mode = .ok statement) :
    statement.root.raise = plan ∧ statement.mode = mode := by
  rw [prepare_standard] at hprepare
  cases hvalid : (Compiler.standard.withOptions options).validator.validate plan with
  | error failure =>
      rw [hvalid] at hprepare
      cases hprepare
  | ok _ =>
      rw [hvalid] at hprepare
      obtain rfl := Except.ok.inj hprepare
      exact ⟨raise_lowered _ mode (PlanValidator.sound_of_validate hvalid), rfl⟩

/-- The lowering by all standard strategies loses nothing: a plan comes back from its statement, and
so no two plans have the same one. -/
theorem lowering_lossless :
    (∀ (options : CompilerOptions) (plan : Operator) (mode : Mode) (statement : Statement Expr),
      (Compiler.standard.withOptions options).prepare plan mode = .ok statement →
      statement.root.raise = plan ∧ statement.mode = mode) ∧
    ∀ (options options' : CompilerOptions) (plan plan' : Operator) (mode : Mode)
      (statement : Statement Expr),
      (Compiler.standard.withOptions options).prepare plan mode = .ok statement →
      (Compiler.standard.withOptions options').prepare plan' mode = .ok statement →
      plan = plan' := by
  refine ⟨fun _ _ _ _ => raise_of_prepare, ?_⟩
  intro options options' plan plan' mode statement hprepare hprepare'
  calc plan = statement.root.raise := (raise_of_prepare hprepare).1.symm
    _ = plan' := (raise_of_prepare hprepare').1

/-- Mark, wrapper and fusion of a permissive statement are undone. -/
theorem lowering_lossless_firstRows :
    ((Expr.select (.topN (.scan (.global "t") true) [(.varLocal 0, .ascNullsLast)] 3)
        (.permissive (.varLocal 0)) false).raise = .select firstRows (.var 0 0) ∧
      Mode.permissive = .permissive) ∧
    Operator.select firstRows (.var 0 0) = .select firstRows (.var 0 0) := by
  let statement : Statement Expr :=
    ⟨.select (.topN (.scan (.global "t") true) [(.varLocal 0, .ascNullsLast)] 3)
      (.permissive (.varLocal 0)) false, .permissive⟩
  have hprepare : (Compiler.standard.withOptions {}).prepare
      (.select firstRows (.var 0 0)) .permissive = .ok statement := by
    with_unfolding_all rfl
  exact ⟨lowering_lossless.1 {} _ .permissive statement hprepare,
    lowering_lossless.2 {} {} _ _ .permissive statement hprepare hprepare⟩

end Standard

end PlanLowering
