import PlanLowering.Proofs.Strategy.Lowered

/-!
The mode decides on marks and on nothing else. A strict statement bears none of them, the permissive
statement of the same plan is the strict one with the marks put on, and a plan that fails in one
mode fails in the other one with the same error.
-/

namespace PlanLowering

namespace Expr

/-- The marks of permissive mode put on an expression that has none. -/
def mark : Expr → Expr
  | scan rex _ => scan rex.mark true
  | scanIndexed rex _ => scanIndexed rex.mark true
  | unpivot rex _ => unpivot rex.mark true
  | filter input predicate => filter input.mark predicate.mark
  | project input projections =>
    project input.mark (projections.map fun projection => permissive projection.mark)
  | projectAll input isDistinct => projectAll input.mark isDistinct
  | limit input bound => limit input.mark bound.mark
  | offset input count => offset input.mark count.mark
  | topN input specs n =>
    topN input.mark (specs.map fun spec => (spec.1.mark, spec.2)) n
  | distinct input => distinct input.mark
  | sort input specs => sort input.mark (specs.map fun spec => (spec.1.mark, spec.2))
  | join lhs rhs condition joinType => join lhs.mark rhs.mark condition.mark joinType
  | exclude input paths => exclude input.mark paths
  | setOp kind isDistinct lhs rhs => setOp kind isDistinct lhs.mark rhs.mark
  | literal value => literal value
  | varLocal slot => varLocal slot
  | varOuter depth slot => varOuter depth slot
  | global name => global name
  | pathKey root key => pathKey root.mark key.mark
  | pathSymbol root symbol => pathSymbol root.mark symbol
  | pathIndex root index => pathIndex root.mark index.mark
  | call function args => call function (args.map mark)
  | case branches default =>
    case (branches.map fun branch => (branch.1.mark, branch.2.mark)) default.mark
  | cast arg target => cast arg.mark target
  | collection kind values => collection kind (values.map fun value => permissive value.mark)
  | struct fields => struct (fields.map fun field => (field.1.mark, permissive field.2.mark))
  | tupleUnion args => tupleUnion (args.map mark)
  | select rel constructor ordered => select rel.mark (permissive constructor.mark) ordered
  | subquery rel constructor coercion => subquery rel.mark constructor.mark coercion
  | pivot rel key value _ => pivot rel.mark key.mark value.mark true
  | permissive value => permissive value.mark
termination_by e => sizeOf e
decreasing_by
  all_goals grind [→ List.sizeOf_lt_of_mem, → sizeOf_fst_lt, → sizeOf_snd_lt]

/-- Whether the node itself bears a mark of permissive mode. -/
def isMarked : Expr → Bool
  | scan _ isPermissive | scanIndexed _ isPermissive | unpivot _ isPermissive
  | pivot _ _ _ isPermissive => isPermissive
  | permissive _ => true
  | _ => false

/-- A value that bears no mark is wrapped once. -/
theorem handled_mark {e : Expr} (h : e.isMarked = false) :
    e.mark.handled .permissive = permissive e.mark := by
  cases e with
  | permissive value => cases h
  | _ =>
      rw [mark]
      rfl

end Expr

namespace Standard

theorem map_handled_strict (values : List Expr) : values.map (Expr.handled .strict) = values :=
  List.map_id values

/-- In strict mode the inputs become the children as they are. -/
theorem children_plain {node : Operator} {inputs : List Expr} (hfits : Fits node inputs) :
    (plain .strict node inputs).children = inputs := by
  cases hfits with
  | project input projections e others => rw [plain, map_handled_strict, Expr.children]
  | sort input specs e keys horders => rw [plain_sort .strict input e horders, Expr.children]
  | collection kind values => rw [plain, map_handled_strict, Expr.children]
  | case branches default pairs e => rw [plain_case, Expr.children]
  | struct fields pairs =>
      rw [plain_struct]
      exact congrArg inPairs (List.map_id pairs)
  | var depth offset =>
      rw [plain]
      split <;> rfl
  | _ => rfl

theorem isMarked_plain {node : Operator} {inputs : List Expr} (hfits : Fits node inputs) :
    (plain .strict node inputs).isMarked = false := by
  cases hfits with
  | var depth offset =>
      rw [plain]
      split <;> rfl
  | _ => rfl

/-- One step of the strict lowering puts no mark anywhere. -/
theorem unmarked_combine {fuse : Bool} {node : Operator} {inputs : List Expr}
    (hfits : Fits node inputs)
    (hinputs : ∀ input ∈ inputs, ∀ e ∈ TreeNode.nodes input, e.isMarked = false) :
    ∀ e ∈ TreeNode.nodes (combine fuse .strict node inputs), e.isMarked = false := by
  rcases combine_cases fuse .strict node inputs with
    hplain | ⟨_, _, n, source, keys, others, rfl, rfl, hfused⟩
  · have hchildren : TreeNode.children (plain .strict node inputs) = inputs :=
      children_plain hfits
    rw [hplain, TreeNode.forall_mem_nodes_iff, hchildren]
    exact ⟨isMarked_plain hfits, hinputs⟩
  · -- the fused limit has the children of the sort
    have hsort := TreeNode.forall_mem_nodes_iff.mp (hinputs _ List.mem_cons_self)
    rw [hfused, TreeNode.forall_mem_nodes_iff]
    exact ⟨rfl, hsort.2⟩

/-- A strict lowering bears no marks. -/
theorem unmarked_lowered (fuse : Bool) {plan : Operator} (hplan : TreeNode.Sound plan) :
    ∀ e ∈ TreeNode.nodes (lowered fuse .strict plan), e.isMarked = false := by
  induction hplan with
  | intro hnode _ ih =>
      rw [lowered_eq]
      apply unmarked_combine (fits_lowered hnode fuse .strict)
      exact List.forall_mem_map.mpr ih

/-- The plain lowering of a node puts the marks where they belong. -/
theorem plain_mark {node : Operator} {inputs : List Expr} (hfits : Fits node inputs)
    (hinputs : ∀ e ∈ inputs, e.isMarked = false) :
    plain .permissive node (inputs.map Expr.mark) = (plain .strict node inputs).mark := by
  have hhandled : ∀ values : List Expr, (∀ e ∈ values, e.isMarked = false) →
      (values.map Expr.mark).map (Expr.handled .permissive) =
        values.map fun value => .permissive value.mark := by
    intro values hvalues
    rw [List.map_map]
    exact List.map_congr_left fun e he => Expr.handled_mark (hvalues e he)
  cases hfits with
  | project input projections e others =>
      rw [List.map_cons, plain, plain, map_handled_strict, Expr.mark, hhandled]
      exact fun e he => hinputs e (List.mem_cons_of_mem _ he)
  | sort input specs e keys horders =>
      rw [plain_sort .strict input e horders, plain_sort_map Expr.mark _ input e horders,
        Expr.mark]
  | call function args => rw [plain, plain, Expr.mark]
  | tupleUnion args => rw [plain, plain, Expr.mark]
  | collection kind values =>
      rw [plain, plain, map_handled_strict, Expr.mark, hhandled inputs hinputs]
  | case branches default pairs e =>
      rw [plain_case, plain_case_map, Expr.mark]
      rfl
  | struct fields pairs =>
      rw [plain_struct, plain_struct_map, Expr.mark, List.map_map]
      refine congrArg Expr.struct (List.map_congr_left fun field hfield => ?_)
      rw [Expr.handled_mark (hinputs _ (snd_mem_inPairs hfield))]
      rfl
  | select rel constructor e e' =>
      have he' : e'.mark.handled .permissive = .permissive e'.mark :=
        Expr.handled_mark (hinputs e' (by simp))
      rw [List.map_cons, List.map_singleton, plain, plain, he', Expr.mark]
      rfl
  | var depth offset =>
      rw [List.map_nil, plain, plain]
      split <;> rw [Expr.mark]
  | _ => simp [plain, Expr.mark, Mode.isPermissive]

/-- Marked inputs are fused where the inputs themselves are. -/
theorem fused?_mark (node : Operator) (inputs : List Expr) :
    fused? node (inputs.map Expr.mark) = (fused? node inputs).map Expr.mark := by
  cases hnode : topN.accepts node with
  | false => rw [fused?_eq_none hnode, fused?_eq_none hnode, Option.map_none]
  | true =>
      obtain ⟨input, specs, n, rfl, hn⟩ := topN_accepts_iff.mp hnode
      cases inputs with
      | nil => rfl
      | cons e others =>
          cases e with
          | sort source keys =>
              rw [List.map_cons, Expr.mark, fused?, fused?, if_pos hn, if_pos hn,
                Option.map_some, Expr.mark]
          | _ =>
              rw [List.map_cons, Expr.mark]
              rfl

theorem combine_mark {fuse : Bool} {node : Operator} {inputs : List Expr}
    (hfits : Fits node inputs) (hinputs : ∀ e ∈ inputs, e.isMarked = false) :
    combine fuse .permissive node (inputs.map Expr.mark) =
      (combine fuse .strict node inputs).mark := by
  have hplain := plain_mark hfits hinputs
  cases fuse with
  | false => exact hplain
  | true =>
      rw [combine, combine, if_pos rfl, if_pos rfl, fused?_mark]
      cases fused? node inputs with
      | none => exact hplain
      | some e => rfl

/-- The permissive lowering is the strict one with the marks put on. -/
theorem lowered_permissive (fuse : Bool) {plan : Operator} (hplan : TreeNode.Sound plan) :
    lowered fuse .permissive plan = (lowered fuse .strict plan).mark := by
  induction hplan with
  | @intro node hnode hchildren ih =>
      have hunmarked : ∀ e ∈ node.children.map (lowered fuse .strict), e.isMarked = false := by
        rw [List.forall_mem_map]
        intro child hchild
        exact (TreeNode.forall_mem_nodes_iff.mp
          (unmarked_lowered fuse (hchildren child hchild))).1
      rw [lowered_eq, lowered_eq, ← combine_mark (fits_lowered hnode fuse .strict) hunmarked,
        List.map_map]
      exact congrArg (combine fuse .permissive node) (List.map_congr_left ih)

/-- The mode affects only marks. A strict statement has none, the permissive statement of the same
plan is the strict one with the marks put on, and where one mode fails the other one fails with the
same error. -/
theorem mode_affects_only_marks :
    ∀ (options : CompilerOptions) (plan : Operator),
      (∀ e, (Compiler.standard.withOptions options).prepare plan .strict = .ok ⟨e, .strict⟩ →
        (Compiler.standard.withOptions options).prepare plan .permissive =
            .ok ⟨e.mark, .permissive⟩ ∧
          ∀ node ∈ TreeNode.nodes e, node.isMarked = false) ∧
      ∀ failure, (Compiler.standard.withOptions options).prepare plan .strict = .error failure ↔
        (Compiler.standard.withOptions options).prepare plan .permissive = .error failure := by
  intro options plan
  rw [prepare_standard, prepare_standard]
  cases hvalid : (Compiler.standard.withOptions options).validator.validate plan with
  | error failure => exact ⟨nofun, fun _ => Iff.rfl⟩
  | ok _ =>
      have hsound := PlanValidator.sound_of_validate hvalid
      refine ⟨?_, fun _ => ⟨nofun, nofun⟩⟩
      intro e hstrict
      obtain rfl : lowered true .strict plan = e :=
        congrArg Statement.root (Except.ok.inj hstrict)
      rw [← lowered_permissive true hsound]
      exact ⟨rfl, unmarked_lowered true hsound⟩

/-- The scan is marked and the constructor wrapped; a sort without keys fails in both modes. -/
theorem mode_affects_only_marks_firstRows :
    ((Compiler.standard.withOptions {}).prepare (.select firstRows (.var 0 0)) .permissive =
        .ok ⟨.select (.topN (.scan (.global "t") true) [(.varLocal 0, .ascNullsLast)] 3)
          (.permissive (.varLocal 0)) false, .permissive⟩ ∧
      ∀ node ∈ TreeNode.nodes (Expr.select
        (.topN (.scan (.global "t") false) [(.varLocal 0, .ascNullsLast)] 3) (.varLocal 0) false),
        node.isMarked = false) ∧
    (Compiler.standard.withOptions {}).prepare (.sort (.global "t") []) .permissive =
      .error (.malformed "Sort" .root "排序键为空") := by
  have hmark : Expr.mark (.select (.topN (.scan (.global "t") false)
      [(.varLocal 0, .ascNullsLast)] 3) (.varLocal 0) false) =
      .select (.topN (.scan (.global "t") true) [(.varLocal 0, .ascNullsLast)] 3)
        (.permissive (.varLocal 0)) false := by
    simp [Expr.mark]
  constructor
  · rw [← hmark]
    apply (mode_affects_only_marks {} (.select firstRows (.var 0 0))).1
    with_unfolding_all rfl
  · apply ((mode_affects_only_marks {} (.sort (.global "t") [])).2 _).mp
    with_unfolding_all rfl

end Standard

end PlanLowering
