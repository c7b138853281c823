import PlanLowering.Proofs.Strategy.Lowered
import Mathlib.Data.List.Permutation

/-!
The fusion agrees with the plain path. A registry with all standard strategies differs from another
one only in whether it tries the fusion first, and taking the fused limits apart makes up for that.
-/

namespace PlanLowering

namespace Expr

/-- Every fused limit taken apart into a limit with a literal bound and the sort below it. -/
def unfuse : Expr → Expr
  | scan rex isPermissive => scan rex.unfuse isPermissive
  | scanIndexed rex isPermissive => scanIndexed rex.unfuse isPermissive
  | unpivot rex isPermissive => unpivot rex.unfuse isPermissive
  | filter input predicate => filter input.unfuse predicate.unfuse
  | project input projections => project input.unfuse (projections.map unfuse)
  | projectAll input isDistinct => projectAll input.unfuse isDistinct
  | limit input bound => limit input.unfuse bound.unfuse
  | offset input count => offset input.unfuse count.unfuse
  | topN input specs n =>
    limit (sort input.unfuse (specs.map fun spec => (spec.1.unfuse, spec.2)))
      (literal (.int n.toInt64))
  | distinct input => distinct input.unfuse
  | sort input specs => sort input.unfuse (specs.map fun spec => (spec.1.unfuse, spec.2))
  | join lhs rhs condition joinType => join lhs.unfuse rhs.unfuse condition.unfuse joinType
  | exclude input paths => exclude input.unfuse paths
  | setOp kind isDistinct lhs rhs => setOp kind isDistinct lhs.unfuse rhs.unfuse
  | literal value => literal value
  | varLocal slot => varLocal slot
  | varOuter depth slot => varOuter depth slot
  | global name => global name
  | pathKey root key => pathKey root.unfuse key.unfuse
  | pathSymbol root symbol => pathSymbol root.unfuse symbol
  | pathIndex root index => pathIndex root.unfuse index.unfuse
  | call function args => call function (args.map unfuse)
  | case branches default =>
    case (branches.map fun branch => (branch.1.unfuse, branch.2.unfuse)) default.unfuse
  | cast arg target => cast arg.unfuse target
  | collection kind values => collection kind (values.map unfuse)
  | struct fields => struct (fields.map fun field => (field.1.unfuse, field.2.unfuse))
  | tupleUnion args => tupleUnion (args.map unfuse)
  | select rel constructor ordered => select rel.unfuse constructor.unfuse ordered
  | subquery rel constructor coercion => subquery rel.unfuse constructor.unfuse coercion
  | pivot rel key value isPermissive => pivot rel.unfuse key.unfuse value.unfuse isPermissive
  | permissive value => permissive value.unfuse
termination_by e => sizeOf e
decreasing_by
  all_goals grind [→ List.sizeOf_lt_of_mem, → sizeOf_fst_lt, → sizeOf_snd_lt]

theorem unfuse_handled (mode : Mode) (e : Expr) :
    (e.handled mode).unfuse = e.unfuse.handled mode := by
  cases mode with
  | strict => rfl
  | permissive => cases e <;> simp [handled, unfuse]

end Expr

namespace Standard

/-- Nothing in the plain lowering of a node depends on whether its children are fused. -/
theorem unfuse_plain {mode : Mode} {node : Operator} {inputs : List Expr}
    (hfits : Fits node inputs) :
    (plain mode node inputs).unfuse = plain mode node (inputs.map Expr.unfuse) := by
  have hhandled : ∀ values : List Expr, (values.map (Expr.handled mode)).map Expr.unfuse =
      (values.map Expr.unfuse).map (Expr.handled mode) := by
    simp [Expr.unfuse_handled]
  cases hfits with
  | project input projections e others =>
      rw [plain, Expr.unfuse, hhandled, List.map_cons, plain]
  | sort input specs e keys horders =>
      rw [plain_sort mode input e horders, plain_sort_map Expr.unfuse mode input e horders,
        Expr.unfuse]
  | call function args => rw [plain, Expr.unfuse, plain]
  | tupleUnion args => rw [plain, Expr.unfuse, plain]
  | collection kind values => rw [plain, Expr.unfuse, hhandled, plain]
  | case branches default pairs e =>
      rw [plain_case, plain_case_map, Expr.unfuse]
      rfl
  | struct fields pairs =>
      rw [plain_struct, plain_struct_map, Expr.unfuse, List.map_map]
      simp [Function.comp_def, Expr.unfuse_handled]
  | var depth offset =>
      rw [List.map_nil, plain]
      split <;> rw [Expr.unfuse]
  | _ => simp [plain, Expr.unfuse, Expr.unfuse_handled]

/-- A fusion taken apart is the plain lowering: the bound in it is the number in the literal. -/
theorem unfuse_combine {mode : Mode} {node : Operator} {inputs : List Expr}
    (hfits : Fits node inputs)
    (hbound : ∀ input n, node = .limit input (.lit (.int n)) →
      inputs[1]? = some (.literal (.int n))) :
    (combine true mode node inputs).unfuse = combine false mode node (inputs.map Expr.unfuse) := by
  have hright : combine false mode node (inputs.map Expr.unfuse) =
      plain mode node (inputs.map Expr.unfuse) := rfl
  rw [hright]
  rcases combine_cases true mode node inputs with
    hplain | ⟨input, specs, n, source, keys, others, rfl, rfl, hfused⟩
  · rw [hplain]
    exact unfuse_plain hfits
  · cases hfits with
    | limit _ _ _ bound =>
        obtain rfl : bound = .literal (.int n) := Option.some.inj (hbound _ n rfl)
        rw [hfused, Expr.unfuse, Int64.toInt64_toUInt64, List.map_cons, List.map_singleton,
          Expr.unfuse, Expr.unfuse, plain]

/-- With its fusions taken apart, a lowering is the one without fusion. -/
theorem unfuse_lowered (mode : Mode) {plan : Operator} (hplan : TreeNode.Sound plan) :
    (lowered true mode plan).unfuse = lowered false mode plan := by
  induction hplan with
  | @intro node hnode _ ih =>
      have hbound : ∀ input n, node = .limit input (.lit (.int n)) →
          (node.children.map (lowered true mode))[1]? = some (.literal (.int n)) := by
        rintro input n rfl
        exact congrArg some (lowered_lit true mode (.int n))
      rw [lowered_eq, lowered_eq, unfuse_combine (fits_lowered hnode true mode) hbound,
        List.map_map]
      exact congrArg (combine false mode node) (List.map_congr_left ih)

section Registry

variable {registry : List StandardStrategy}

theorem fuses_eq (registry : List StandardStrategy) :
    fuses registry =
      (registry.filter forLimits).head?.any fun strategy => strategy.name == topN.name := by
  rw [fuses, List.head?_filter]

/-- Only two strategies are for limits, so only their order is left open. -/
theorem filter_forLimits (hperm : registry.Perm strategies) :
    registry.filter forLimits = [topN, limit] ∨ registry.filter forLimits = [limit, topN] := by
  have hlimits : strategies.filter forLimits = [topN, limit] := rfl
  rw [← List.perm_pair, ← hlimits]
  exact hperm.filter forLimits

theorem fuses_of_perm_unfused (hperm : registry.Perm unfused) : fuses registry = false := by
  have hlimits : unfused.filter forLimits = [limit] := rfl
  have hfilter : registry.filter forLimits = [limit] := by
    rw [← List.perm_singleton, ← hlimits]
    exact hperm.filter forLimits
  rw [fuses_eq, hfilter]
  decide

/-- In which order a registry with all strategies has the two for limits. -/
theorem filter_forLimits_eq (hperm : registry.Perm strategies) {order : List StandardStrategy}
    (hall : order.filter forLimits = order) (hlength : order.length = 2)
    (horder : order.Sublist registry) : registry.filter forLimits = order := by
  have hsublist := horder.filter forLimits
  rw [hall] at hsublist
  refine (hsublist.eq_of_length ?_).symm
  rcases filter_forLimits hperm with hfilter | hfilter <;> rw [hfilter, hlength] <;> rfl

theorem fuses_of_topN_first (hperm : registry.Perm strategies)
    (horder : [topN, limit].Sublist registry) : fuses registry = true := by
  rw [fuses_eq, filter_forLimits_eq hperm rfl rfl horder]
  decide

theorem fuses_of_topN_last (hperm : registry.Perm strategies)
    (horder : [limit, topN].Sublist registry) : fuses registry = false := by
  rw [fuses_eq, filter_forLimits_eq hperm rfl rfl horder]
  decide

/-- What the place of the fusion in a registry amounts to. -/
theorem topN_first_or_last (hperm : registry.Perm strategies) :
    [topN, limit].Sublist registry ∨ [limit, topN].Sublist registry := by
  rcases filter_forLimits hperm with hfilter | hfilter
  · exact Or.inl (hfilter ▸ List.filter_sublist)
  · exact Or.inr (hfilter ▸ List.filter_sublist)

variable (options : CompilerOptions) (plan : Operator) (mode : Mode)

/-- With the fusion tried first a registry compiles as the standard one does. -/
theorem prepare_eq_standard (hperm : registry.Perm strategies)
    (horder : [topN, limit].Sublist registry) :
    (⟨registry, options⟩ : Compiler Operator Expr).prepare plan mode =
      (Compiler.standard.withOptions options).prepare plan mode := by
  have hcomplete : ∀ strategy ∈ unfused, strategy ∈ registry :=
    fun _ h => hperm.symm.subset (mem_strategies_of_mem_unfused h)
  rw [prepare_eq_lowered (fun _ h => hperm.subset h) hcomplete,
    fuses_of_topN_first hperm horder, prepare_standard]
  rfl

/-- A registry that never fuses compiles to the standard statement with its fusions taken apart. -/
theorem prepare_eq_unfused_of_fuses (hregistry : ∀ strategy ∈ registry, strategy ∈ strategies)
    (hcomplete : ∀ strategy ∈ unfused, strategy ∈ registry) (hfuses : fuses registry = false) :
    (⟨registry, options⟩ : Compiler Operator Expr).prepare plan mode =
      ((Compiler.standard.withOptions options).prepare plan mode).map
        (Statement.mapRoot Expr.unfuse) := by
  rw [prepare_eq_lowered hregistry hcomplete, hfuses, prepare_standard]
  change (PlanValidator.validate ⟨options.maxPlanDepth.toNat⟩ plan).map _ =
    ((PlanValidator.validate ⟨options.maxPlanDepth.toNat⟩ plan).map _).map _
  cases hvalid : PlanValidator.validate ⟨options.maxPlanDepth.toNat⟩ plan with
  | error failure => rfl
  | ok _ =>
      rw [← unfuse_lowered mode (PlanValidator.sound_of_validate hvalid)]
      rfl

theorem prepare_eq_unfused
    (hregistry : (registry.Perm strategies ∧ [limit, topN].Sublist registry) ∨
      registry.Perm unfused) :
    (⟨registry, options⟩ : Compiler Operator Expr).prepare plan mode =
      ((Compiler.standard.withOptions options).prepare plan mode).map
        (Statement.mapRoot Expr.unfuse) := by
  rcases hregistry with ⟨hperm, horder⟩ | hperm
  · apply prepare_eq_unfused_of_fuses
    · exact fun _ h => hperm.subset h
    · exact fun _ h => hperm.symm.subset (mem_strategies_of_mem_unfused h)
    · exact fuses_of_topN_last hperm horder
  · apply prepare_eq_unfused_of_fuses
    · exact fun _ h => mem_strategies_of_mem_unfused (hperm.subset h)
    · exact fun _ h => hperm.symm.subset h
    · exact fuses_of_perm_unfused hperm

/-- Two orders of the standard strategies compile alike if they agree in the place of the fusion. -/
theorem prepare_eq_of_same_order {other : List StandardStrategy}
    (hperm : registry.Perm strategies) (hother : other.Perm strategies)
    (hsame : [topN, limit].Sublist registry ↔ [topN, limit].Sublist other) :
    (⟨registry, options⟩ : Compiler Operator Expr).prepare plan mode =
      (⟨other, options⟩ : Compiler Operator Expr).prepare plan mode := by
  by_cases hfirst : [topN, limit].Sublist registry
  · rw [prepare_eq_standard options plan mode hperm hfirst,
      prepare_eq_standard options plan mode hother (hsame.mp hfirst)]
  · have hlast := (topN_first_or_last hperm).resolve_left hfirst
    have hlast' := (topN_first_or_last hother).resolve_left (mt hsame.mpr hfirst)
    rw [prepare_eq_unfused options plan mode (Or.inl ⟨hperm, hlast⟩),
      prepare_eq_unfused options plan mode (Or.inl ⟨hother, hlast'⟩)]

end Registry

/-- Of the order of the standard strategies only the place of the fusion matters. Before the
strategy for limits it is as in the standard registry; after it, or left out, every fused limit of
the standard statement comes apart. -/
theorem fusion_agrees_with_plain_path :
    (∀ (registry : List StandardStrategy) (options : CompilerOptions) (plan : Operator)
      (mode : Mode), registry.Perm strategies → [topN, limit].Sublist registry →
      (⟨registry, options⟩ : Compiler Operator Expr).prepare plan mode =
        (Compiler.standard.withOptions options).prepare plan mode) ∧
    (∀ (registry : List StandardStrategy) (options : CompilerOptions) (plan : Operator)
      (mode : Mode),
      (registry.Perm strategies ∧ [limit, topN].Sublist registry) ∨ registry.Perm unfused →
      (⟨registry, options⟩ : Compiler Operator Expr).prepare plan mode =
        ((Compiler.standard.withOptions options).prepare plan mode).map
          (Statement.mapRoot Expr.unfuse)) ∧
    ∀ (registry other : List StandardStrategy) (options : CompilerOptions) (plan : Operator)
      (mode : Mode), registry.Perm strategies → other.Perm strategies →
      ([topN, limit].Sublist registry ↔ [topN, limit].Sublist other) →
      (⟨registry, options⟩ : Compiler Operator Expr).prepare plan mode =
        (⟨other, options⟩ : Compiler Operator Expr).prepare plan mode := by
  refine ⟨?_, ?_, ?_⟩
  · intro registry options plan mode hperm horder
    exact prepare_eq_standard options plan mode hperm horder
  · intro registry options plan mode hregistry
    exact prepare_eq_unfused options plan mode hregistry
  · intro registry other options plan mode hperm hother hsame
    exact prepare_eq_of_same_order options plan mode hperm hother hsame

/-- With the other strategies reversed the fusion takes place; registered last, or not at all, it
does not. -/
theorem fusion_agrees_with_plain_path_firstRows :
    (⟨topN :: unfused.reverse, {}⟩ : Compiler Operator Expr).prepare firstRows .strict =
      .ok ⟨.topN (.scan (.global "t") false) [(.varLocal 0, .ascNullsLast)] 3, .strict⟩ ∧
    (⟨strategies, {}⟩ : Compiler Operator Expr).prepare firstRows .strict =
      .ok ⟨.topN (.scan (.global "t") false) [(.varLocal 0, .ascNullsLast)] 3, .strict⟩ ∧
    (⟨unfused ++ [topN], {}⟩ : Compiler Operator Expr).prepare firstRows .strict =
      .ok ⟨.limit (.sort (.scan (.global "t") false) [(.varLocal 0, .ascNullsLast)])
        (.literal (.int 3)), .strict⟩ ∧
    (⟨unfused.reverse, {}⟩ : Compiler Operator Expr).prepare firstRows .strict =
      .ok ⟨.limit (.sort (.scan (.global "t") false) [(.varLocal 0, .ascNullsLast)])
        (.literal (.int 3)), .strict⟩ := by
  have hlimit : limit ∈ unfused := by simp [unfused, strategies]
  have hreversed : (topN :: unfused.reverse).Perm strategies := unfused.reverse_perm.cons topN
  have hlast : (unfused ++ [topN]).Perm strategies := List.perm_append_singleton topN unfused
  have hfirst : [topN, limit].Sublist (topN :: unfused.reverse) :=
    (List.singleton_sublist.mpr (List.mem_reverse.mpr hlimit)).cons_cons topN
  have hstandard : (Compiler.standard.withOptions {}).prepare firstRows .strict =
      .ok ⟨.topN (.scan (.global "t") false) [(.varLocal 0, .ascNullsLast)] 3, .strict⟩ := by
    with_unfolding_all rfl
  have hunfuse : Expr.unfuse (.topN (.scan (.global "t") false) [(.varLocal 0, .ascNullsLast)] 3) =
      .limit (.sort (.scan (.global "t") false) [(.varLocal 0, .ascNullsLast)])
        (.literal (.int 3)) := by
    with_unfolding_all rfl
  have hfused := fusion_agrees_with_plain_path.1 _ {} firstRows .strict hreversed hfirst
  rw [hstandard] at hfused
  refine ⟨hfused, ?_, ?_, ?_⟩
  · have horder : [topN, limit].Sublist strategies :=
      (List.singleton_sublist.mpr hlimit).cons_cons topN
    rw [← hfused]
    exact fusion_agrees_with_plain_path.2.2 _ _ {} firstRows .strict (List.Perm.refl _) hreversed
      (iff_of_true horder hfirst)
  · have horder : [limit, topN].Sublist (unfused ++ [topN]) :=
      (List.singleton_sublist.mpr hlimit).append (List.Sublist.refl [topN])
    rw [fusion_agrees_with_plain_path.2.1 _ {} firstRows .strict (Or.inl ⟨hlast, horder⟩),
      hstandard, Except.map, Statement.mapRoot, hunfuse]
  · rw [fusion_agrees_with_plain_path.2.1 _ {} firstRows .strict (Or.inr unfused.reverse_perm),
      hstandard, Except.map, Statement.mapRoot, hunfuse]

end Standard

end PlanLowering
