import PlanLowering.Proofs.Compiler.Outcome
import PlanLowering.Proofs.Strategy.Application
import Mathlib.Data.List.Find

/-!
The lowering of a plan by standard strategies, written as one recursion over the plan. For a
registry drawn from the standard strategies, compiling comes to exactly this: a node that no strategy
of the registry wants is reported, the first in pre-order, and otherwise the result is
`Standard.lowered`. The registry enters it only through the question whether limits above sorts are
fused.
-/

namespace PlanLowering

def Statement.mapRoot {E : Type} (f : E → E) (statement : Statement E) : Statement E :=
  { statement with root := f statement.root }

namespace Standard

/-- The lowering of a plan, with or without fusion. -/
def lowered (fuse : Bool) (mode : Mode) : Operator → Expr :=
  TreeNode.fold (combine fuse mode)

/-- The first three rows of a table by one column. -/
def firstRows : Operator :=
  .limit (.sort (.scan (.global "t")) [(.var 0 0, .ascNullsLast)]) (.lit (.int 3))

theorem lowered_eq (fuse : Bool) (mode : Mode) (node : Operator) :
    lowered fuse mode node =
      combine fuse mode node (node.children.map (lowered fuse mode)) :=
  TreeNode.fold_eq (combine fuse mode) node

/-- A lowered node is a step from its lowered children, which fit it. -/
theorem fits_lowered {node : Operator} (hnode : node.defect? = none) (fuse : Bool) (mode : Mode) :
    Fits node (node.children.map (lowered fuse mode)) :=
  fits_of_length (kind_ne_err hnode) (List.length_map _)

theorem fused?_eq_none {node : Operator} (h : topN.accepts node = false) (inputs : List Expr) :
    fused? node inputs = none := by
  unfold fused?
  split
  · rename_i input specs n source keys others
    rw [if_neg]
    intro hn
    rw [topN_accepts_iff.mpr ⟨input, specs, n, rfl, hn⟩] at h
    cases h
  · rfl

def forLimits (strategy : StandardStrategy) : Bool :=
  strategy.pattern.kind = OperatorKind.limit

/-- Whether the registry tries the fusion before it lowers a limit on its own. -/
def fuses (registry : List StandardStrategy) : Bool :=
  (registry.find? forLimits).any fun strategy => strategy.name == topN.name

theorem name_ne_of_mem_unfused {strategy : StandardStrategy} (h : strategy ∈ unfused) :
    strategy.name ≠ topN.name := by
  have hnames : topN.name ∉ unfused.map Strategy.name := by decide
  intro hname
  exact hnames (hname ▸ List.mem_map_of_mem h)

theorem lowered_lit (fuse : Bool) (mode : Mode) (value : Value) :
    lowered fuse mode (.lit value) = .literal value := by
  rw [lowered_eq]
  cases fuse <;> rfl

theorem lowered_sort (fuse : Bool) (mode : Mode) (input : Operator)
    (specs : List (Operator × SortOrder)) :
    ∃ source keys, lowered fuse mode (.sort input specs) = .sort source keys := by
  rw [lowered_eq]
  cases fuse <;> exact ⟨_, _, rfl⟩

section Registry

variable {registry : List StandardStrategy}
  (hregistry : ∀ strategy ∈ registry, strategy ∈ strategies)

include hregistry

/-- Where a fusion is possible, the choice is the same everywhere. -/
theorem select_eq_find?_limit {node : Operator} (hnode : topN.accepts node = true) :
    Strategy.select registry node = registry.find? forLimits := by
  obtain ⟨input, specs, n, rfl, hn⟩ := topN_accepts_iff.mp hnode
  apply List.find?_congr
  intro strategy hmem
  rcases mem_strategies_iff.mp (hregistry strategy hmem) with rfl | hunfused
  · exact hnode
  · rw [(unfused_spec hunfused).2]
    exact decide_eq_decide.mpr eq_comm

/-- The strategy chosen for a node succeeds on any inputs, one for each child, as long as a sort
below a limit was lowered to a sort. -/
theorem apply_eq_combine {node : Operator} {strategy : StandardStrategy}
    (hselect : Strategy.select registry node = some strategy) {inputs : List Expr}
    (hinputs : inputs.length = TreeNode.childCount node)
    (hsort : ∀ input specs bound, node = .limit (.sort input specs) bound →
      ∃ source keys, inputs.head? = some (.sort source keys))
    (mode : Mode) (path : NodePath) :
    strategy.apply (.ofInputs node mode path strategy.name inputs) =
      .ok (combine (fuses registry) mode node inputs) := by
  obtain ⟨hmem, haccepts⟩ := Strategy.select_spec hselect
  rcases mem_strategies_iff.mp (hregistry strategy hmem) with rfl | hunfused
  · -- the fusion: the registry tries it first, and the sort is there to be taken apart
    have hfuses : fuses registry = true := by
      rw [fuses, ← select_eq_find?_limit hregistry haccepts, hselect]
      rfl
    obtain ⟨input, specs, n, rfl, hn⟩ := topN_accepts_iff.mp haccepts
    obtain ⟨lowered, bound, rfl⟩ := List.length_eq_two.mp hinputs
    obtain ⟨source, keys, hhead⟩ := hsort input specs _ rfl
    obtain rfl : lowered = .sort source keys := Option.some.inj hhead
    rw [topN_apply_sort mode path _ input specs hn, hfuses, combine, if_pos rfl, fused?,
      if_pos hn]
    rfl
  · rw [apply_eq_plain mode path _ hunfused haccepts hinputs, combine]
    cases hfuses : fuses registry with
    | false => rfl
    | true =>
        cases hnode : topN.accepts node with
        | false => rw [fused?_eq_none hnode, Option.getD_none, ite_self]
        | true =>
            rw [fuses, ← select_eq_find?_limit hregistry hnode, hselect] at hfuses
            exact absurd (beq_iff_eq.mp hfuses) (name_ne_of_mem_unfused hunfused)

end Registry

/-- Compiling with standard strategies, in any number and order. -/
theorem outcome_eq_lowered {compiler : Compiler Operator Expr}
    (hregistry : ∀ strategy ∈ compiler.strategies, strategy ∈ strategies) (mode : Mode)
    (node : Operator) (path : NodePath) :
    compiler.outcome mode node path =
      (compiler.firstUnmatched node path).elim
        (.ok (lowered (fuses compiler.strategies) mode node)) .error := by
  apply Compiler.outcome_eq_of_apply_ok
  intro node path strategy hselect
  rw [lowered_eq]
  apply apply_eq_combine hregistry hselect
  · exact List.length_map _
  · rintro input specs bound rfl
    obtain ⟨source, keys, hlowered⟩ := lowered_sort (fuses compiler.strategies) mode input specs
    exact ⟨source, keys, congrArg some hlowered⟩

/-- A registry of standard strategies lowers a valid plan, unless one of its nodes has no strategy
there; the first such node in pre-order is reported. -/
theorem prepare_eq_firstUnmatched {compiler : Compiler Operator Expr}
    (hregistry : ∀ strategy ∈ compiler.strategies, strategy ∈ strategies) {plan : Operator}
    (hvalid : compiler.validator.validate plan = .ok ()) (mode : Mode) :
    compiler.prepare plan mode = (compiler.firstUnmatched plan .root).elim
      (.ok ⟨lowered (fuses compiler.strategies) mode plan, mode⟩) .error := by
  rw [Compiler.prepare_eq, outcome_eq_lowered hregistry, hvalid]
  cases compiler.firstUnmatched plan .root <;> rfl

/-- If it has one for each kind, it lowers every valid plan. -/
theorem prepare_eq_lowered {compiler : Compiler Operator Expr}
    (hregistry : ∀ strategy ∈ compiler.strategies, strategy ∈ strategies)
    (hcomplete : ∀ strategy ∈ unfused, strategy ∈ compiler.strategies)
    (plan : Operator) (mode : Mode) :
    compiler.prepare plan mode = (compiler.validator.validate plan).map fun _ =>
      ⟨lowered (fuses compiler.strategies) mode plan, mode⟩ := by
  cases hvalid : compiler.validator.validate plan with
  | error failure =>
      rw [Compiler.prepare_eq, hvalid]
      rfl
  | ok _ =>
      have hnodes := PlanValidator.validate_eq_ok_iff.mp hvalid
      have hmatched : compiler.firstUnmatched plan .root = none := by
        apply TreeNode.firstFault_eq_none_iff.mpr
        intro place hplace
        obtain ⟨strategy, hstrategy, haccepts⟩ := exists_accepts (hnodes place hplace).2
        rw [Compiler.unmatched?_eq_none_iff, Compiler.select_isSome_iff]
        exact ⟨strategy, hcomplete strategy hstrategy, haccepts⟩
      rw [prepare_eq_firstUnmatched hregistry hvalid, hmatched]
      rfl

theorem prepare_standard (options : CompilerOptions) (plan : Operator) (mode : Mode) :
    (Compiler.standard.withOptions options).prepare plan mode =
      ((Compiler.standard.withOptions options).validator.validate plan).map fun _ =>
        ⟨lowered true mode plan, mode⟩ :=
  prepare_eq_lowered (fun _ h => h) (fun _ => mem_strategies_of_mem_unfused) plan mode

end Standard

end PlanLowering
