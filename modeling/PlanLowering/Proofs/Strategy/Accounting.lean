import PlanLowering.Proofs.Strategy.Vocabulary
import PlanLowering.Proofs.Tree.Extent
import Mathlib.Algebra.BigOperators.Ring.List

/-!
What lowering costs. The wrappers of permissive mode are one for each value position, a fusion saves
the limit's own node and that of its bound, and nothing else is gained or lost. Only wrappers can
make an expression deeper than its plan, and there is never more than one between a node and its
parent.
-/

namespace PlanLowering

/-- How many wrappers the mode puts around a value. -/
def Mode.wrappers : Mode → Nat
  | strict => 0
  | permissive => 1

namespace Operator

/-- A limit above a sort whose bound is a literal from zero up. -/
def isFusible : Operator → Bool
  | limit (sort _ _) (lit (.int n)) => 0 ≤ n.toInt
  | _ => false

/-- The children in value positions. -/
def valueParts : Operator → List Operator
  | project _ projections => projections
  | collection _ values => values
  | struct fields => fields.map (·.2)
  | select _ constructor => [constructor]
  | _ => []

/-- How many limits of a plan are fused. -/
def fusions (plan : Operator) : Nat :=
  (TreeNode.nodes plan).countP isFusible

/-- How many value positions there are in a plan. -/
def valuePositions (plan : Operator) : Nat :=
  ((TreeNode.nodes plan).flatMap valueParts).length

theorem isFusible_iff {node : Operator} :
    node.isFusible = true ↔ ∃ input specs n,
      node = limit (sort input specs) (lit (.int n)) ∧ 0 ≤ n.toInt := by
  constructor
  · intro h
    unfold isFusible at h
    split at h
    · next input specs n => exact ⟨input, specs, n, rfl, of_decide_eq_true h⟩
    · cases h
  · rintro ⟨input, specs, n, rfl, hn⟩
    exact decide_eq_true hn

theorem fusions_eq (plan : Operator) :
    plan.fusions = plan.isFusible.toNat + (plan.children.map fusions).sum := by
  rw [fusions, TreeNode.nodes_eq, List.countP_cons, List.countP_flatMap, Nat.add_comm]
  cases plan.isFusible <;> rfl

theorem valuePositions_eq (plan : Operator) :
    plan.valuePositions = plan.valueParts.length + (plan.children.map valuePositions).sum := by
  rw [valuePositions, TreeNode.nodes_eq, List.flatMap_cons, List.length_append, List.flatMap_assoc,
    List.length_flatMap]
  rfl

end Operator

namespace Expr

variable {mode : Mode} {e : Expr}

theorem handled_cases (mode : Mode) (hbare : e.kind ≠ .permissive) :
    (mode.wrappers = 0 ∧ e.handled mode = e) ∨
      (mode.wrappers = 1 ∧ e.handled mode = permissive e) := by
  cases mode with
  | strict => exact Or.inl ⟨rfl, rfl⟩
  | permissive =>
      cases e with
      | permissive => exact absurd rfl hbare
      | _ => exact Or.inr ⟨rfl, rfl⟩

theorem size_handled (mode : Mode) (hbare : e.kind ≠ .permissive) :
    TreeNode.size (e.handled mode) = TreeNode.size e + mode.wrappers := by
  rcases handled_cases mode hbare with ⟨hwrappers, hhandled⟩ | ⟨hwrappers, hhandled⟩
  · rw [hhandled, hwrappers, Nat.add_zero]
  · rw [hhandled, hwrappers, TreeNode.size_eq, Nat.add_comm]
    rfl

theorem height_handled_le (mode : Mode) (hbare : e.kind ≠ .permissive) :
    TreeNode.height (e.handled mode) ≤ TreeNode.height e + mode.wrappers := by
  rcases handled_cases mode hbare with ⟨hwrappers, hhandled⟩ | ⟨hwrappers, hhandled⟩
  · rw [hhandled]
    exact Nat.le_add_right _ _
  · rw [hhandled, hwrappers, TreeNode.height_le_iff]
    intro child hchild
    rw [List.mem_singleton.mp hchild]

theorem sum_size_handled (mode : Mode) {es : List Expr} (hbare : ∀ e ∈ es, e.kind ≠ .permissive) :
    ((es.map (handled mode)).map TreeNode.size).sum =
      (es.map TreeNode.size).sum + mode.wrappers * es.length := by
  induction es with
  | nil => rfl
  | cons e es ih =>
      obtain ⟨he, hes⟩ := List.forall_mem_cons.mp hbare
      simp only [List.map_cons, List.sum_cons, List.length_cons, ih hes, size_handled mode he,
        Nat.mul_succ]
      omega

theorem sum_size_inPairs_handled (mode : Mode) {pairs : List (Expr × Expr)}
    (hbare : ∀ e ∈ inPairs pairs, e.kind ≠ .permissive) :
    ((inPairs (pairs.map fun pair => (pair.1, pair.2.handled mode))).map TreeNode.size).sum =
      ((inPairs pairs).map TreeNode.size).sum + mode.wrappers * pairs.length := by
  induction pairs with
  | nil => rfl
  | cons pair pairs ih =>
      obtain ⟨_, hsnd, hpairs⟩ := by simpa only [inPairs_cons, List.forall_mem_cons] using hbare
      simp only [List.map_cons, inPairs_cons, List.sum_cons, List.length_cons, ih hpairs,
        size_handled mode hsnd, Nat.mul_succ]
      omega

end Expr

namespace Standard

variable {mode : Mode} {node : Operator} {inputs : List Expr}

/-- The step of its kind places each input once and adds a node, and a wrapper for each value. -/
theorem size_plain (hfits : Fits node inputs) (hbare : ∀ input ∈ inputs, input.kind ≠ .permissive) :
    TreeNode.size (plain mode node inputs) =
      1 + (inputs.map TreeNode.size).sum + mode.wrappers * node.valueParts.length := by
  rw [TreeNode.size_eq]
  cases hfits with
  | project input projections e others hlength =>
      have hothers := Expr.sum_size_handled mode (List.forall_mem_cons.mp hbare).2
      simp only [plain, TreeNode.children, Expr.children, List.map_cons, List.sum_cons, hothers,
        hlength, Operator.valueParts]
      omega
  | sort input specs e keys horders =>
      rw [plain_sort mode input e horders]
      rfl
  | collection kind values others hlength =>
      simp only [plain, TreeNode.children, Expr.children, Expr.sum_size_handled mode hbare, hlength,
        Operator.valueParts]
      omega
  | case branches default pairs e =>
      rw [plain_case]
      rfl
  | struct fields pairs hlength =>
      rw [plain_struct]
      simp only [TreeNode.children, Expr.children, Expr.sum_size_inPairs_handled mode hbare,
        hlength, Operator.valueParts, List.length_map]
      omega
  | select rel constructor e e' =>
      have hconstructor : e'.kind ≠ .permissive :=
        hbare e' (List.mem_cons_of_mem e List.mem_cons_self)
      simp only [plain, TreeNode.children, Expr.children, List.map_cons, List.map_nil,
        List.sum_cons, List.sum_nil, Expr.size_handled mode hconstructor, Operator.valueParts,
        List.length_singleton]
      omega
  | var depth offset =>
      rw [plain]
      split <;> rfl
  | _ => rfl

/-- No child of the step of its kind is more than a wrapper higher than some input. -/
theorem height_plain_le (hfits : Fits node inputs)
    (hbare : ∀ input ∈ inputs, input.kind ≠ .permissive) {bound : Nat}
    (hinputs : ∀ input ∈ inputs, TreeNode.height input + mode.wrappers + 1 ≤ bound) :
    TreeNode.height (plain mode node inputs) ≤ bound := by
  rw [TreeNode.height_le_iff]
  intro child hchild
  rcases Expr.mem_parts_of_mem_children hchild with hpart | hpart
  · obtain ⟨input, hinput, rfl⟩ := guardedParts_plain hfits hpart
    have hwrapped := Expr.height_handled_le mode (hbare input hinput)
    have hbound := hinputs input hinput
    omega
  · have hbound := hinputs child (bareParts_plain hfits hpart)
    omega

/-- With its children lowered, a fusible limit has a sort and a literal, and is fused. -/
theorem lowered_of_fusible (mode : Mode) (input : Operator) (specs : List (Operator × SortOrder))
    {n : Int64} (hn : 0 ≤ n.toInt) :
    ∃ source keys, lowered true mode (.sort input specs) = .sort source keys ∧
      lowered true mode (.limit (.sort input specs) (.lit (.int n))) =
        .topN source keys n.toUInt64 := by
  obtain ⟨source, keys, hsort⟩ := lowered_sort true mode input specs
  refine ⟨source, keys, hsort, ?_⟩
  rw [lowered_eq, Operator.children, List.map_cons, hsort, combine, if_pos rfl, fused?, if_pos hn]
  rfl

theorem lowered_of_not_fusible (mode : Mode) (hnode : node.isFusible = false) :
    lowered true mode node = plain mode node (node.children.map (lowered true mode)) := by
  have haccepts : topN.accepts node = false := by
    rw [Bool.eq_false_iff, Ne, topN_accepts_iff, ← Operator.isFusible_iff, hnode]
    exact Bool.false_ne_true
  rw [lowered_eq, combine, if_pos rfl, fused?_eq_none haccepts, Option.getD_none]

/-- One step's account: the node itself and the wrappers of its values come in, and two nodes go out
if it is fused. -/
theorem size_lowered_step (mode : Mode) (hnode : node.defect? = none)
    (hbare : ∀ child ∈ node.children, (lowered true mode child).kind ≠ .permissive) :
    TreeNode.size (lowered true mode node) + 2 * node.isFusible.toNat =
      1 + (node.children.map fun child => TreeNode.size (lowered true mode child)).sum +
        mode.wrappers * node.valueParts.length := by
  cases hfusible : node.isFusible with
  | true =>
      obtain ⟨input, specs, n, rfl, hn⟩ := Operator.isFusible_iff.mp hfusible
      obtain ⟨source, keys, hsort, hfused⟩ := lowered_of_fusible mode input specs hn
      -- the fused limit has the children of the sort
      have hsize : TreeNode.size (Expr.topN source keys n.toUInt64) =
          TreeNode.size (Expr.sort source keys) := by
        rw [TreeNode.size_eq, TreeNode.size_eq]
        rfl
      have hliteral : TreeNode.size (lowered true mode (.lit (.int n))) = 1 := by
        rw [lowered_lit]
        exact TreeNode.size_eq _
      simp only [Operator.children, List.map_cons, List.map_nil, List.sum_cons, List.sum_nil, hsort,
        hfused, hsize, hliteral, Operator.valueParts, List.length_nil, Bool.toNat_true]
      omega
  | false =>
      rw [lowered_of_not_fusible mode hfusible,
        size_plain (fits_lowered hnode true mode) (List.forall_mem_map.mpr hbare), List.map_map]
      rfl

/-- Lowering keeps account of the nodes: two go with each fusion, and one comes with each
wrapper. -/
theorem size_lowered (mode : Mode) {plan : Operator} (hplan : TreeNode.Sound plan) :
    TreeNode.size (lowered true mode plan) + 2 * plan.fusions =
      TreeNode.size plan + mode.wrappers * plan.valuePositions := by
  induction hplan with
  | @intro node hnode hchildren ih =>
      have hstep := size_lowered_step mode hnode fun child hchild =>
        (physical_lowered mode (hchildren child hchild)).bare
      have hbelow :
          (node.children.map fun child => TreeNode.size (lowered true mode child)).sum +
              2 * (node.children.map Operator.fusions).sum =
            (node.children.map TreeNode.size).sum +
              mode.wrappers * (node.children.map Operator.valuePositions).sum := by
        rw [← List.sum_map_mul_left, ← List.sum_map_mul_left, ← List.sum_map_add,
          ← List.sum_map_add]
        exact congrArg List.sum (List.map_congr_left ih)
      rw [TreeNode.size_eq node, Operator.fusions_eq, Operator.valuePositions_eq, Nat.mul_add,
        Nat.mul_add]
      change _ = 1 + (node.children.map TreeNode.size).sum + _
      omega

/-- Between a node and its parent there is at most one wrapper. -/
theorem height_lowered_le (mode : Mode) {plan : Operator} (hplan : TreeNode.Sound plan) :
    TreeNode.height (lowered true mode plan) ≤ (1 + mode.wrappers) * TreeNode.height plan := by
  induction hplan with
  | @intro node hnode hchildren ih =>
      have hbelow : ∀ child ∈ node.children,
          TreeNode.height (lowered true mode child) + mode.wrappers + 1 ≤
            (1 + mode.wrappers) * TreeNode.height node := by
        intro child hchild
        have hlower := TreeNode.height_lt_of_mem_children hchild
        have hroom : (1 + mode.wrappers) * TreeNode.height child + (1 + mode.wrappers) ≤
            (1 + mode.wrappers) * TreeNode.height node := by
          rw [← Nat.mul_succ]
          exact Nat.mul_le_mul_left _ hlower
        have hheight := ih child hchild
        omega
      cases hfusible : node.isFusible with
      | true =>
          obtain ⟨input, specs, n, rfl, hn⟩ := Operator.isFusible_iff.mp hfusible
          obtain ⟨source, keys, hsort, hfused⟩ := lowered_of_fusible mode input specs hn
          -- the children of the fused limit are those of the sort
          have hheight : TreeNode.height (Expr.topN source keys n.toUInt64) ≤
              TreeNode.height (Expr.sort source keys) := by
            rw [TreeNode.height_le_iff]
            intro child hchild
            have hpart : child ∈ TreeNode.children (Expr.sort source keys) := hchild
            exact TreeNode.height_lt_of_mem_children hpart
          have hinput := hbelow (.sort input specs) List.mem_cons_self
          rw [hsort] at hinput
          rw [hfused]
          omega
      | false =>
          rw [lowered_of_not_fusible mode hfusible]
          apply height_plain_le (fits_lowered hnode true mode)
          · exact List.forall_mem_map.mpr fun child hchild =>
              (physical_lowered mode (hchildren child hchild)).bare
          · exact List.forall_mem_map.mpr hbelow

/-- What it takes to run the statements of a valid plan. In strict mode an expression has two nodes
less than the plan for each fusion and is never deeper; permissive mode adds a wrapper for each
value and at most doubles the depth. So no expression is deeper than twice the limit for plans. -/
theorem lowering_accounts :
    ∀ (options : CompilerOptions) (plan : Operator),
      (Compiler.standard.withOptions options).validator.validate plan = .ok () →
        ∃ strict permissive : Expr,
          (Compiler.standard.withOptions options).prepare plan .strict = .ok ⟨strict, .strict⟩ ∧
          (Compiler.standard.withOptions options).prepare plan .permissive =
            .ok ⟨permissive, .permissive⟩ ∧
          TreeNode.size strict + 2 * plan.fusions = TreeNode.size plan ∧
          TreeNode.height strict ≤ TreeNode.height plan ∧
          TreeNode.size permissive + 2 * plan.fusions =
            TreeNode.size plan + plan.valuePositions ∧
          TreeNode.height permissive ≤ 2 * TreeNode.height plan ∧
          TreeNode.height strict ≤ 2 * options.maxPlanDepth.toNat ∧
          TreeNode.height permissive ≤ 2 * options.maxPlanDepth.toNat := by
  intro options plan hvalid
  have hsound := PlanValidator.sound_of_validate hvalid
  have hlimit : TreeNode.height plan ≤ options.maxPlanDepth.toNat :=
    TreeNode.height_le_iff_located.mpr fun place hplace =>
      (PlanValidator.validate_eq_ok_iff.mp hvalid place hplace).1
  have hprepare : ∀ mode, (Compiler.standard.withOptions options).prepare plan mode =
      .ok ⟨lowered true mode plan, mode⟩ := by
    intro mode
    rw [prepare_standard, hvalid]
    rfl
  have hstrict : TreeNode.height (lowered true .strict plan) ≤ TreeNode.height plan := by
    simpa [Mode.wrappers] using height_lowered_le .strict hsound
  have hpermissive : TreeNode.height (lowered true .permissive plan) ≤ 2 * TreeNode.height plan :=
    height_lowered_le .permissive hsound
  refine ⟨lowered true .strict plan, lowered true .permissive plan, hprepare .strict,
    hprepare .permissive, ?_, hstrict, ?_, hpermissive, by omega, by omega⟩
  · simpa [Mode.wrappers] using size_lowered .strict hsound
  · simpa [Mode.wrappers] using size_lowered .permissive hsound

/-- A value for each of the first rows of a table. -/
def firstValues : Operator :=
  .select firstRows (.var 0 0)

theorem lowering_accounts_firstValues :
    (Compiler.standard.withOptions default).validator.validate firstValues = .ok () ∧
      ∃ strict permissive : Expr,
        (Compiler.standard.withOptions default).prepare firstValues .strict =
          .ok ⟨strict, .strict⟩ ∧
        (Compiler.standard.withOptions default).prepare firstValues .permissive =
          .ok ⟨permissive, .permissive⟩ ∧
        TreeNode.size strict = 6 ∧ TreeNode.size permissive = 7 := by
  have hvalid : (Compiler.standard.withOptions default).validator.validate firstValues = .ok () :=
    PlanValidator.validate_eq_ok_iff.mpr (by decide +kernel)
  obtain ⟨strict, permissive, hstrict, hpermissive, hsize, _, hsize', _⟩ :=
    lowering_accounts default firstValues hvalid
  have hfusions : firstValues.fusions = 1 := by decide +kernel
  have hnodes : TreeNode.size firstValues = 8 := by decide +kernel
  have hvalues : firstValues.valuePositions = 1 := by decide +kernel
  exact ⟨hvalid, strict, permissive, hstrict, hpermissive, by omega, by omega⟩

end Standard

end PlanLowering
