import PlanLowering.Proofs.Strategy.Conversion
import PlanLowering.Proofs.Strategy.Inputs

/-!
What the standard strategies make of a node and its lowered children. Apart from the one that fuses
a limit with the sort below it there is exactly one strategy for each kind, it wants all nodes of
that kind, and it never fails if it is given one input for each child.
-/

namespace PlanLowering.Standard

open Conversion

/-- All standard strategies but the one that fuses. -/
def unfused : List StandardStrategy :=
  strategies.tail

theorem mem_strategies_iff {strategy : StandardStrategy} :
    strategy ∈ strategies ↔ strategy = topN ∨ strategy ∈ unfused :=
  List.mem_cons

theorem mem_strategies_of_mem_unfused {strategy : StandardStrategy} (h : strategy ∈ unfused) :
    strategy ∈ strategies :=
  List.mem_cons_of_mem topN h

theorem accepts_strategyOf (kind : OperatorKind) (lower : Operator → Option (Lowering Expr))
    (node : Operator) : (strategyOf kind lower).accepts node = decide (node.kind = kind) := by
  simp [strategyOf, strategy, Pattern.ofKind, Pattern.accepts, Pattern.meets, TreeNode.kind]

/-- An unfused strategy is that of its kind: no other one has the same kind, and it wants the nodes
of its kind and no others. -/
theorem unfused_spec {strategy : StandardStrategy} (h : strategy ∈ unfused) :
    (unfused.find? fun other => other.pattern.kind = strategy.pattern.kind) = some strategy ∧
      ∀ node, strategy.accepts node = decide (node.kind = strategy.pattern.kind) := by
  simp only [unfused, strategies, List.tail_cons, List.mem_cons, List.not_mem_nil, or_false] at h
  rcases h with rfl | rfl | rfl | rfl | rfl | rfl | rfl | rfl | rfl | rfl | rfl | rfl | rfl |
      rfl | rfl | rfl | rfl | rfl | rfl | rfl | rfl | rfl | rfl | rfl | rfl | rfl | rfl | rfl <;>
    exact ⟨rfl, fun node => accepts_strategyOf _ _ node⟩

/-- The strategy of a kind, if the kind has one. -/
def ofKind? (kind : OperatorKind) : Option StandardStrategy :=
  unfused.find? fun strategy => strategy.pattern.kind = kind

theorem ofKind?_eq_some {strategy : StandardStrategy} (h : strategy ∈ unfused) {node : Operator}
    (haccepts : strategy.accepts node = true) : ofKind? node.kind = some strategy := by
  obtain ⟨hfind, hspec⟩ := unfused_spec h
  have hkind : node.kind = strategy.pattern.kind := by simpa [hspec] using haccepts
  rw [ofKind?, hkind]
  exact hfind

/-- Every node that can be part of a valid plan has a strategy of its own. -/
theorem exists_accepts {node : Operator} (h : node.defect? = none) :
    ∃ strategy ∈ unfused, strategy.accepts node = true := by
  have hsome : ∃ strategy, ofKind? node.kind = some strategy := by
    cases node
    case err message => cases h
    all_goals exact ⟨_, rfl⟩
  obtain ⟨strategy, hfind⟩ := hsome
  have hmem := List.mem_of_find?_eq_some hfind
  have hkind : strategy.pattern.kind = node.kind := by simpa using List.find?_some hfind
  refine ⟨strategy, hmem, ?_⟩
  rw [(unfused_spec hmem).2, decide_eq_true_eq, hkind]

section Unfused

variable (mode : Mode) (path : NodePath) (name : String)

/-- A strategy that knows how to lower a node returns what its conversion yields. -/
theorem strategyOf_apply {kind : OperatorKind} {lower : Operator → Option (Lowering Expr)}
    {conversion : Lowering Expr} {m m' : Match Operator Expr} {e : Expr}
    (hlower : lower m.node = some conversion) (h : conversion.Yields m e m') :
    (strategyOf kind lower).apply m = .ok e := by
  simp only [strategyOf, strategy, hlower]
  exact h.on_eq

theorem project_apply (input : Operator) (projections : List Operator) (lowered : Expr)
    (others : List Expr) :
    project.apply (.ofInputs (.project input projections) mode path name (lowered :: others)) =
      .ok (plain mode (.project input projections) (lowered :: others)) := by
  let m : Match Operator Expr :=
    .ofInputs (.project input projections) mode path name (lowered :: others)
  have hfirst := take_yields_of_append m [] (others.map some) lowered
  have hrest := takeRest_yields m [none] others
  have hhandled : (handledHere others).Yields
      { m with inputs := [none] ++ others.map fun _ => none }
      (others.map (Expr.handled mode)) _ := yields_pure _ _
  exact strategyOf_apply rfl
    (hfirst.bind (hrest.bind (hhandled.bind (yields_pure _ _))))

theorem sort_apply (input : Operator) {specs : List (Operator × SortOrder)} (lowered : Expr)
    {keys : List (Expr × SortOrder)} (horders : keys.map (·.2) = specs.map (·.2)) :
    sort.apply (.ofInputs (.sort input specs) mode path name (lowered :: keys.map (·.1))) =
      .ok (plain mode (.sort input specs) (lowered :: keys.map (·.1))) := by
  let m : Match Operator Expr :=
    .ofInputs (.sort input specs) mode path name (lowered :: keys.map (·.1))
  have hkeys : (keys.map (·.1)).length = specs.length := by
    simpa using congrArg List.length horders
  have hfirst := take_yields_of_append m [] ((keys.map (·.1)).map some) lowered
  have hrest := takeRest_yields m [none] (keys.map (·.1))
  apply strategyOf_apply rfl
  apply hfirst.bind
  apply hrest.bind
  rw [if_pos hkeys]
  exact yields_pure _ _

theorem call_apply (function : String) (args : List Operator) (lowered : List Expr) :
    call.apply (.ofInputs (.call function args) mode path name lowered) =
      .ok (plain mode (.call function args) lowered) := by
  have hall := takeRemaining_yields (Operator.call function args) mode path name lowered
  exact strategyOf_apply rfl (hall.bind (yields_pure _ (Expr.call function lowered)))

theorem tupleUnion_apply (args : List Operator) (lowered : List Expr) :
    tupleUnion.apply (.ofInputs (.tupleUnion args) mode path name lowered) =
      .ok (plain mode (.tupleUnion args) lowered) := by
  have hall := takeRemaining_yields (Operator.tupleUnion args) mode path name lowered
  exact strategyOf_apply rfl (hall.bind (yields_pure _ (Expr.tupleUnion lowered)))

theorem collection_apply (kind : CollectionKind) (values : List Operator)
    (lowered : List Expr) :
    collection.apply (.ofInputs (.collection kind values) mode path name lowered) =
      .ok (plain mode (.collection kind values) lowered) := by
  have hall := takeRemaining_yields (Operator.collection kind values) mode path name lowered
  have hhandled : (handledHere lowered).Yields
      (Match.ofInputs (Operator.collection kind values) mode path name lowered).emptied
      (lowered.map (Expr.handled mode)) _ := yields_pure _ _
  exact strategyOf_apply rfl (hall.bind (hhandled.bind (yields_pure _ _)))

theorem case_apply (branches : List (Operator × Operator)) (default : Operator)
    (pairs : List (Expr × Expr)) (last : Expr) (hpairs : pairs.length = branches.length) :
    case.apply (.ofInputs (.case branches default) mode path name (inPairs pairs ++ [last])) =
      .ok (plain mode (.case branches default) (inPairs pairs ++ [last])) := by
  let m : Match Operator Expr :=
    .ofInputs (.case branches default) mode path name (inPairs pairs ++ [last])
  have htaken := takePairs_yields m [] [some last] pairs
  have hlast := take_yields_of_append m ((inPairs pairs).map fun _ => none) [] last
  have hm : { m with inputs := [] ++ ((inPairs pairs).map some ++ [some last]) } = m := by
    simp [m, Match.ofInputs]
  rw [hpairs, hm] at htaken
  rw [List.length_map, length_inPairs, hpairs] at hlast
  rw [plain_case]
  exact strategyOf_apply rfl (htaken.bind (hlast.bind (yields_pure _ (Expr.case pairs last))))

theorem struct_apply (fields : List (Operator × Operator)) (pairs : List (Expr × Expr))
    (hpairs : pairs.length = fields.length) :
    struct.apply (.ofInputs (.struct fields) mode path name (inPairs pairs)) =
      .ok (plain mode (.struct fields) (inPairs pairs)) := by
  let m : Match Operator Expr := .ofInputs (.struct fields) mode path name (inPairs pairs)
  have htaken := takePairs_yields m [] [] pairs
  rw [hpairs, List.append_nil, List.append_nil] at htaken
  rw [plain_struct]
  exact strategyOf_apply rfl (htaken.bind (yields_pure _ _))

/-- An unfused strategy that wants a node never fails on it: given one input for each child,
whatever these inputs are, it returns its expression. -/
theorem apply_eq_plain {strategy : StandardStrategy} (h : strategy ∈ unfused) {node : Operator}
    (haccepts : strategy.accepts node = true) {inputs : List Expr}
    (hinputs : inputs.length = TreeNode.childCount node) :
    strategy.apply (.ofInputs node mode path name inputs) = .ok (plain mode node inputs) := by
  have hkind := ofKind?_eq_some h haccepts
  have hnode : node.kind ≠ .err := by
    intro hnode
    rw [hnode] at hkind
    cases hkind
  -- the strategy is the one of the kind, and the conversions follow the layout of the inputs
  cases fits_of_length hnode hinputs with
  | project input projections lowered others =>
      obtain rfl := Option.some.inj hkind
      exact project_apply mode path name input projections lowered others
  | sort input specs lowered keys horders =>
      obtain rfl := Option.some.inj hkind
      exact sort_apply mode path name input lowered horders
  | call function args =>
      obtain rfl := Option.some.inj hkind
      exact call_apply mode path name function args inputs
  | tupleUnion args =>
      obtain rfl := Option.some.inj hkind
      exact tupleUnion_apply mode path name args inputs
  | collection kind values =>
      obtain rfl := Option.some.inj hkind
      exact collection_apply mode path name kind values inputs
  | case branches default pairs last hpairs =>
      obtain rfl := Option.some.inj hkind
      exact case_apply mode path name branches default pairs last hpairs
  | struct fields pairs hpairs =>
      obtain rfl := Option.some.inj hkind
      exact struct_apply mode path name fields pairs hpairs
  | _ =>
      obtain rfl := Option.some.inj hkind
      rfl

end Unfused

section Fused

/-- A bound that can be fused. -/
def isBound : Operator → Bool
  | .lit value => value.isNonNegativeInt
  | _ => false

theorem topN_accepts_limit (input bound : Operator) :
    topN.accepts (.limit input bound) = (TreeNode.kind input = OperatorKind.sort &&
      (TreeNode.kind bound = OperatorKind.lit && isBound bound) : Bool) := by
  have hkind : TreeNode.kind (Operator.limit input bound) = OperatorKind.limit := rfl
  have hchildren : TreeNode.children (Operator.limit input bound) = [input, bound] := rfl
  simp only [topN, strategy, topNPattern, Pattern.withChildren, Pattern.ofKind,
    Pattern.withPredicate, Pattern.meets, Option.all_none, Bool.true_and, Pattern.accepts,
    Bool.and_true, List.isEmpty_cons, Bool.false_or, hkind, decide_true, hchildren,
    Pattern.acceptsAll, List.isEmpty_nil, Bool.true_or, Option.all_some]
  rfl

/-- The strategy that fuses wants a limit above a sort with a literal bound from zero up. -/
theorem topN_accepts_iff {node : Operator} :
    topN.accepts node = true ↔ ∃ input specs n,
      node = .limit (.sort input specs) (.lit (.int n)) ∧ 0 ≤ n.toInt := by
  constructor
  · intro h
    cases node with
    | limit input bound =>
        rw [topN_accepts_limit, Bool.and_eq_true, Bool.and_eq_true] at h
        obtain ⟨hinput, hbound, hvalue⟩ := h
        cases input <;> simp [TreeNode.kind, Operator.kind] at hinput
        case sort input specs =>
          cases bound <;> simp [TreeNode.kind, Operator.kind] at hbound
          case lit value =>
            cases value <;> simp [isBound, Value.isNonNegativeInt] at hvalue
            case int n => exact ⟨input, specs, n, rfl, hvalue⟩
    | _ => cases h
  · rintro ⟨input, specs, n, rfl, hn⟩
    rw [topN_accepts_limit]
    simpa [TreeNode.kind, Operator.kind, isBound, Value.isNonNegativeInt] using hn

section Apply

variable (mode : Mode) (path : NodePath) (name : String) (input : Operator)
  (specs : List (Operator × SortOrder)) {n : Int64}

theorem literalBound?_of_nonneg (hn : 0 ≤ n.toInt) :
    literalBound? (.lit (.int n)) = some n.toUInt64 :=
  if_pos hn

/-- The fusion takes the lowered sort apart. -/
theorem topN_apply_sort (hn : 0 ≤ n.toInt) (source : Expr) (keys : List (Expr × SortOrder))
    (bound : Expr) :
    topN.apply (.ofInputs (.limit (.sort input specs) (.lit (.int n))) mode path name
      [.sort source keys, bound]) = .ok (.topN source keys n.toUInt64) := by
  simp only [topN, strategy, Match.ofInputs, literalBound?_of_nonneg hn]
  rfl

/-- Only what the sort was lowered to decides whether the fusion succeeds. -/
theorem topN_apply_ok_iff (hn : 0 ≤ n.toInt) (lowered bound : Expr) :
    (∃ e, topN.apply (.ofInputs (.limit (.sort input specs) (.lit (.int n))) mode path name
        [lowered, bound]) = .ok e) ↔ ∃ source keys, lowered = .sort source keys := by
  constructor
  · rintro ⟨e, he⟩
    simp only [topN, strategy, Match.ofInputs, literalBound?_of_nonneg hn] at he
    cases lowered with
    | sort source keys => exact ⟨source, keys, rfl⟩
    | _ => cases he
  · rintro ⟨source, keys, rfl⟩
    exact ⟨_, topN_apply_sort mode path name input specs hn source keys bound⟩

end Apply

end Fused

end PlanLowering.Standard
