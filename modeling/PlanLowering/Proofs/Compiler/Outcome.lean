import PlanLowering.Compiler
import PlanLowering.Proofs.Tree.Validation

/-!
The outcome of a compilation as a function of the tree. `Compiler.outcome` is the lowering of a node
at a position without the cursor and the records; the lowering settles with it, and a compilation is
a validation followed by it.
-/

namespace PlanLowering

variable {N E : Type} [SizeOf N] [TreeNode N]

/-- The strategy chosen for a node is registered and wants the node. -/
theorem Strategy.select_spec {strategies : List (Strategy N E)} {node : N}
    {strategy : Strategy N E} (h : Strategy.select strategies node = some strategy) :
    strategy ∈ strategies ∧ strategy.accepts node = true := by
  rw [Strategy.select] at h
  refine ⟨List.mem_of_find?_eq_some h, ?_⟩
  simpa using List.find?_some h

namespace Compiler

def withOptions (compiler : Compiler N E) (options : CompilerOptions) : Compiler N E :=
  { compiler with options }

/-- What the lowering of a tree whose root is at a position comes to. -/
def outcome (compiler : Compiler N E) (mode : Mode) :
    N → NodePath → Except CompileError E :=
  TreeNode.fold fun node below path =>
    match compiler.select node with
    | none => .error (.unsupported (TreeNode.kindName node) path)
    | some strategy =>
      (path.collect 0 below).bind fun inputs =>
        strategy.apply (.ofInputs node mode path strategy.name inputs)

/-- The outcomes of the children of a node at a position, up to the first failure. -/
def childOutcomes (compiler : Compiler N E) (mode : Mode) (node : N) (path : NodePath) :
    Except CompileError (List E) :=
  path.collect 0 ((TreeNode.children node).map (compiler.outcome mode))

/-- A node that no strategy wants fails before its children are looked at; otherwise the strategy
is applied to what they were lowered to. -/
theorem outcome_eq (compiler : Compiler N E) (mode : Mode) (node : N) (path : NodePath) :
    compiler.outcome mode node path =
      match compiler.select node with
      | none => .error (.unsupported (TreeNode.kindName node) path)
      | some strategy =>
        (compiler.childOutcomes mode node path).bind fun inputs =>
          strategy.apply (.ofInputs node mode path strategy.name inputs) := by
  rw [outcome, TreeNode.fold_eq]
  rfl

theorem select_eq_none_iff {compiler : Compiler N E} {node : N} :
    compiler.select node = none ↔
      ∀ strategy ∈ compiler.strategies, strategy.accepts node = false := by
  simp [select, Strategy.select]

theorem select_isSome_iff {compiler : Compiler N E} {node : N} :
    (compiler.select node).isSome ↔
      ∃ strategy ∈ compiler.strategies, strategy.accepts node = true := by
  simp [select, Strategy.select]

/-- The failure of a node that no strategy wants. -/
def unmatched? (compiler : Compiler N E) (path : NodePath) (node : N) : Option CompileError :=
  if (compiler.select node).isNone then
    some (.unsupported (TreeNode.kindName node) path)
  else
    none

/-- The failure of the first node in pre-order that no strategy wants. -/
def firstUnmatched (compiler : Compiler N E) : N → NodePath → Option CompileError :=
  TreeNode.firstFault compiler.unmatched?

theorem unmatched?_eq_none_iff {compiler : Compiler N E} {path : NodePath} {node : N} :
    compiler.unmatched? path node = none ↔ (compiler.select node).isSome := by
  cases h : compiler.select node <;> simp [unmatched?, h]

theorem unmatched?_eq_some_iff {compiler : Compiler N E} {path : NodePath} {node : N}
    {failure : CompileError} :
    compiler.unmatched? path node = some failure ↔
      compiler.select node = none ∧ failure = .unsupported (TreeNode.kindName node) path := by
  cases h : compiler.select node <;> simp [unmatched?, h, eq_comm]

/-- If every strategy that is chosen succeeds on what the children come to, the only failure left is
that of the first unmatched node, and the value is found node by node. -/
theorem outcome_eq_of_apply_ok {compiler : Compiler N E} {mode : Mode} {value : N → E}
    (happly : ∀ node path strategy, compiler.select node = some strategy →
      strategy.apply (.ofInputs node mode path strategy.name
        ((TreeNode.children node).map value)) = .ok (value node))
    (node : N) (path : NodePath) :
    compiler.outcome mode node path =
      (compiler.firstUnmatched node path).elim (.ok (value node)) .error := by
  induction node using TreeNode.induction generalizing path with
  | step node ih =>
      have hbelow : compiler.childOutcomes mode node path = _ :=
        TreeNode.collect_firstFault path 0 ih
      rw [outcome_eq, hbelow, firstUnmatched, TreeNode.firstFault_eq]
      cases hselect : compiler.select node with
      | none =>
          rw [unmatched?_eq_some_iff.mpr ⟨hselect, rfl⟩]
          rfl
      | some strategy =>
          rw [unmatched?_eq_none_iff.mpr (by rw [hselect]; rfl), Option.none_or]
          cases TreeNode.firstFaultBelow compiler.unmatched? path 0 (TreeNode.children node) with
          | some failure => rfl
          | none => exact happly node path strategy hselect

theorem lower_eq (compiler : Compiler N E) (mode : Mode) (node : N) :
    compiler.lower mode node = (do
      let path ← Walk.here
      match compiler.select node with
      | none => throw (.unsupported (TreeNode.kindName node) path)
      | some strategy =>
        let inputs ← Walk.children ((TreeNode.children node).map (compiler.lower mode))
        if compiler.options.traceStrategies then
          modify fun cursor =>
            { cursor with gathered := cursor.gathered ++ [traceRecord path node strategy] }
        lower.liftExcept
          (strategy.apply (.ofInputs node mode path strategy.name inputs))) := by
  rw [lower, TreeNode.fold_eq]
  rfl

theorem settles_liftExcept (outcome : Except CompileError E) (path : NodePath) :
    (lower.liftExcept outcome).Settles path outcome :=
  fun gathered => ⟨gathered, rfl⟩

/-- The records of a strategy come between the children and the application, and leave no other
trace. -/
theorem lower_settles (compiler : Compiler N E) (mode : Mode) (node : N) (path : NodePath) :
    (compiler.lower mode node).Settles path (compiler.outcome mode node path) := by
  induction node using TreeNode.induction generalizing path with
  | step node ih =>
      rw [lower_eq, outcome_eq]
      refine (Walk.settles_here path).bind ?_
      cases compiler.select node with
      | none => exact Walk.settles_throw _ path
      | some strategy =>
          have hbelow := Walk.settles_children path ih
          change Walk.Settles _ path (compiler.childOutcomes mode node path) at hbelow
          cases hinputs : compiler.childOutcomes mode node path with
          | error failure =>
              rw [hinputs] at hbelow
              exact hbelow.bind_error
          | ok inputs =>
              rw [hinputs] at hbelow
              refine hbelow.bind ?_
              by_cases htrace : compiler.options.traceStrategies = true
              · rw [if_pos htrace]
                exact (Walk.settles_gather _ path).bind (settles_liftExcept _ path)
              · rw [if_neg htrace]
                exact (Walk.settles_pure _ path).bind (settles_liftExcept _ path)

/-- The compilation fails with the kind and the position of a node that no registered strategy
wants, while every node before it in pre-order is wanted by some. -/
def ReportsUnmatched (compiler : Compiler N E) (root : N) (mode : Mode) : Prop :=
  ∃ before path node after,
    TreeNode.located root = before ++ (path, node) :: after ∧
    (∀ earlier ∈ before, ∃ strategy ∈ compiler.strategies, strategy.accepts earlier.2 = true) ∧
    (∀ strategy ∈ compiler.strategies, strategy.accepts node = false) ∧
    compiler.prepare root mode = .error (.unsupported (TreeNode.kindName node) path)

theorem reportsUnmatched_of_firstUnmatched {compiler : Compiler N E} {root : N} {mode : Mode}
    {failure : CompileError} (hfirst : compiler.firstUnmatched root .root = some failure)
    (hprepare : compiler.prepare root mode = .error failure) :
    compiler.ReportsUnmatched root mode := by
  obtain ⟨before, ⟨path, node⟩, after, hlocated, hnode, hbefore⟩ :=
    TreeNode.firstFault_eq_some_iff.mp hfirst
  obtain ⟨hnone, rfl⟩ := unmatched?_eq_some_iff.mp hnode
  refine ⟨before, path, node, after, hlocated, ?_, select_eq_none_iff.mp hnone, hprepare⟩
  intro earlier hearlier
  exact select_isSome_iff.mp (unmatched?_eq_none_iff.mp (hbefore earlier hearlier))

/-- The lowering has come to a node, its children are lowered, and the strategy chosen for it is
about to be applied to this match. -/
inductive Applies (compiler : Compiler N E) (mode : Mode) : Strategy N E → Match N E → Prop where
  | intro {node : N} {path : NodePath} {strategy : Strategy N E} (gathered : List LogRecord)
      {inputs : List E} (hselect : compiler.select node = some strategy)
      (hinputs : ((Walk.children ((TreeNode.children node).map (compiler.lower mode))).runFrom
        path gathered).1 = .ok inputs) :
      compiler.Applies mode strategy (.ofInputs node mode path strategy.name inputs)

/-- The lowering hands a strategy one input for each child. -/
theorem length_of_children_lower {compiler : Compiler N E} {mode : Mode} {node : N}
    {path : NodePath} {gathered : List LogRecord} {inputs : List E}
    (hinputs : ((Walk.children ((TreeNode.children node).map (compiler.lower mode))).runFrom
      path gathered).1 = .ok inputs) : inputs.length = TreeNode.childCount node := by
  obtain ⟨_, h⟩ := Walk.settles_children path
    (fun child (_ : child ∈ TreeNode.children node) => compiler.lower_settles mode child) gathered
  rw [h] at hinputs
  rw [NodePath.length_of_collect hinputs, List.length_map, TreeNode.childCount]

/-- A compilation validates the tree and then lowers it from its root. -/
theorem prepare_eq (compiler : Compiler N E) (root : N) (mode : Mode) :
    compiler.prepare root mode =
      (compiler.validator.validate root).bind fun _ =>
        (compiler.outcome mode root .root).map fun lowered => ⟨lowered, mode⟩ := by
  rw [prepare, prepareRecorded]
  cases compiler.validator.validate root with
  | error failure => rfl
  | ok _ =>
      obtain ⟨records, h⟩ := compiler.lower_settles mode root .root
        (compiler.openingRecords root mode)
      simp only [h, Except.bind]

end Compiler

end PlanLowering
