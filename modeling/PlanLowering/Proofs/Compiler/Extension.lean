import PlanLowering.Proofs.Compiler.Events
import PlanLowering.Proofs.Strategy.Application

/-!
Registries that grow. A strategy behind others that want all it wants is never chosen, and
strategies added at the end are chosen only where a compilation would have stopped for want of one.
A compilation that did not stop for that reason comes to the same under the longer registry, also if
it failed before it had met every node.
-/

namespace PlanLowering

/-- An outcome is none of the failures excluded. -/
def Avoids {ε α : Type} (excluded : ε → Prop) (outcome : Except ε α) : Prop :=
  ∀ failure, outcome = .error failure → ¬ excluded failure

theorem avoids_ok {ε α : Type} (excluded : ε → Prop) (a : α) : Avoids excluded (.ok a) :=
  fun _ h => nomatch h

/-- If each child comes to the same on its own, unless it fails in a certain way, then so do all of
them together: the children behind a failure are not looked at. -/
theorem NodePath.collect_congr {M ε α : Type} {excluded : ε → Prop}
    {outcome other : M → NodePath → Except ε α} {nodes : List M} {path : NodePath} (index : Nat)
    (hnodes : ∀ node ∈ nodes, ∀ path,
      Avoids excluded (outcome node path) → other node path = outcome node path)
    (havoids : Avoids excluded (path.collect index (nodes.map outcome))) :
    path.collect index (nodes.map other) = path.collect index (nodes.map outcome) := by
  induction nodes generalizing index with
  | nil => rfl
  | cons node others ih =>
      have hnode := hnodes node List.mem_cons_self (path.child index)
      have hothers := ih (index + 1)
        fun other hother => hnodes other (List.mem_cons_of_mem node hother)
      rw [List.map_cons, NodePath.collect] at havoids
      rw [List.map_cons, List.map_cons, NodePath.collect, NodePath.collect]
      cases hone : outcome node (path.child index) with
      | error failure =>
          rw [hone] at hnode havoids
          rw [hnode fun _ h => havoids _ (congrArg Except.error (Except.error.inj h))]
          rfl
      | ok first =>
          rw [hone] at hnode havoids
          rw [hnode (avoids_ok excluded first)]
          cases hall : path.collect (index + 1) (others.map outcome) with
          | error failure =>
              rw [hall] at hothers havoids
              rw [hothers fun _ h => havoids _ (congrArg Except.error (Except.error.inj h))]
          | ok rest =>
              rw [hall] at hothers
              rw [hothers (avoids_ok excluded rest)]

variable {N E : Type} [SizeOf N] [TreeNode N]

namespace Strategy

theorem select_append_of_isSome {registry : List (Strategy N E)} {node : N}
    (h : ∃ strategy ∈ registry, strategy.accepts node = true) (added : List (Strategy N E)) :
    select (registry ++ added) node = select registry node := by
  have hsome : (select registry node).isSome := by
    simpa [select] using h
  rw [select, List.find?_append]
  exact Option.or_of_isSome hsome

/-- A strategy is passed over where one before it wants the node as well. -/
theorem select_insert_of_shadowed {before : List (Strategy N E)} {strategy : Strategy N E}
    {node : N} (hshadowed : strategy.accepts node = true →
      ∃ earlier ∈ before, earlier.accepts node = true) (after : List (Strategy N E)) :
    select (before ++ strategy :: after) node = select (before ++ after) node := by
  cases haccepts : strategy.accepts node with
  | true =>
      rw [select_append_of_isSome (hshadowed haccepts),
        select_append_of_isSome (hshadowed haccepts)]
  | false => simp [select, List.find?_append, haccepts]

end Strategy

namespace Compiler

variable {compiler other : Compiler N E} {mode : Mode}

/-- Two compilers that choose alike come to the same. Where the first one has no choice the second
may have one, if the outcome is known not to be the failure that follows. -/
theorem outcome_eq_of_select (excluded : CompileError → Prop) {root : N} {path : NodePath}
    (hselect : ∀ node ∈ TreeNode.nodes root, other.select node = compiler.select node ∨
      compiler.select node = none ∧ ∀ path, excluded (.unsupported (TreeNode.kindName node) path))
    (havoids : Avoids excluded (compiler.outcome mode root path)) :
    other.outcome mode root path = compiler.outcome mode root path := by
  induction root using TreeNode.induction generalizing path with
  | step node ih =>
      obtain ⟨hnode, hbelow⟩ := TreeNode.forall_mem_nodes_iff.mp hselect
      rw [outcome_eq] at havoids
      rw [outcome_eq, outcome_eq]
      rcases hnode with hsame | ⟨hnone, hexcluded⟩
      · rw [hsame]
        cases hchosen : compiler.select node with
        | none => rfl
        | some strategy =>
            rw [hchosen] at havoids
            have hchildren : other.childOutcomes mode node path =
                compiler.childOutcomes mode node path := by
              apply NodePath.collect_congr 0
              · exact fun child hchild path => ih child hchild (hbelow child hchild)
              · intro failure hfailure
                apply havoids failure
                change (compiler.childOutcomes mode node path).bind _ = _
                rw [childOutcomes, hfailure]
                rfl
            simp only [hchildren]
      · rw [hnone] at havoids
        exact absurd (hexcluded path) (havoids _ rfl)

/-- If the choices differ only where they cannot matter, and the limit is the same, compilations do
not differ. -/
theorem prepare_eq_of_outcome_eq {root : N} (hoptions : other.options = compiler.options)
    (houtcome : compiler.validator.validate root = .ok () →
      other.outcome mode root .root = compiler.outcome mode root .root) :
    other.prepare root mode = compiler.prepare root mode := by
  have hvalidator : other.validator = compiler.validator := by
    rw [validator, validator, hoptions]
  rw [prepare_eq, prepare_eq, hvalidator]
  cases hvalid : compiler.validator.validate root with
  | error failure => rfl
  | ok _ =>
      rw [houtcome hvalid]

variable {options : CompilerOptions} {root : N}

theorem prepare_insert_of_shadowed {before : List (Strategy N E)} {strategy : Strategy N E}
    (after : List (Strategy N E))
    (hshadowed : ∀ node ∈ TreeNode.nodes root, strategy.accepts node = true →
      ∃ earlier ∈ before, earlier.accepts node = true) :
    (⟨before ++ strategy :: after, options⟩ : Compiler N E).prepare root mode =
      (⟨before ++ after, options⟩ : Compiler N E).prepare root mode := by
  refine prepare_eq_of_outcome_eq (by rfl) ?_
  intro _
  apply outcome_eq_of_select fun _ => False
  · exact fun node hnode => Or.inl (Strategy.select_insert_of_shadowed (hshadowed node hnode) after)
  · exact fun _ _ => id

/-- A compilation that does not stop for want of a strategy has no use for more of them. -/
theorem prepare_append_of_supported {registry : List (Strategy N E)}
    (added : List (Strategy N E))
    (hsupported : ∀ kind path,
      (⟨registry, options⟩ : Compiler N E).prepare root mode ≠ .error (.unsupported kind path)) :
    (⟨registry ++ added, options⟩ : Compiler N E).prepare root mode =
      (⟨registry, options⟩ : Compiler N E).prepare root mode := by
  refine prepare_eq_of_outcome_eq (by rfl) ?_
  intro hvalid
  apply outcome_eq_of_select fun failure => ∃ kind path, failure = .unsupported kind path
  · intro node _
    by_cases hwanted : ∃ strategy ∈ registry, strategy.accepts node = true
    · exact Or.inl (Strategy.select_append_of_isSome hwanted added)
    · refine Or.inr ⟨?_, fun path => ⟨_, path, rfl⟩⟩
      rw [select_eq_none_iff]
      intro strategy hstrategy
      exact Bool.eq_false_iff.mpr fun haccepts => hwanted ⟨strategy, hstrategy, haccepts⟩
  · rintro failure hfailure ⟨kind, path, rfl⟩
    apply hsupported kind path
    rw [prepare_eq, hvalid]
    change ((⟨registry, options⟩ : Compiler N E).outcome mode root .root).map _ = _
    rw [hfailure]
    rfl

end Compiler

namespace CompilerBuilder

theorem foldl_add (builder : CompilerBuilder N E) (added : List (Strategy N E)) :
    added.foldl add builder = { builder with strategies := builder.strategies ++ added } := by
  induction added generalizing builder with
  | nil => simp
  | cons strategy others ih => simp [ih, add]

/-- Every node of a valid plan has a standard strategy, so nothing is left for those added
behind. -/
theorem prepare_withStandard_add (builder : CompilerBuilder Operator Expr)
    (added : List (Strategy Operator Expr)) (plan : Operator) (mode : Mode) :
    (added.foldl add builder.withStandard).build.prepare plan mode =
      builder.withStandard.build.prepare plan mode := by
  rw [foldl_add]
  refine Compiler.prepare_eq_of_outcome_eq (by rfl) ?_
  intro hvalid
  apply Compiler.outcome_eq_of_select fun _ => False
  · have hnodes : ∀ node ∈ TreeNode.nodes plan, TreeNode.defect? node = none := by
      rw [← TreeNode.map_snd_locatedFrom plan .root, List.forall_mem_map]
      exact fun place hplace => (PlanValidator.validate_eq_ok_iff.mp hvalid place hplace).2
    intro node hnode
    obtain ⟨strategy, hstrategy, haccepts⟩ := Standard.exists_accepts (hnodes node hnode)
    have hregistered := Standard.mem_strategies_of_mem_unfused hstrategy
    exact Or.inl (Strategy.select_append_of_isSome
      ⟨strategy, List.mem_append_right _ hregistered, haccepts⟩ added)
  · exact fun _ _ => id

end CompilerBuilder

/-- Extending a registry is conservative. A strategy inserted behind those that want every node of
the plan that it wants changes nothing; nor do strategies at the end, unless the compilation stopped
at a node without one. Behind the standard strategies they never change anything. -/
theorem registry_extension_conservative :
    (∀ (before after : List (Strategy N E)) (strategy : Strategy N E) (options : CompilerOptions)
      (root : N) (mode : Mode),
      (∀ node ∈ TreeNode.nodes root, strategy.accepts node = true →
        ∃ earlier ∈ before, earlier.accepts node = true) →
      (⟨before ++ strategy :: after, options⟩ : Compiler N E).prepare root mode =
        (⟨before ++ after, options⟩ : Compiler N E).prepare root mode) ∧
    (∀ (registry added : List (Strategy N E)) (options : CompilerOptions) (root : N) (mode : Mode),
      (∀ kind path,
        (⟨registry, options⟩ : Compiler N E).prepare root mode ≠ .error (.unsupported kind path)) →
      (⟨registry ++ added, options⟩ : Compiler N E).prepare root mode =
        (⟨registry, options⟩ : Compiler N E).prepare root mode) ∧
    ∀ (builder : CompilerBuilder Operator Expr) (added : List (Strategy Operator Expr))
      (plan : Operator) (mode : Mode),
      (added.foldl CompilerBuilder.add builder.withStandard).build.prepare plan mode =
        builder.withStandard.build.prepare plan mode := by
  refine ⟨?_, ?_, ?_⟩
  · exact fun _ after _ _ _ _ hshadowed => Compiler.prepare_insert_of_shadowed after hshadowed
  · exact fun _ added _ _ _ hsupported => Compiler.prepare_append_of_supported added hsupported
  · exact CompilerBuilder.prepare_withStandard_add

/-- A second strategy for scans behind the one that refuses them is not asked, and a strategy for
variables at the end does not make the compilation forget that it has failed at the scan before. -/
theorem registry_extension_conservative_withoutScans :
    (⟨[Compiler.refusedScan] ++ Standard.scan :: [Standard.select, Standard.global], {}⟩ :
        Compiler Operator Expr).prepare (.select (.scan (.global "t")) (.var 0 0)) .strict =
      Compiler.withoutScans.prepare (.select (.scan (.global "t")) (.var 0 0)) .strict ∧
    (⟨Compiler.withoutScans.strategies ++ [Standard.var, Standard.scan], {}⟩ :
        Compiler Operator Expr).prepare (.select (.scan (.global "t")) (.var 0 0)) .strict =
      .error (.conversion "RefusedScan" "Scan" ⟨[0]⟩ "no table") := by
  have hnodes : TreeNode.nodes (Operator.select (.scan (.global "t")) (.var 0 0)) =
      [.select (.scan (.global "t")) (.var 0 0), .scan (.global "t"), .global "t", .var 0 0] := by
    with_unfolding_all rfl
  have hrefused :
      Compiler.withoutScans.prepare (.select (.scan (.global "t")) (.var 0 0)) .strict =
        .error (.conversion "RefusedScan" "Scan" ⟨[0]⟩ "no table") := by
    with_unfolding_all rfl
  obtain ⟨hinsert, happend, _⟩ := registry_extension_conservative (N := Operator) (E := Expr)
  refine ⟨?_, ?_⟩
  · apply hinsert [Compiler.refusedScan] [Standard.select, Standard.global] Standard.scan
    rw [hnodes]
    decide
  · refine (happend Compiler.withoutScans.strategies [Standard.var, Standard.scan] {} _ .strict
      ?_).trans hrefused
    intro kind path h
    cases hrefused.symm.trans h

end PlanLowering
