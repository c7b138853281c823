import PlanLowering.Proofs.Strategy.Lowered

/-!
Standard strategies do not fail. A registry drawn from them lowers each valid plan or reports the
first node in pre-order that it has no strategy for; the whole of them lowers every valid plan. In
company of other strategies only the fusion can fail, and only because the sort below the limit has
become something else.
-/

namespace PlanLowering.Standard

variable {compiler : Compiler Operator Expr} {mode : Mode} {strategy : StandardStrategy}
  {m : Match Operator Expr}

/-- Whatever the children have become, a strategy other than the fusion succeeds. -/
theorem apply_ok_of_ne_topN (hstrategy : strategy ∈ strategies) (hother : strategy ≠ topN)
    (happlies : compiler.Applies mode strategy m) : ∃ e, strategy.apply m = .ok e := by
  cases happlies with
  | intro _ hselect hinputs =>
      have haccepts := (Strategy.select_spec hselect).2
      have hunfused := (mem_strategies_iff.mp hstrategy).resolve_left hother
      exact ⟨_, apply_eq_plain mode _ _ hunfused haccepts
        (Compiler.length_of_children_lower hinputs)⟩

/-- The fusion succeeds if the sort it is to take apart is still a sort. -/
theorem topN_ok_iff_of_applies (happlies : compiler.Applies mode topN m) :
    (∃ e, topN.apply m = .ok e) ↔ ∃ input keys, m.input? 0 = some (.sort input keys) := by
  cases happlies with
  | @intro _ path _ _ inputs hselect hinputs =>
      have haccepts := (Strategy.select_spec hselect).2
      obtain ⟨input, specs, n, rfl, hn⟩ := topN_accepts_iff.mp haccepts
      obtain ⟨lowered, bound, rfl⟩ :=
        List.length_eq_two.mp (Compiler.length_of_children_lower hinputs)
      have hinput : (Match.ofInputs (Operator.limit (.sort input specs) (.lit (.int n))) mode
          path topN.name [lowered, bound]).input? 0 = some lowered := rfl
      rw [topN_apply_ok_iff mode path _ input specs hn, hinput]
      simp only [Option.some.injEq]

/-- A registry of standard strategies lowers a valid plan or reports its first unmatched node. -/
theorem prepare_ok_or_unmatched
    (hregistry : ∀ strategy ∈ compiler.strategies, strategy ∈ strategies) {plan : Operator}
    (hvalid : compiler.validator.validate plan = .ok ()) (mode : Mode) :
    (∃ statement, compiler.prepare plan mode = .ok statement) ∨
      compiler.ReportsUnmatched plan mode := by
  have hprepare := prepare_eq_firstUnmatched hregistry hvalid mode
  cases hfirst : compiler.firstUnmatched plan .root with
  | none =>
      rw [hfirst] at hprepare
      exact Or.inl ⟨_, hprepare⟩
  | some failure =>
      rw [hfirst] at hprepare
      exact Or.inr (Compiler.reportsUnmatched_of_firstUnmatched hfirst hprepare)

/-- All standard strategies together lower every plan that is sound and not too deep. -/
theorem prepare_ok_of_sound (options : CompilerOptions) {plan : Operator}
    (hsound : ∀ place ∈ TreeNode.located plan,
      place.1.depth ≤ options.maxPlanDepth.toNat ∧ TreeNode.defect? place.2 = none)
    (mode : Mode) :
    ∃ statement, (Compiler.standard.withOptions options).prepare plan mode = .ok statement := by
  have hvalid : (Compiler.standard.withOptions options).validator.validate plan = .ok () :=
    PlanValidator.validate_eq_ok_iff.mpr hsound
  rw [prepare_standard, hvalid]
  exact ⟨_, rfl⟩

/-- The standard strategies are total. Drawn in any number and order they lower a valid plan or
report the first node that none of them wants; all of them lower every sound plan; and in company of
any others only the fusion can fail, when its sort has become something else. -/
theorem standard_strategies_total :
    (∀ (compiler : Compiler Operator Expr) (plan : Operator) (mode : Mode),
      (∀ strategy ∈ compiler.strategies, strategy ∈ strategies) →
      compiler.validator.validate plan = .ok () →
      (∃ statement, compiler.prepare plan mode = .ok statement) ∨
        compiler.ReportsUnmatched plan mode) ∧
    (∀ (options : CompilerOptions) (plan : Operator) (mode : Mode),
      (∀ place ∈ TreeNode.located plan,
        place.1.depth ≤ options.maxPlanDepth.toNat ∧ TreeNode.defect? place.2 = none) →
      ∃ statement, (Compiler.standard.withOptions options).prepare plan mode = .ok statement) ∧
    ∀ (compiler : Compiler Operator Expr) (mode : Mode) (strategy : StandardStrategy)
      (m : Match Operator Expr), strategy ∈ strategies → compiler.Applies mode strategy m →
      (strategy ≠ topN → ∃ e, strategy.apply m = .ok e) ∧
      (strategy = topN → ((∃ e, strategy.apply m = .ok e) ↔
        ∃ input keys, m.input? 0 = some (.sort input keys))) := by
  refine ⟨?_, ?_, ?_⟩
  · intro compiler plan mode hregistry hvalid
    exact prepare_ok_or_unmatched hregistry hvalid mode
  · intro options plan mode hsound
    exact prepare_ok_of_sound options hsound mode
  · intro compiler mode strategy m hstrategy happlies
    constructor
    · intro hother
      exact apply_ok_of_ne_topN hstrategy hother happlies
    · rintro rfl
      exact topN_ok_iff_of_applies happlies

/-- A strategy that hides the sort from what is above it. -/
def hiddenSort : StandardStrategy where
  name := "HiddenSort"
  pattern := .ofKind OperatorKind.sort
  apply _ := .ok (.global "sorted")

/-- Without variables the plan is refused, and with all strategies it is lowered. With the sort
hidden the fusion above it fails, while a scan above it would not mind. -/
theorem standard_strategies_total_firstRows :
    ((∃ statement, (⟨[limit, topN, sort, scan, lit, global], {}⟩ :
        Compiler Operator Expr).prepare firstRows .strict = .ok statement) ∨
      (⟨[limit, topN, sort, scan, lit, global], {}⟩ :
        Compiler Operator Expr).ReportsUnmatched firstRows .strict) ∧
    (∃ statement, (Compiler.standard.withOptions {}).prepare firstRows .permissive =
      .ok statement) ∧
    (∃ e, scan.apply (.ofInputs (.scan (.sort (.global "t") [])) .strict .root scan.name
      [.global "sorted"]) = .ok e) ∧
    ((∃ e, topN.apply (.ofInputs firstRows .strict .root topN.name
        [.global "sorted", .literal (.int 3)]) = .ok e) ↔
      ∃ input keys, some (Expr.global "sorted") = some (.sort input keys)) := by
  refine ⟨?_, ?_, ?_, ?_⟩
  · refine standard_strategies_total.1 _ firstRows .strict ?_ (by with_unfolding_all rfl)
    simp [strategies]
  · refine standard_strategies_total.2.1 {} firstRows .permissive ?_
    decide +kernel
  · have happlies : (⟨hiddenSort :: strategies, {}⟩ : Compiler Operator Expr).Applies .strict
        scan (.ofInputs (.scan (.sort (.global "t") [])) .strict .root scan.name
          [.global "sorted"]) :=
      .intro [] (by rfl) (by with_unfolding_all rfl)
    have hother : scan ≠ topN := fun h => absurd (congrArg Strategy.name h) (by decide)
    have hmem : scan ∈ strategies := by simp [strategies]
    exact (standard_strategies_total.2.2 _ .strict scan _ hmem happlies).1 hother
  · have happlies : (⟨hiddenSort :: strategies, {}⟩ : Compiler Operator Expr).Applies .strict
        topN (.ofInputs firstRows .strict .root topN.name
          [.global "sorted", .literal (.int 3)]) :=
      .intro [] (by rfl) (by with_unfolding_all rfl)
    exact (standard_strategies_total.2.2 _ .strict topN _ List.mem_cons_self happlies).2 rfl

end PlanLowering.Standard
