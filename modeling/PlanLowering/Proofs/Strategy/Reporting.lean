import PlanLowering.Strategy.Standard

/-!
Failures that name their node. A strategy that fails only through the match it was given names itself,
the kind of the node and its position. Taking lowered children fails in this way, so does giving up
on behalf of the strategy, and what is put together from conversions that do so does so as well. All
standard strategies are put together like this.
-/

namespace PlanLowering

variable {N E α β : Type} [SizeOf N] [TreeNode N]

/-- Whatever the match, a failure of the strategy is that match's own, for some reason. -/
def Strategy.FailsThroughMatch (strategy : Strategy N E) : Prop :=
  ∀ (m : Match N E) (failure : CompileError), strategy.apply m = .error failure →
    ∃ reason, failure = m.failure reason

namespace Conversion

/-- The conversion fails only through the match it works on, and the match that it leaves behind
would report failures in the same way. -/
class Reports (conversion : Conversion N E α) : Prop where
  keeps : ∀ m : Match N E, (conversion.run.run m).2.failure = m.failure
  fails : ∀ (m : Match N E) (failure : CompileError),
    (conversion.run.run m).1 = .error failure → ∃ reason, failure = m.failure reason

instance reports_pure (a : α) : (pure a : Conversion N E α).Reports where
  keeps _ := rfl
  fails _ _ h := nomatch h

instance reports_get : (get : Conversion N E (Match N E)).Reports where
  keeps _ := rfl
  fails _ _ h := nomatch h

instance reports_fail (reason : String) : (fail reason : Conversion N E α).Reports where
  keeps _ := rfl
  fails _ _ h := ⟨reason, (Except.error.inj h).symm⟩

theorem Reports.bind {conversion : Conversion N E α} {next : α → Conversion N E β}
    (hconversion : conversion.Reports) (hnext : ∀ a, (next a).Reports) :
    (conversion >>= next).Reports where
  keeps m := by
    have hkeeps := hconversion.keeps m
    rw [ExceptT.run_bind, StateT.run_bind]
    rcases hrun : conversion.run.run m with ⟨failure | a, m'⟩ <;> rw [hrun] at hkeeps
    · exact hkeeps
    · exact ((hnext a).keeps m').trans hkeeps
  fails m failure h := by
    have hkeeps := hconversion.keeps m
    have hfails := hconversion.fails m
    rw [ExceptT.run_bind, StateT.run_bind] at h
    rcases hrun : conversion.run.run m with ⟨earlier | a, m'⟩ <;>
      rw [hrun] at hkeeps hfails h
    · obtain rfl : earlier = failure := Except.error.inj h
      exact hfails earlier rfl
    · obtain ⟨reason, hreason⟩ := (hnext a).fails m' failure h
      exact ⟨reason, hreason.trans (congrFun hkeeps reason)⟩

instance reports_bind {conversion : Conversion N E α} {next : α → Conversion N E β}
    [hconversion : conversion.Reports] [hnext : ∀ a, (next a).Reports] :
    (conversion >>= next).Reports :=
  hconversion.bind hnext

instance reports_ite {condition : Prop} [Decidable condition]
    {conversion other : Conversion N E α} [hconversion : conversion.Reports]
    [hother : other.Reports] : (if condition then conversion else other).Reports := by
  split
  · exact hconversion
  · exact hother

/-- A child that is missing or was taken before is reported through the match. -/
instance reports_take (index : Nat) : (take index : Conversion N E E).Reports := by
  have hrun : ∀ m : Match N E, (take index : Conversion N E E).run.run m =
      match m.input? index with
      | some input => (.ok input, m.without index)
      | none => (.error (m.failure (m.missingInput index)), m) := by
    intro m
    change (match m.input? index with
      | some input => (do set (m.without index); return input : Conversion N E E)
      | none => fail (m.missingInput index)).run.run m = _
    cases m.input? index <;> rfl
  constructor
  · intro m
    rw [hrun]
    cases m.input? index <;> rfl
  · intro m failure h
    rw [hrun] at h
    cases hinput : m.input? index with
    | some input =>
        rw [hinput] at h
        cases h
    | none =>
        rw [hinput] at h
        exact ⟨m.missingInput index, (Except.error.inj h).symm⟩

instance reports_takeFrom (first count : Nat) :
    (takeFrom first count : Conversion N E (List E)).Reports := by
  induction count generalizing first with
  | zero => exact reports_pure []
  | succ count ih =>
      unfold takeFrom
      infer_instance

instance reports_takeRest (first : Nat) : (takeRest first : Conversion N E (List E)).Reports := by
  unfold takeRest takeRange
  infer_instance

instance reports_takeRemaining : (takeRemaining : Conversion N E (List E)).Reports where
  keeps _ := rfl
  fails _ _ h := nomatch h

theorem fails_on_of_reports {conversion : Conversion N E α} [hconversion : conversion.Reports]
    {m : Match N E} {failure : CompileError} (h : conversion.on m = .error failure) :
    ∃ reason, failure = m.failure reason :=
  hconversion.fails m failure h

end Conversion

namespace Standard

open Conversion

instance reports_modeHere : modeHere.Reports := by
  unfold modeHere
  infer_instance

instance reports_permissiveHere : permissiveHere.Reports := by
  unfold permissiveHere
  infer_instance

instance reports_handledHere (values : List Expr) : (handledHere values).Reports := by
  unfold handledHere
  infer_instance

instance reports_takePairs (first count : Nat) : (takePairs first count).Reports := by
  induction count generalizing first with
  | zero => exact reports_pure []
  | succ count ih =>
      unfold takePairs
      infer_instance

/-- A strategy that is handed a node it cannot lower says so through its match as well. -/
theorem strategy_failsThroughMatch {name : String} {kind : OperatorKind}
    {pattern : Pattern Operator} {lower : Operator → Option (Lowering Expr)}
    (hlower : ∀ node conversion, lower node = some conversion → conversion.Reports) :
    (strategy name kind pattern lower).FailsThroughMatch := by
  intro m failure h
  simp only [strategy] at h
  split at h
  · next conversion hconversion =>
      have hreports := hlower m.node conversion hconversion
      exact fails_on_of_reports h
  · exact ⟨_, (Except.error.inj h).symm⟩

theorem strategyOf_failsThroughMatch {kind : OperatorKind}
    {lower : Operator → Option (Lowering Expr)}
    (hlower : ∀ node conversion, lower node = some conversion → conversion.Reports) :
    (strategyOf kind lower).FailsThroughMatch :=
  strategy_failsThroughMatch hlower

/-- The lowered sort of a fusion may be no sort any more, which is reported through the match. -/
theorem topN_failsThroughMatch : topN.FailsThroughMatch := by
  apply strategy_failsThroughMatch
  intro node conversion h
  split at h
  · obtain rfl := Option.some.inj h
    split
    · infer_instance
    · refine (reports_take 0).bind fun lowered => ?_
      split <;> infer_instance
  · cases h

theorem failsThroughMatch_of_mem_strategies {strategy : StandardStrategy}
    (h : strategy ∈ strategies) : strategy.FailsThroughMatch := by
  simp only [strategies, List.mem_cons, List.not_mem_nil, or_false] at h
  rcases h with rfl | rfl | rfl | rfl | rfl | rfl | rfl | rfl | rfl | rfl | rfl | rfl | rfl | rfl |
    rfl | rfl | rfl | rfl | rfl | rfl | rfl | rfl | rfl | rfl | rfl | rfl | rfl | rfl | rfl
  · exact topN_failsThroughMatch
  all_goals
    apply strategyOf_failsThroughMatch
    intro node conversion h
    split at h
    · obtain rfl := Option.some.inj h
      infer_instance
    · cases h

end Standard

end PlanLowering
