import PlanLowering.Proofs.Strategy.Pairs
import PlanLowering.Strategy.Standard

/-!
What the conversions take out of a match. A conversion yields a result together with the match it
leaves behind; those that take several lowered children in a row are described on matches that are
split into what lies before, between and behind them.
-/

namespace PlanLowering

namespace Conversion

variable {N E α β : Type}

/-- The conversion succeeds on a match with this result and leaves that match behind. -/
def Yields (conversion : Conversion N E α) (m : Match N E) (a : α) (m' : Match N E) : Prop :=
  conversion.run.run m = (.ok a, m')

theorem yields_pure (m : Match N E) (a : α) : (pure a : Conversion N E α).Yields m a m :=
  rfl

theorem yields_get (m : Match N E) : (get : Conversion N E (Match N E)).Yields m m m :=
  rfl

theorem yields_set (m m' : Match N E) : (set m' : Conversion N E PUnit).Yields m () m' :=
  rfl

theorem Yields.bind {conversion : Conversion N E α} {next : α → Conversion N E β}
    {m m' m'' : Match N E} {a : α} {b : β} (h : conversion.Yields m a m')
    (hnext : (next a).Yields m' b m'') : (conversion >>= next).Yields m b m'' := by
  simp only [Yields, ExceptT.run_bind, StateT.run_bind] at h ⊢
  rw [h]
  exact hnext

theorem Yields.on_eq {conversion : Conversion N E α} {m m' : Match N E} {a : α}
    (h : conversion.Yields m a m') : conversion.on m = .ok a :=
  congrArg Prod.fst h

theorem takeRemaining_yields (node : N) (mode : Mode) (path : NodePath) (strategy : String)
    (inputs : List E) :
    takeRemaining.Yields (.ofInputs node mode path strategy inputs) inputs
      (Match.ofInputs node mode path strategy inputs).emptied := by
  have hremaining : (Match.ofInputs node mode path strategy inputs).remaining = inputs := by
    simp [Match.ofInputs, Match.remaining]
  change (Except.ok (Match.ofInputs node mode path strategy inputs).remaining, _) = _
  rw [hremaining]

variable [SizeOf N] [TreeNode N]

theorem take_yields {m : Match N E} {index : Nat} {input : E} (h : m.input? index = some input) :
    (take index).Yields m input (m.without index) := by
  unfold take
  apply (yields_get m).bind
  rw [h]
  exact (yields_set m _).bind (yields_pure _ input)

/-- The input behind `before` is there to be taken, and leaves a gap. -/
theorem take_yields_of_append (m : Match N E) (before after : List (Option E)) (input : E) :
    (take before.length).Yields { m with inputs := before ++ some input :: after } input
      { m with inputs := before ++ none :: after } := by
  have hinput : Match.input? { m with inputs := before ++ some input :: after } before.length =
      some input := by
    simp [Match.input?]
  have hyields := take_yields hinput
  rwa [Match.without, List.set_append_right _ _ (Nat.le_refl _), Nat.sub_self,
    List.set_cons_zero] at hyields

theorem takeFrom_yields (m : Match N E) (before after : List (Option E)) (taken : List E) :
    (takeFrom before.length taken.length).Yields
      { m with inputs := before ++ (taken.map some ++ after) } taken
      { m with inputs := before ++ (taken.map (fun _ => none) ++ after) } := by
  induction taken generalizing before with
  | nil => exact yields_pure _ []
  | cons input others ih =>
      have hothers := ih (before ++ [none])
      rw [List.length_append, List.length_singleton, List.append_assoc, List.append_assoc,
        List.singleton_append, List.singleton_append] at hothers
      exact (take_yields_of_append m before _ input).bind
        (hothers.bind (yields_pure _ (input :: others)))

/-- What lies behind `before` is all of the rest. -/
theorem takeRest_yields (m : Match N E) (before : List (Option E)) (taken : List E) :
    (takeRest before.length).Yields { m with inputs := before ++ taken.map some } taken
      { m with inputs := before ++ taken.map fun _ => none } := by
  have htaken := takeFrom_yields m before [] taken
  rw [List.append_nil, List.append_nil] at htaken
  have hcount : (before ++ taken.map some).length - before.length = taken.length := by
    simp
  change (takeFrom before.length ((before ++ taken.map some).length - before.length)).Yields
    _ taken _
  rw [hcount]
  exact htaken

end Conversion

/-- Pairs are taken in the order in which they lie in the match. -/
theorem Standard.takePairs_yields (m : Match Operator Expr) (before after : List (Option Expr))
    (pairs : List (Expr × Expr)) :
    (takePairs before.length pairs.length).Yields
      { m with inputs := before ++ ((inPairs pairs).map some ++ after) } pairs
      { m with inputs := before ++ ((inPairs pairs).map (fun _ => none) ++ after) } := by
  induction pairs generalizing before with
  | nil => exact Conversion.yields_pure _ []
  | cons pair others ih =>
      have hothers := ih (before ++ [none, none])
      have hright := Conversion.take_yields_of_append m (before ++ [none])
        ((inPairs others).map some ++ after) pair.2
      simp only [List.length_append, List.length_cons, List.length_nil, List.append_assoc,
        List.cons_append, List.nil_append] at hothers hright
      exact (Conversion.take_yields_of_append m before _ pair.1).bind
        (hright.bind (hothers.bind (Conversion.yields_pure _ (pair :: others))))

end PlanLowering
