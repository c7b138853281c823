import PlanLowering.Proofs.Tree.Settled

/-!
Walks that add to what was gathered before. Such a walk settles, and what it adds does not depend on
what was there; walks one after the other add one after the other, also if the last of them fails.
-/

namespace PlanLowering.Walk

variable {τ α β : Type}

/-- Begun at `path`, the walk ends there with this outcome, and these items are added to whatever
was gathered before. -/
def Gathers (walk : Walk (List τ) α) (path : NodePath) (outcome : Except CompileError α)
    (added : List τ) : Prop :=
  ∀ gathered, walk.runFrom path gathered = (outcome, ⟨path, gathered ++ added⟩)

/-- A walk that settles without looking at what was gathered adds nothing. -/
theorem gathers_nil {walk : Walk (List τ) α} {path : NodePath} {outcome : Except CompileError α}
    (h : ∀ gathered, walk.runFrom path gathered = (outcome, ⟨path, gathered⟩)) :
    walk.Gathers path outcome [] := by
  intro gathered
  rw [h, List.append_nil]

theorem gathers_pure (a : α) (path : NodePath) :
    (pure a : Walk (List τ) α).Gathers path (.ok a) [] :=
  gathers_nil fun _ => rfl

theorem gathers_throw (failure : CompileError) (path : NodePath) :
    (throw failure : Walk (List τ) α).Gathers path (.error failure) [] :=
  gathers_nil fun _ => rfl

theorem gathers_here (path : NodePath) :
    (here : Walk (List τ) NodePath).Gathers path (.ok path) [] :=
  gathers_nil fun _ => rfl

theorem gathers_add (added : List τ) (path : NodePath) :
    (modify fun cursor => { cursor with gathered := cursor.gathered ++ added } :
      Walk (List τ) PUnit).Gathers path (.ok ⟨⟩) added :=
  fun _ => rfl

theorem Gathers.bind {walk : Walk (List τ) α} {next : α → Walk (List τ) β} {path : NodePath} {a : α}
    {outcome : Except CompileError β} {added others : List τ}
    (hwalk : walk.Gathers path (.ok a) added) (hnext : (next a).Gathers path outcome others) :
    (walk >>= next).Gathers path outcome (added ++ others) := by
  intro gathered
  rw [runFrom_bind, hwalk gathered, ← List.append_assoc]
  exact hnext (gathered ++ added)

/-- A walk that adds nothing leaves what was added before it. -/
theorem Gathers.bind_nil {walk : Walk (List τ) α} {next : α → Walk (List τ) β} {path : NodePath}
    {a : α} {outcome : Except CompileError β} {added : List τ}
    (hwalk : walk.Gathers path (.ok a) added) (hnext : (next a).Gathers path outcome []) :
    (walk >>= next).Gathers path outcome added := by
  rw [← List.append_nil added]
  exact hwalk.bind hnext

theorem Gathers.bind_error {walk : Walk (List τ) α} {next : α → Walk (List τ) β} {path : NodePath}
    {failure : CompileError} {added : List τ} (hwalk : walk.Gathers path (.error failure) added) :
    (walk >>= next).Gathers path (.error failure) added := by
  intro gathered
  rw [runFrom_bind, hwalk gathered]

theorem Gathers.map {walk : Walk (List τ) α} {path : NodePath} {outcome : Except CompileError α}
    {added : List τ} (hwalk : walk.Gathers path outcome added) (f : α → β) :
    (walk >>= fun a => pure (f a)).Gathers path (outcome.map f) added := by
  cases outcome with
  | error failure => exact hwalk.bind_error
  | ok a => exact hwalk.bind_nil (gathers_pure (f a) path)

theorem Gathers.atChild {walk : Walk (List τ) α} {path : NodePath} {index : Nat}
    {outcome : Except CompileError α} {added : List τ}
    (hwalk : walk.Gathers (path.child index) outcome added) :
    (walk.atChild index).Gathers path outcome added := by
  intro gathered
  rw [runFrom_atChild, hwalk gathered]
  simp

end PlanLowering.Walk
