import PlanLowering.Tree.Walk

/-!
Walks that come back. A walk settles at a position if it ends where it began and if its outcome is
the same whatever was gathered before; visiting children keeps both properties. A settled walk can
thus be replaced by the outcome it has at each position, and the children of a node by
`NodePath.collect`.
-/

namespace PlanLowering

/-- The outcomes of the children of a position from the one with this index on, in order, or the
first failure among them. -/
def NodePath.collect {ε α : Type} (path : NodePath) :
    Nat → List (NodePath → Except ε α) → Except ε (List α)
  | _, [] => .ok []
  | index, child :: others => do
    let first ← child (path.child index)
    let rest ← path.collect (index + 1) others
    return first :: rest

/-- One outcome for each child, if there is no failure. -/
theorem NodePath.length_of_collect {ε α : Type} {path : NodePath}
    {children : List (NodePath → Except ε α)} {index : Nat} {results : List α}
    (h : path.collect index children = .ok results) : results.length = children.length := by
  induction children generalizing index results with
  | nil =>
      obtain rfl : [] = results := Except.ok.inj h
      rfl
  | cons child others ih =>
      cases hfirst : child (path.child index) with
      | error failure => simp [NodePath.collect, hfirst, bind, Except.bind] at h
      | ok first =>
          cases hrest : path.collect (index + 1) others with
          | error failure => simp [NodePath.collect, hfirst, hrest, bind, Except.bind] at h
          | ok rest =>
              simp only [NodePath.collect, hfirst, hrest, bind, Except.bind, pure,
                Except.pure, Except.ok.injEq] at h
              rw [← h, List.length_cons, List.length_cons, ih hrest]

namespace Walk

variable {σ α β : Type}

/-- Begun at `path`, the walk ends there with this outcome, whatever was gathered before. -/
def Settles (walk : Walk σ α) (path : NodePath) (outcome : Except CompileError α) : Prop :=
  ∀ gathered, ∃ gathered', walk.runFrom path gathered = (outcome, ⟨path, gathered'⟩)

theorem settles_pure (a : α) (path : NodePath) :
    (pure a : Walk σ α).Settles path (.ok a) :=
  fun gathered => ⟨gathered, rfl⟩

theorem settles_throw (failure : CompileError) (path : NodePath) :
    (throw failure : Walk σ α).Settles path (.error failure) :=
  fun gathered => ⟨gathered, rfl⟩

theorem settles_here (path : NodePath) : (here : Walk σ NodePath).Settles path (.ok path) :=
  fun gathered => ⟨gathered, rfl⟩

/-- Gathering more does not move the cursor. -/
theorem settles_gather (gather : Cursor σ → σ) (path : NodePath) :
    (modify fun cursor => { cursor with gathered := gather cursor } : Walk σ PUnit).Settles path
      (.ok ⟨⟩) :=
  fun gathered => ⟨gather ⟨path, gathered⟩, rfl⟩

/-- The second walk begins where the first one has left the cursor. -/
theorem runFrom_bind (walk : Walk σ α) (next : α → Walk σ β) (path : NodePath) (gathered : σ) :
    (walk >>= next).runFrom path gathered =
      match walk.runFrom path gathered with
      | (.ok a, cursor) => (next a).runFrom cursor.path cursor.gathered
      | (.error failure, cursor) => (.error failure, cursor) := by
  simp only [runFrom, ExceptT.run_bind, StateT.run_bind]
  rcases walk.run.run ⟨path, gathered⟩ with ⟨failure | a, cursor⟩ <;> rfl

theorem Settles.bind {walk : Walk σ α} {next : α → Walk σ β} {path : NodePath} {a : α}
    {outcome : Except CompileError β} (hwalk : walk.Settles path (.ok a))
    (hnext : (next a).Settles path outcome) : (walk >>= next).Settles path outcome := by
  intro gathered
  obtain ⟨between, hbetween⟩ := hwalk gathered
  obtain ⟨after, hafter⟩ := hnext between
  refine ⟨after, ?_⟩
  rw [runFrom_bind, hbetween]
  exact hafter

theorem Settles.bind_error {walk : Walk σ α} {next : α → Walk σ β} {path : NodePath}
    {failure : CompileError} (hwalk : walk.Settles path (.error failure)) :
    (walk >>= next).Settles path (.error failure) := by
  intro gathered
  obtain ⟨after, hafter⟩ := hwalk gathered
  refine ⟨after, ?_⟩
  rw [runFrom_bind, hafter]

/-- The cursor is at the child meanwhile, and steps back from wherever it is left. -/
theorem runFrom_atChild (walk : Walk σ α) (index : Nat) (path : NodePath) (gathered : σ) :
    (walk.atChild index).runFrom path gathered =
      ((walk.runFrom (path.child index) gathered).1,
        { (walk.runFrom (path.child index) gathered).2 with
          path := (walk.runFrom (path.child index) gathered).2.path.parent }) :=
  rfl

/-- The step down and the step back cancel, also after a failure. -/
theorem Settles.atChild {walk : Walk σ α} {path : NodePath} {index : Nat}
    {outcome : Except CompileError α} (hwalk : walk.Settles (path.child index) outcome) :
    (walk.atChild index).Settles path outcome := by
  intro gathered
  obtain ⟨after, hafter⟩ := hwalk gathered
  refine ⟨after, ?_⟩
  rw [runFrom_atChild, hafter]
  simp

theorem settles_childrenFrom {N : Type} {walk : N → Walk σ α}
    {outcome : N → NodePath → Except CompileError α} {nodes : List N} (path : NodePath)
    (hnodes : ∀ node ∈ nodes, ∀ path, (walk node).Settles path (outcome node path))
    (index : Nat) :
    (childrenFrom index (nodes.map walk)).Settles path
      (path.collect index (nodes.map outcome)) := by
  induction nodes generalizing index with
  | nil => exact settles_pure [] path
  | cons node others ih =>
      have hfirst := (hnodes node List.mem_cons_self (path.child index)).atChild
      have hrest := ih (fun other hother => hnodes other (List.mem_cons_of_mem node hother))
        (index + 1)
      rw [List.map_cons, List.map_cons, childrenFrom, NodePath.collect]
      cases hone : outcome node (path.child index) with
      | error failure =>
          rw [hone] at hfirst
          exact hfirst.bind_error
      | ok first =>
          rw [hone] at hfirst
          refine hfirst.bind ?_
          cases hall : path.collect (index + 1) (others.map outcome) with
          | error failure =>
              rw [hall] at hrest
              exact hrest.bind_error
          | ok rest =>
              rw [hall] at hrest
              exact hrest.bind (settles_pure (first :: rest) path)

/-- Children that settle are visited at their own positions, whatever happened to their
siblings. -/
theorem settles_children {N : Type} {walk : N → Walk σ α}
    {outcome : N → NodePath → Except CompileError α} {nodes : List N} (path : NodePath)
    (hnodes : ∀ node ∈ nodes, ∀ path, (walk node).Settles path (outcome node path)) :
    (children (nodes.map walk)).Settles path (path.collect 0 (nodes.map outcome)) :=
  settles_childrenFrom path hnodes 0

end Walk

end PlanLowering
