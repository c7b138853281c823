import PlanLowering.Proofs.Compiler.Outcome
import PlanLowering.Proofs.Tree.Statistics

/-!
What a traversal keeps along the way is the same after it as before it: the position of a validation
and of a lowering, and the depth of a count. Whether a node succeeds, is refused on the way in, or
fails on the way out, makes no difference to where its traversal ends; so the next sibling is visited
at its own place.
-/

namespace PlanLowering

variable {N E : Type} [SizeOf N] [TreeNode N]

namespace Walk

variable {σ α β : Type}

/-- The walk ends where it began, whatever its outcome. -/
def Restores (walk : Walk σ α) : Prop :=
  ∀ path gathered, (walk.runFrom path gathered).2.path = path

/-- The walks of siblings from the one with this index on, each begun at its own place below `path`
with what was gathered until then, up to the first failure. -/
def siblings (path : NodePath) : Nat → List (Walk σ α) → σ → Except CompileError (List α) × σ
  | _, [], gathered => (.ok [], gathered)
  | index, walk :: walks, gathered =>
    match walk.runFrom (path.child index) gathered with
    | (.error failure, after) => (.error failure, after.gathered)
    | (.ok first, after) =>
      let (others, gathered) := siblings path (index + 1) walks after.gathered
      (others.map (first :: ·), gathered)

theorem restores_of_settles {walk : Walk σ α} {outcome : NodePath → Except CompileError α}
    (h : ∀ path, walk.Settles path (outcome path)) : walk.Restores := by
  intro path gathered
  obtain ⟨after, hafter⟩ := h path gathered
  rw [hafter]

/-- A child that ends where it began leaves the cursor at its parent. -/
theorem runFrom_atChild_of_restores {walk : Walk σ α} (hwalk : walk.Restores) (index : Nat)
    (path : NodePath) (gathered : σ) :
    (walk.atChild index).runFrom path gathered =
      ((walk.runFrom (path.child index) gathered).1,
        ⟨path, (walk.runFrom (path.child index) gathered).2.gathered⟩) := by
  rw [runFrom_atChild, hwalk (path.child index) gathered, NodePath.parent_child]

theorem runFrom_childrenFrom {walks : List (Walk σ α)} (hwalks : ∀ walk ∈ walks, walk.Restores)
    (path : NodePath) (index : Nat) (gathered : σ) :
    (childrenFrom index walks).runFrom path gathered =
      ((siblings path index walks gathered).1, ⟨path, (siblings path index walks gathered).2⟩) := by
  induction walks generalizing index gathered with
  | nil => rfl
  | cons walk walks ih =>
      obtain ⟨hwalk, hothers⟩ := List.forall_mem_cons.mp hwalks
      rw [childrenFrom, runFrom_bind, runFrom_atChild_of_restores hwalk, siblings]
      rcases walk.runFrom (path.child index) gathered with ⟨failure | first, after⟩
      · rfl
      · dsimp only
        rw [runFrom_bind, ih hothers (index + 1) after.gathered]
        rcases siblings path (index + 1) walks after.gathered with ⟨failure | others, gathered⟩ <;>
          rfl

/-- The walks of the children are those of siblings, and come back to the parent. -/
theorem runFrom_children {walks : List (Walk σ α)} (hwalks : ∀ walk ∈ walks, walk.Restores)
    (path : NodePath) (gathered : σ) :
    (children walks).runFrom path gathered =
      ((siblings path 0 walks gathered).1, ⟨path, (siblings path 0 walks gathered).2⟩) :=
  runFrom_childrenFrom hwalks path 0 gathered

end Walk

namespace PlanValidator

theorem restores_walk (validator : PlanValidator) (root : N) : (validator.walk root).Restores :=
  Walk.restores_of_settles (validator.walk_settles root)

/-- A node is checked at the position where it was entered, and after it each of its children at the
position below with the index of that child. -/
theorem runFrom_walk (validator : PlanValidator) (root : N) (path : NodePath) :
    (validator.walk root).runFrom path () =
      match validator.violation? root path with
      | some failure => (.error failure, ⟨path, ()⟩)
      | none =>
        ((Walk.siblings path 0 ((TreeNode.children root).map validator.walk) ()).1.map fun _ => (),
          ⟨path, ()⟩) := by
  have hchildren : ∀ walk ∈ (TreeNode.children root).map validator.walk, walk.Restores :=
    List.forall_mem_map.mpr fun child _ => validator.restores_walk child
  have hbelow := Walk.runFrom_children hchildren path ()
  have hhere : Walk.here.runFrom path () = (.ok path, ⟨path, ()⟩) := rfl
  rw [walk_eq, Walk.runFrom_bind, hhere]
  dsimp only
  cases validator.violation? root path with
  | some failure => rfl
  | none =>
      change Walk.runFrom (Walk.children ((TreeNode.children root).map validator.walk) >>=
        fun _ => pure ()) path () = _
      rw [Walk.runFrom_bind, hbelow]
      rcases Walk.siblings path 0 ((TreeNode.children root).map validator.walk) () with
        ⟨failure | results, gathered⟩ <;> rfl

end PlanValidator

namespace Compiler

theorem restores_lower (compiler : Compiler N E) (mode : Mode) (root : N) :
    (compiler.lower mode root).Restores :=
  Walk.restores_of_settles (compiler.lower_settles mode root)

/-- A node is lowered at the position where it was entered, and before it each of its children at
the position below with the index of that child. -/
theorem runFrom_lower (compiler : Compiler N E) (mode : Mode) (root : N) (path : NodePath)
    (records : List LogRecord) :
    (compiler.lower mode root).runFrom path records =
      match compiler.select root with
      | none => (.error (.unsupported (TreeNode.kindName root) path), ⟨path, records⟩)
      | some strategy =>
        match Walk.siblings path 0 ((TreeNode.children root).map (compiler.lower mode)) records with
        | (.error failure, records) => (.error failure, ⟨path, records⟩)
        | (.ok inputs, records) =>
          (strategy.apply (.ofInputs root mode path strategy.name inputs),
            ⟨path, if compiler.options.traceStrategies then
              records ++ [traceRecord path root strategy] else records⟩) := by
  have hchildren : ∀ walk ∈ (TreeNode.children root).map (compiler.lower mode), walk.Restores :=
    List.forall_mem_map.mpr fun child _ => compiler.restores_lower mode child
  have hbelow := Walk.runFrom_children hchildren path records
  rw [lower_eq, Walk.runFrom_bind]
  change Walk.runFrom (match compiler.select root with
    | none => throw (.unsupported (TreeNode.kindName root) path)
    | some strategy => do
      let inputs ← Walk.children ((TreeNode.children root).map (compiler.lower mode))
      if compiler.options.traceStrategies then
        modify fun cursor =>
          { cursor with gathered := cursor.gathered ++ [traceRecord path root strategy] }
      lower.liftExcept (strategy.apply (.ofInputs root mode path strategy.name inputs)))
    path records = _
  cases compiler.select root with
  | none => rfl
  | some strategy =>
      dsimp only
      rw [Walk.runFrom_bind, hbelow]
      rcases Walk.siblings path 0 ((TreeNode.children root).map (compiler.lower mode)) records with
        ⟨failure | inputs, records⟩
      · rfl
      · cases compiler.options.traceStrategies <;> rfl

end Compiler

namespace PlanStats

/-- A node is counted at the depth where it was entered and each of its children one deeper; the
depth after it is the one before it. -/
theorem run_counter (root : N) (stats : PlanStats) (depth : Nat) :
    (counter.visit root).run ⟨stats, depth⟩ =
      ((), ⟨(TreeNode.children root).foldl
        (fun stats child => (counter.stateAfter ⟨stats, depth + 1⟩ child).stats)
        (stats.add (TreeNode.kindName root) depth), depth⟩) := by
  induction root using TreeNode.induction generalizing stats depth with
  | step root ih =>
      have hbelow (stats : PlanStats) :
          ((TreeNode.children root).forM fun child => discard (counter.visit child)).run
              ⟨stats, depth + 1⟩ =
            ((), ⟨(TreeNode.children root).foldl
              (fun stats child => (counter.stateAfter ⟨stats, depth + 1⟩ child).stats) stats,
              depth + 1⟩) := by
        have hrows : (TreeNode.children root).zipIdx.flatMap (fun child => [child.1]) =
            TreeNode.children root := by
          rw [← List.map_eq_flatMap, List.zipIdx_map_fst]
        conv_rhs => rw [← hrows]
        refine Visitor.run_children (fun stats => (⟨stats, depth + 1⟩ : Tally)) _ ?_ stats
        intro index child hchild stats
        have hdepth : (counter.stateAfter ⟨stats, depth + 1⟩ child).depth = depth + 1 := by
          rw [Visitor.stateAfter, ih child (List.mem_of_getElem? hchild)]
        exact congrArg (Tally.mk (counter.stateAfter ⟨stats, depth + 1⟩ child).stats) hdepth
      have henter (descend : StateM Tally Unit) :
          (counter.enter root descend).run ⟨stats, depth⟩ =
            ((), ⟨(descend.run ⟨stats.add (TreeNode.kindName root) depth, depth + 1⟩).2.stats,
              (descend.run ⟨stats.add (TreeNode.kindName root) depth, depth + 1⟩).2.depth - 1⟩) :=
        rfl
      rw [Visitor.visit_eq, henter, StateT.run_bind, hbelow]
      rfl

end PlanStats

/-- A validation and a lowering end at the position where they began, and a count at the depth where
it began, whatever comes of them. The children of a node are visited in turn: each of them starts at
its own index below the position of the node, or one deeper than the node, whatever the visits of its
siblings have left behind. -/
theorem traversals_restore_place :
    (∀ (validator : PlanValidator) (root : N) (path : NodePath),
      ((validator.walk root).runFrom path ()).2.path = path) ∧
    (∀ (compiler : Compiler N E) (mode : Mode) (root : N) (path : NodePath)
        (records : List LogRecord),
      ((compiler.lower mode root).runFrom path records).2.path = path) ∧
    (∀ (root : N) (tally : PlanStats.Tally),
      (PlanStats.counter.stateAfter tally root).depth = tally.depth) ∧
    (∀ (validator : PlanValidator) (root : N) (path : NodePath),
      (validator.walk root).runFrom path () =
        match validator.violation? root path with
        | some failure => (.error failure, ⟨path, ()⟩)
        | none =>
          ((Walk.siblings path 0 ((TreeNode.children root).map validator.walk) ()).1.map
            fun _ => (), ⟨path, ()⟩)) ∧
    (∀ (compiler : Compiler N E) (mode : Mode) (root : N) (path : NodePath)
        (records : List LogRecord),
      (compiler.lower mode root).runFrom path records =
        match compiler.select root with
        | none => (.error (.unsupported (TreeNode.kindName root) path), ⟨path, records⟩)
        | some strategy =>
          match Walk.siblings path 0 ((TreeNode.children root).map (compiler.lower mode)) records
          with
          | (.error failure, records) => (.error failure, ⟨path, records⟩)
          | (.ok inputs, records) =>
            (strategy.apply (.ofInputs root mode path strategy.name inputs),
              ⟨path, if compiler.options.traceStrategies then
                records ++ [Compiler.traceRecord path root strategy] else records⟩)) ∧
    ∀ (root : N) (tally : PlanStats.Tally),
      PlanStats.counter.stateAfter tally root =
        ⟨(TreeNode.children root).foldl
          (fun stats child =>
            (PlanStats.counter.stateAfter ⟨stats, tally.depth + 1⟩ child).stats)
          (tally.stats.add (TreeNode.kindName root) tally.depth), tally.depth⟩ := by
  have hcount (root : N) (tally : PlanStats.Tally) :
      PlanStats.counter.stateAfter tally root = _ :=
    congrArg Prod.snd (PlanStats.run_counter root tally.stats tally.depth)
  refine ⟨?_, ?_, ?_, ?_, ?_, hcount⟩
  · intro validator root path
    exact validator.restores_walk root path ()
  · intro compiler mode root path records
    exact compiler.restores_lower mode root path records
  · intro root tally
    rw [hcount]
  · intro validator root path
    exact validator.runFrom_walk root path
  · intro compiler mode root path records
    exact compiler.runFrom_lower mode root path records

end PlanLowering
