import PlanLowering.Proofs.Tree.Positions
import Mathlib.Data.List.Basic
import Mathlib.Data.List.Nodup
import Mathlib.Data.List.Perm.Basic
import Mathlib.Data.List.Sigma

/-!
The two orders of a tree. A traversal comes to the nodes in the order in which they are listed, each
before its children, and leaves them in another, each after its children. Both orders are told from the
positions alone, so that a list of the nodes of a tree in one of them can be no other list.
-/

namespace PlanLowering

namespace NodePath

/-- The way to a position goes on to the other. -/
def Above (upper lower : NodePath) : Prop :=
  ∃ index indices, lower.indices = upper.indices ++ index :: indices

/-- The ways to two positions part, and go on to different children of a node. -/
def LeftOf (left right : NodePath) : Prop :=
  ∃ way index indices index' indices', index < index' ∧
    left.indices = way ++ index :: indices ∧ right.indices = way ++ index' :: indices'

theorem not_above_self (path : NodePath) : ¬ Above path path := by
  rintro ⟨index, indices, h⟩
  exact List.cons_ne_nil _ _ (List.self_eq_append_right.mp h)

theorem not_leftOf_self (path : NodePath) : ¬ LeftOf path path := by
  rintro ⟨way, index, indices, index', indices', hindex, h, h'⟩
  rw [h'] at h
  obtain ⟨rfl, -⟩ := List.cons.inj (List.append_cancel_left h)
  exact Nat.lt_irrefl _ hindex

/-- Below a position lies what lies below or at one of its children. -/
theorem above_of_child {path place : NodePath} {index : Nat} {indices : List Nat}
    (h : place.indices = (path.child index).indices ++ indices) : Above path place :=
  ⟨index, indices, by rw [h, child, List.append_assoc, List.singleton_append]⟩

/-- What lies below children lies to the left of what lies below later ones. -/
theorem leftOf_of_children {path place place' : NodePath} {index index' : Nat}
    {indices indices' : List Nat} (hindex : index < index')
    (h : place.indices = (path.child index).indices ++ indices)
    (h' : place'.indices = (path.child index').indices ++ indices') : LeftOf place place' := by
  refine ⟨path.indices, index, indices, index', indices', hindex, ?_, ?_⟩
  · rw [h, child, List.append_assoc, List.singleton_append]
  · rw [h', child, List.append_assoc, List.singleton_append]

end NodePath

namespace TreeNode

variable {N : Type} [SizeOf N] [TreeNode N]

namespace Event

/-- The place that is come to. -/
def entered? : Event N → Option (NodePath × N)
  | entry path node => some (path, node)
  | exit _ _ => none

/-- The place that is left. -/
def left? : Event N → Option (NodePath × N)
  | entry _ _ => none
  | exit path node => some (path, node)

end Event

theorem filterMap_entered?_eventsFrom (root : N) (path : NodePath) :
    (eventsFrom root path).filterMap Event.entered? = locatedFrom root path := by
  induction root using induction generalizing path with
  | step root ih =>
      rw [eventsFrom_eq, locatedFrom_eq]
      simp only [List.filterMap_cons, List.filterMap_append, List.filterMap_nil,
        List.filterMap_flatMap, Event.entered?, List.append_nil]
      congr 1
      apply List.flatMap_congr
      intro child hchild
      exact ih child.1 (List.fst_mem_of_mem_zipIdx hchild) _

/-- Nodes are come to in pre-order. -/
theorem filterMap_entered?_events (root : N) :
    (events root).filterMap Event.entered? = located root :=
  filterMap_entered?_eventsFrom root .root

/-- All nodes of a tree with their positions below `path`, each after its children. -/
def finishedFrom (root : N) (path : NodePath) : List (NodePath × N) :=
  (eventsFrom root path).filterMap Event.left?

/-- All nodes of a tree with their positions, each after its children. -/
def finished (root : N) : List (NodePath × N) :=
  finishedFrom root .root

theorem finishedFrom_eq (root : N) (path : NodePath) :
    finishedFrom root path =
      ((children root).zipIdx.flatMap fun child => finishedFrom child.1 (path.child child.2)) ++
        [(path, root)] := by
  rw [finishedFrom, eventsFrom_eq]
  simp only [List.filterMap_cons, List.filterMap_append, List.filterMap_nil,
    List.filterMap_flatMap, Event.left?]
  rfl

/-- Both orders list the same nodes at the same positions. -/
theorem finishedFrom_perm (root : N) (path : NodePath) :
    (finishedFrom root path).Perm (locatedFrom root path) := by
  induction root using induction generalizing path with
  | step root ih =>
      rw [finishedFrom_eq, locatedFrom_eq]
      refine (List.perm_append_singleton _ _).trans (List.Perm.cons _ ?_)
      apply List.Perm.flatMap_left
      intro child hchild
      exact ih child.1 (List.fst_mem_of_mem_zipIdx hchild) _

/-- The positions listed for a tree are those at which a node is found. -/
theorem mem_located_iff {root node : N} {path : NodePath} :
    (path, node) ∈ located root ↔ resolve root path = some node := by
  rw [located, mem_locatedFrom_iff]
  constructor
  · rintro ⟨indices, rfl, hnode⟩
    exact hnode
  · intro hnode
    exact ⟨path.indices, rfl, hnode⟩

/-- All positions of a tree lie at or below that of its root. -/
theorem exists_indices_of_mem_locatedFrom {root : N} {path place : NodePath}
    (h : place ∈ (locatedFrom root path).map Prod.fst) :
    ∃ indices, place.indices = path.indices ++ indices := by
  obtain ⟨⟨_, node⟩, hnode, rfl⟩ := List.mem_map.mp h
  obtain ⟨indices, rfl, -⟩ := mem_locatedFrom_iff.mp hnode
  exact ⟨indices, rfl⟩

theorem zipIdx_pairwise {α : Type} (members : List α) :
    members.zipIdx.Pairwise fun one other => one.2 < other.2 := by
  rw [← List.pairwise_map (f := Prod.snd), List.zipIdx_map_snd]
  exact List.pairwise_lt_range'

/-- A node is listed before all that lies below it or to its right. -/
theorem pairwise_locatedFrom (root : N) (path : NodePath) :
    ((locatedFrom root path).map Prod.fst).Pairwise fun place place' =>
      place.Above place' ∨ place.LeftOf place' := by
  induction root using induction generalizing path with
  | step root ih =>
      rw [locatedFrom_eq, List.map_cons, List.map_flatMap, List.pairwise_cons,
        List.pairwise_flatMap]
      refine ⟨?_, fun child hchild => ih child.1 (List.fst_mem_of_mem_zipIdx hchild) _, ?_⟩
      · intro place hplace
        obtain ⟨index, child, -, hmem⟩ := mem_zipIdx_flatMap.mp hplace
        obtain ⟨below, hbelow⟩ := exists_indices_of_mem_locatedFrom hmem
        exact Or.inl (NodePath.above_of_child hbelow)
      · refine (zipIdx_pairwise (children root)).imp fun hindex place hplace place' hplace' => ?_
        obtain ⟨below, hbelow⟩ := exists_indices_of_mem_locatedFrom hplace
        obtain ⟨below', hbelow'⟩ := exists_indices_of_mem_locatedFrom hplace'
        exact Or.inr (NodePath.leftOf_of_children hindex hbelow hbelow')

/-- A node is left after all that lies below it, and before all that lies to its right. -/
theorem pairwise_finishedFrom (root : N) (path : NodePath) :
    ((finishedFrom root path).map Prod.fst).Pairwise fun place place' =>
      place'.Above place ∨ place.LeftOf place' := by
  have hfinished : ∀ {root : N} {path place : NodePath},
      place ∈ (finishedFrom root path).map Prod.fst →
        ∃ indices, place.indices = path.indices ++ indices := fun h =>
    exists_indices_of_mem_locatedFrom (((finishedFrom_perm _ _).map Prod.fst).mem_iff.mp h)
  induction root using induction generalizing path with
  | step root ih =>
      rw [finishedFrom_eq, List.map_append, List.map_flatMap, List.pairwise_append,
        List.pairwise_flatMap]
      refine ⟨⟨fun child hchild => ih child.1 (List.fst_mem_of_mem_zipIdx hchild) _, ?_⟩,
        List.pairwise_singleton _ _, ?_⟩
      · refine (zipIdx_pairwise (children root)).imp fun hindex place hplace place' hplace' => ?_
        obtain ⟨below, hbelow⟩ := hfinished hplace
        obtain ⟨below', hbelow'⟩ := hfinished hplace'
        exact Or.inr (NodePath.leftOf_of_children hindex hbelow hbelow')
      · intro place hplace place' hplace'
        obtain ⟨index, child, -, hmem⟩ := mem_zipIdx_flatMap.mp hplace
        obtain ⟨below, hbelow⟩ := hfinished hmem
        obtain rfl := List.mem_singleton.mp hplace'
        exact Or.inl (NodePath.above_of_child hbelow)

/-- No position is listed twice. -/
theorem nodup_locatedFrom (root : N) (path : NodePath) :
    ((locatedFrom root path).map Prod.fst).Nodup := by
  refine (pairwise_locatedFrom root path).imp ?_
  rintro place _ (habove | hleft) rfl
  · exact NodePath.not_above_self place habove
  · exact NodePath.not_leftOf_self place hleft

end TreeNode

end PlanLowering
