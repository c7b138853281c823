import PlanLowering.Proofs.Tree.Visits
import PlanLowering.Tree.Stats

/-!
Statistics against the nodes that they count: the counter takes every node into account once, at
the depth of its position.
-/

namespace PlanLowering

namespace Counts

theorem get_cons (first name : String) (count : Nat) (others : Counts) :
    get ((first, count) :: others) name = if first = name then count else others.get name := by
  by_cases hfirst : first = name
  · simp [get, hfirst]
  · have hbeq : (name == first) = false := beq_eq_false_iff_ne.mpr (Ne.symm hfirst)
    simp [get, List.lookup_cons, hfirst, hbeq]

theorem get_increment (name other : String) (counts : Counts) :
    (increment name counts).get other = counts.get other + if name = other then 1 else 0 := by
  induction counts with
  | nil =>
      rw [increment, get_cons]
      exact (Nat.zero_add _).symm
  | cons entry others ih =>
      obtain ⟨first, count⟩ := entry
      rw [increment]
      by_cases hfirst : first = name
      · subst hfirst
        rw [if_pos rfl, get_cons, get_cons]
        split <;> rfl
      · rw [if_neg hfirst, get_cons, get_cons, ih]
        by_cases hother : first = other
        · have hname : name ≠ other := fun h => hfirst (hother.trans h.symm)
          simp [hother, hname]
        · simp [hother]

end Counts

namespace PlanStats

open TreeNode

variable {N : Type} [SizeOf N] [TreeNode N]

/-- Takes a node into account at the depth of its position. -/
def addPlace (stats : PlanStats) (place : NodePath × N) : PlanStats :=
  stats.add (kindName place.2) place.1.depth

theorem counter_stateAfter (root : N) (path : NodePath) (stats : PlanStats) :
    counter.stateAfter ⟨stats, path.depth⟩ root =
      ⟨(locatedFrom root path).foldl addPlace stats, path.depth⟩ := by
  induction root using induction generalizing path stats with
  | step root ih =>
      have hbelow (stats : PlanStats) :
          ((children root).forM fun child => discard (counter.visit child)).run
              ⟨stats, path.depth + 1⟩ =
            (⟨⟩, ⟨((children root).zipIdx.flatMap fun child =>
              locatedFrom child.1 (path.child child.2)).foldl addPlace stats, path.depth + 1⟩) := by
        refine Visitor.run_children (fun stats => (⟨stats, path.depth + 1⟩ : Tally)) _ ?_ stats
        intro index child hchild stats
        have := ih child (List.mem_of_getElem? hchild) (path.child index) stats
        rwa [NodePath.depth_child] at this
      have henter (descend : StateM Tally Unit) :
          ((counter.enter root descend).run ⟨stats, path.depth⟩).2 =
            ⟨(descend.run ⟨addPlace stats (path, root), path.depth + 1⟩).2.stats,
              (descend.run ⟨addPlace stats (path, root), path.depth + 1⟩).2.depth - 1⟩ := rfl
      rw [Visitor.stateAfter, Visitor.visit_eq, locatedFrom_eq, List.foldl_cons, henter,
        StateT.run_bind, hbelow]
      rfl

/-- The statistics of a tree take each of its nodes into account. -/
theorem collect_eq (root : N) : collect root = (located root).foldl addPlace empty :=
  congrArg Tally.stats (counter_stateAfter root .root empty)

theorem countOf_foldl (places : List (NodePath × N)) (stats : PlanStats) (name : String) :
    (places.foldl addPlace stats).countOf name =
      stats.countOf name + places.countP fun place => kindName place.2 = name := by
  induction places generalizing stats with
  | nil => rfl
  | cons place others ih =>
      have hfirst : (addPlace stats place).countOf name =
          stats.countOf name + if kindName place.2 = name then 1 else 0 :=
        Counts.get_increment _ _ _
      rw [List.foldl_cons, ih, hfirst, List.countP_cons]
      simp only [decide_eq_true_eq]
      omega

/-- A kind is counted as often as it occurs. -/
theorem countOf_collect (root : N) (name : String) :
    (collect root).countOf name = (located root).countP fun place => kindName place.2 = name := by
  rw [collect_eq, countOf_foldl]
  exact Nat.zero_add _

end PlanStats

end PlanLowering
