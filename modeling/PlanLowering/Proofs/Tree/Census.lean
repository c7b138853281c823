import PlanLowering.Plan.Operator
import PlanLowering.Proofs.Tree.Extent
import PlanLowering.Proofs.Tree.Statistics
import PlanLowering.Proofs.Tree.Validation

/-!
The statistics of a tree say exactly what is in it. A table of counters is in order if it lists no
name twice and no counter of zero; raising a counter keeps it so, and then what the table lists is
what looking a name up finds. The depth in the statistics is the least limit under which a sound
tree is accepted.
-/

namespace PlanLowering

namespace Counts

/-- No name is listed twice, and what is listed was counted at least once. -/
structure InOrder (counts : Counts) : Prop where
  nodup : (counts.map Prod.fst).Nodup
  pos : ∀ entry ∈ counts, 0 < entry.2

theorem map_fst_increment (name : String) (counts : Counts) :
    (increment name counts).map Prod.fst =
      if name ∈ counts.map Prod.fst then counts.map Prod.fst
      else counts.map Prod.fst ++ [name] := by
  induction counts with
  | nil => rfl
  | cons entry others ih =>
      obtain ⟨first, count⟩ := entry
      rw [increment]
      by_cases hfirst : first = name
      · simp [hfirst]
      · have hname : name ≠ first := Ne.symm hfirst
        rw [if_neg hfirst, List.map_cons, ih]
        by_cases hother : name ∈ others.map Prod.fst
        · rw [if_pos hother, List.map_cons, if_pos (List.mem_cons_of_mem first hother)]
        · rw [if_neg hother, List.map_cons, if_neg fun h => ?_]
          · rfl
          · exact hother ((List.mem_cons.mp h).resolve_left hname)

theorem InOrder.increment {counts : Counts} (h : counts.InOrder) (name : String) :
    (counts.increment name).InOrder where
  nodup := by
    rw [map_fst_increment]
    split
    · exact h.nodup
    · next hnew =>
        rw [← List.concat_eq_append]
        exact h.nodup.concat hnew
  pos := by
    have hpos := h.pos
    clear h
    induction counts with
    | nil => simp [Counts.increment]
    | cons entry others ih =>
        obtain ⟨hentry, hothers⟩ := List.forall_mem_cons.mp hpos
        rw [Counts.increment]
        split
        · exact List.forall_mem_cons.mpr ⟨Nat.succ_pos _, hothers⟩
        · exact List.forall_mem_cons.mpr ⟨hentry, ih hothers⟩

/-- What a table in order lists is what looking a name up finds. -/
theorem InOrder.mem_iff {counts : Counts} (h : counts.InOrder) {name : String} {count : Nat} :
    (name, count) ∈ counts ↔ 0 < count ∧ counts.get name = count := by
  obtain ⟨hnodup, hpos⟩ := h
  induction counts with
  | nil =>
      have hget : get [] name = 0 := rfl
      rw [hget]
      exact ⟨nofun, fun h => absurd h.2 (Nat.ne_of_lt h.1)⟩
  | cons entry others ih =>
      obtain ⟨first, counted⟩ := entry
      rw [List.map_cons, List.nodup_cons] at hnodup
      obtain ⟨hfirst, hothers⟩ := List.forall_mem_cons.mp hpos
      rw [List.mem_cons, get_cons, Prod.mk.injEq]
      by_cases hname : first = name
      · subst hname
        have hnew : (first, count) ∉ others := fun h => hnodup.1 (List.mem_map.mpr ⟨_, h, rfl⟩)
        rw [if_pos rfl]
        constructor
        · rintro (⟨-, rfl⟩ | hmem)
          · exact ⟨hfirst, rfl⟩
          · exact absurd hmem hnew
        · rintro ⟨-, rfl⟩
          exact Or.inl ⟨rfl, rfl⟩
      · rw [if_neg hname, ← ih hnodup.2 hothers]
        exact or_iff_right fun h => hname h.1.symm

theorem sum_increment (name : String) (counts : Counts) :
    ((increment name counts).map Prod.snd).sum = (counts.map Prod.snd).sum + 1 := by
  induction counts with
  | nil => rfl
  | cons entry others ih =>
      obtain ⟨first, count⟩ := entry
      rw [increment]
      split
      · simp only [List.map_cons, List.sum_cons]
        omega
      · simp only [List.map_cons, List.sum_cons, ih]
        omega

end Counts

namespace PlanStats

open TreeNode

variable {N : Type} [SizeOf N] [TreeNode N]

/-- The statistics are those of this tree. -/
structure Describes (stats : PlanStats) (root : N) : Prop where
  /-- There are as many nodes as paths that lead to one. -/
  nodeCount : (positions root).encard = stats.nodeCount
  /-- The depth is the length of the longest of these paths. -/
  maxDepth : IsGreatest (NodePath.depth '' positions root) stats.maxDepth
  /-- Each name has one counter, if it is the kind of a node, and none otherwise. -/
  nodup_names : (stats.kinds.map Prod.fst).Nodup
  mem_names_iff : ∀ name,
    name ∈ stats.kinds.map Prod.fst ↔ ∃ path node, resolve root path = some node ∧
      kindName node = name
  /-- A counter is the number of nodes of its kind. -/
  counter : ∀ name count, (name, count) ∈ stats.kinds → (positionsOf root name).encard = count
  /-- So is what is looked up, also for a name without a counter. -/
  countOf : ∀ name, (positionsOf root name).encard = stats.countOf name
  sum_counters : (stats.kinds.map Prod.snd).sum = stats.nodeCount

theorem nodeCount_foldl (places : List (NodePath × N)) (stats : PlanStats) :
    (places.foldl addPlace stats).nodeCount = stats.nodeCount + places.length := by
  induction places generalizing stats with
  | nil => rfl
  | cons place others ih =>
      rw [List.foldl_cons, ih, List.length_cons]
      exact Nat.add_right_comm _ 1 _

theorem maxDepth_foldl_le_iff {places : List (NodePath × N)} {stats : PlanStats} {bound : Nat} :
    (places.foldl addPlace stats).maxDepth ≤ bound ↔
      stats.maxDepth ≤ bound ∧ ∀ place ∈ places, place.1.depth ≤ bound := by
  induction places generalizing stats with
  | nil => exact ⟨fun h => ⟨h, List.forall_mem_nil _⟩, And.left⟩
  | cons place others ih =>
      have hplace : (addPlace stats place).maxDepth = max stats.maxDepth place.1.depth := rfl
      rw [List.foldl_cons, ih, hplace, Nat.max_le, List.forall_mem_cons, and_assoc]

theorem inOrder_foldl (places : List (NodePath × N)) {stats : PlanStats}
    (h : stats.kinds.InOrder) : (places.foldl addPlace stats).kinds.InOrder := by
  induction places generalizing stats with
  | nil => exact h
  | cons place others ih => exact ih (h.increment (kindName place.2))

theorem sum_kinds_foldl (places : List (NodePath × N)) (stats : PlanStats) :
    ((places.foldl addPlace stats).kinds.map Prod.snd).sum =
      (stats.kinds.map Prod.snd).sum + places.length := by
  induction places generalizing stats with
  | nil => rfl
  | cons place others ih =>
      have hplace : ((addPlace stats place).kinds.map Prod.snd).sum =
          (stats.kinds.map Prod.snd).sum + 1 := Counts.sum_increment _ _
      rw [List.foldl_cons, ih, hplace, List.length_cons]
      exact Nat.add_right_comm _ 1 _

theorem nodeCount_collect (root : N) : (collect root).nodeCount = size root := by
  rw [collect_eq, nodeCount_foldl, length_located]
  exact Nat.zero_add _

theorem maxDepth_collect (root : N) : (collect root).maxDepth = height root := by
  apply eq_of_forall_ge_iff
  intro bound
  rw [collect_eq, maxDepth_foldl_le_iff, height_le_iff_located]
  exact and_iff_right (Nat.zero_le bound)

theorem inOrder_kinds (root : N) : (collect root).kinds.InOrder := by
  rw [collect_eq]
  exact inOrder_foldl _ ⟨List.nodup_nil, List.forall_mem_nil _⟩

theorem encard_positionsOf_eq (root : N) (name : String) :
    (positionsOf root name).encard = (collect root).countOf name := by
  rw [encard_positionsOf, countOf_collect]

theorem mem_kinds_iff {root : N} {name : String} {count : Nat} :
    (name, count) ∈ (collect root).kinds ↔
      0 < count ∧ (collect root).countOf name = count :=
  (inOrder_kinds root).mem_iff

/-- Some node of the tree has a kind of this name. -/
theorem countOf_collect_pos_iff {root : N} {name : String} :
    0 < (collect root).countOf name ↔
      ∃ path node, resolve root path = some node ∧ kindName node = name := by
  rw [countOf_collect, List.countP_pos_iff]
  constructor
  · rintro ⟨place, hplace, hname⟩
    exact ⟨place.1, place.2, mem_located_iff.mp hplace, of_decide_eq_true hname⟩
  · rintro ⟨path, node, hnode, hname⟩
    exact ⟨(path, node), mem_located_iff.mpr hnode, decide_eq_true hname⟩

theorem describes_collect (root : N) : (collect root).Describes root where
  nodeCount := by rw [encard_positions, nodeCount_collect]
  maxDepth := by
    rw [maxDepth_collect]
    exact isGreatest_height root
  nodup_names := (inOrder_kinds root).nodup
  mem_names_iff name := by
    rw [← countOf_collect_pos_iff, List.mem_map]
    constructor
    · rintro ⟨⟨_, count⟩, hentry, rfl⟩
      obtain ⟨hpos, hcount⟩ := mem_kinds_iff.mp hentry
      exact hcount ▸ hpos
    · intro hpos
      exact ⟨(name, _), mem_kinds_iff.mpr ⟨hpos, rfl⟩, rfl⟩
  counter name count hentry := by
    rw [encard_positionsOf_eq, (mem_kinds_iff.mp hentry).2]
  countOf := encard_positionsOf_eq root
  sum_counters := by
    rw [collect_eq, sum_kinds_foldl, nodeCount_foldl]
    rfl

end PlanStats

open TreeNode

variable {N : Type} [SizeOf N] [TreeNode N]

/-- The statistics collected from a tree are those of the tree: its nodes, its depth and the nodes of
each kind are counted exactly. If every node is sound, the tree is accepted under exactly the limits
that its depth does not exceed. -/
theorem statistics_describe_tree :
    (∀ root : N, (PlanStats.collect root).Describes root) ∧
    ∀ (root : N) (limit : Nat),
      (∀ path node, resolve root path = some node → defect? node = none) →
      ((⟨limit⟩ : PlanValidator).validate root = .ok () ↔
        (PlanStats.collect root).maxDepth ≤ limit) := by
  refine ⟨PlanStats.describes_collect, ?_⟩
  intro root limit hsound
  rw [PlanValidator.validate_eq_ok_iff, PlanStats.maxDepth_collect, height_le_iff_located]
  exact forall₂_congr fun place hplace =>
    and_iff_left (hsound place.1 place.2 (mem_located_iff.mp hplace))

/-- The rows of a table that pass a constant condition. -/
def filteredTable : Operator :=
  .filter (.scan (.global "t")) (.lit (.bool true))

/-- Four nodes, the deepest two steps below the root: a limit of two is kept to, one of one is
not. -/
theorem statistics_describe_tree_filteredTable :
    (∀ path node, resolve filteredTable path = some node → defect? node = none) ∧
    (positions filteredTable).encard = 4 ∧ (positionsOf filteredTable "Global").encard = 1 ∧
    (⟨2⟩ : PlanValidator).validate filteredTable = .ok () ∧
    (⟨1⟩ : PlanValidator).validate filteredTable ≠ .ok () := by
  have hlocated : located filteredTable =
      [(⟨[]⟩, filteredTable), (⟨[0]⟩, .scan (.global "t")), (⟨[0, 0]⟩, .global "t"),
        (⟨[1]⟩, .lit (.bool true))] := by
    with_unfolding_all rfl
  have hcollect : PlanStats.collect filteredTable =
      ⟨4, 2, [("Filter", 1), ("Scan", 1), ("Global", 1), ("Lit", 1)]⟩ := by
    with_unfolding_all rfl
  have hsound : ∀ path node, resolve filteredTable path = some node → defect? node = none := by
    intro path node hnode
    rw [← mem_located_iff, hlocated] at hnode
    simp only [List.mem_cons, Prod.mk.injEq, List.not_mem_nil, or_false] at hnode
    rcases hnode with ⟨-, rfl⟩ | ⟨-, rfl⟩ | ⟨-, rfl⟩ | ⟨-, rfl⟩ <;> rfl
  obtain ⟨hdescribes, haccepted⟩ := statistics_describe_tree (N := Operator)
  have hfiltered := hdescribes filteredTable
  rw [hcollect] at hfiltered
  refine ⟨hsound, hfiltered.nodeCount, hfiltered.countOf "Global", ?_, ?_⟩
  · rw [haccepted _ _ hsound, hcollect]
  · rw [Ne, haccepted _ _ hsound, hcollect]
    decide

end PlanLowering
