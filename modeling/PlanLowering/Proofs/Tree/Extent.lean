import PlanLowering.Proofs.Tree.Orders
import Mathlib.Data.Set.Card
import Mathlib.Order.Bounds.Basic

/-!
The extent of a tree: the positions in it, how many of them there are, and how far the deepest one
lies below the root. Size and height are found node by node, and both are facts about the paths that
lead somewhere.
-/

namespace PlanLowering.TreeNode

variable {N : Type} [SizeOf N] [TreeNode N]

/-- The paths that lead to a node. -/
def positions (root : N) : Set NodePath :=
  {path | ∃ node, resolve root path = some node}

/-- The paths that lead to a node whose kind has this name. -/
def positionsOf (root : N) (name : String) : Set NodePath :=
  {path | ∃ node, resolve root path = some node ∧ kindName node = name}

/-- The number of nodes. -/
def size (root : N) : Nat :=
  (nodes root).length

/-- The number of steps from the root to the deepest node. -/
def height : N → Nat :=
  fold fun _ below => below.foldr (fun depth deepest => max (depth + 1) deepest) 0

theorem size_eq (root : N) : size root = 1 + ((children root).map size).sum := by
  rw [size, nodes_eq, List.length_cons, List.length_flatMap, Nat.add_comm]
  rfl

theorem length_located (root : N) : (located root).length = size root := by
  rw [located, size, ← map_snd_locatedFrom root .root, List.length_map]

theorem height_le_iff {root : N} {bound : Nat} :
    height root ≤ bound ↔ ∀ child ∈ children root, height child + 1 ≤ bound := by
  rw [height, fold_eq]
  induction children root with
  | nil => exact ⟨nofun, fun _ => Nat.zero_le bound⟩
  | cons child others ih =>
      rw [List.map_cons, List.foldr_cons, Nat.max_le, ih, List.forall_mem_cons]

theorem height_lt_of_mem_children {root child : N} (h : child ∈ children root) :
    height child < height root :=
  height_le_iff.mp (Nat.le_refl (height root)) child h

/-- No node lies deeper below the root than the height says. -/
theorem height_le_iff_depth {root : N} {path : NodePath} {bound : Nat} :
    path.depth + height root ≤ bound ↔
      ∀ place ∈ locatedFrom root path, place.1.depth ≤ bound := by
  induction root using induction generalizing path with
  | step root ih =>
      have hchildren : (∀ place ∈ (children root).zipIdx.flatMap fun child =>
            locatedFrom child.1 (path.child child.2), place.1.depth ≤ bound) ↔
          ∀ child ∈ children root, path.depth + 1 + height child ≤ bound := by
        simp only [mem_zipIdx_flatMap]
        constructor
        · intro hplaces child hchild
          obtain ⟨index, hget⟩ := List.mem_iff_getElem?.mp hchild
          rw [← NodePath.depth_child path index]
          exact (ih child hchild).mpr fun place hplace => hplaces place ⟨index, child, hget, hplace⟩
        · rintro hheights place ⟨index, child, hget, hplace⟩
          have hchild := List.mem_of_getElem? hget
          have hheight := hheights child hchild
          rw [← NodePath.depth_child path index] at hheight
          exact (ih child hchild).mp hheight place hplace
      rw [locatedFrom_eq, List.forall_mem_cons, hchildren]
      change _ ↔ path.depth ≤ bound ∧ _
      constructor
      · intro h
        refine ⟨by omega, fun child hchild => ?_⟩
        have := height_le_iff.mp (Nat.le_sub_of_add_le' h) child hchild
        omega
      · rintro ⟨hpath, hheights⟩
        apply Nat.add_le_of_le_sub' hpath
        rw [height_le_iff]
        intro child hchild
        have := hheights child hchild
        omega

theorem height_le_iff_located {root : N} {bound : Nat} :
    height root ≤ bound ↔ ∀ place ∈ located root, place.1.depth ≤ bound := by
  rw [located, ← height_le_iff_depth]
  exact Iff.of_eq (congrArg (· ≤ bound) (Nat.zero_add _).symm)

theorem mem_positions_iff {root : N} {path : NodePath} :
    path ∈ positions root ↔ ∃ node, (path, node) ∈ located root := by
  simp only [mem_located_iff]
  rfl

/-- The height is the length of the longest path that leads to a node. -/
theorem isGreatest_height (root : N) :
    IsGreatest (NodePath.depth '' positions root) (height root) := by
  have hbounded : ∀ place ∈ located root, place.1.depth ≤ height root :=
    height_le_iff_located.mp (Nat.le_refl _)
  have hroot : (NodePath.root, root) ∈ located root := mem_located_iff.mpr rfl
  constructor
  · by_contra hmissed
    have hbelow : ∀ place ∈ located root, place.1.depth < height root := by
      intro place hplace
      refine Nat.lt_of_le_of_ne (hbounded place hplace) fun hdepth => hmissed ?_
      exact ⟨place.1, mem_positions_iff.mpr ⟨place.2, hplace⟩, hdepth⟩
    have hpos := hbelow _ hroot
    have hless : height root ≤ height root - 1 :=
      height_le_iff_located.mpr fun place hplace => Nat.le_sub_one_of_lt (hbelow place hplace)
    omega
  · rintro depth ⟨path, hpath, rfl⟩
    obtain ⟨node, hplace⟩ := mem_positions_iff.mp hpath
    exact hbounded _ hplace

/-- As many paths lead to a node with some property as there are such nodes in the list of all. -/
theorem encard_places (root : N) (property : N → Bool) :
    {path | ∃ node, resolve root path = some node ∧ property node = true}.encard =
      ((located root).countP fun place => property place.2 : Nat) := by
  let kept := ((located root).filter fun place => property place.2).map Prod.fst
  have hkept : {path | ∃ node, resolve root path = some node ∧ property node = true} =
      (kept.toFinset : Set NodePath) := by
    ext path
    simp [kept, mem_located_iff]
  have hnodup : kept.Nodup :=
    (nodup_locatedFrom root .root).sublist (List.filter_sublist.map Prod.fst)
  rw [hkept, Set.encard_coe_eq_coe_finsetCard, List.toFinset_card_of_nodup hnodup,
    List.length_map, List.countP_eq_length_filter]

theorem encard_positions (root : N) : (positions root).encard = size root := by
  have hall := encard_places root fun _ => true
  simpa [positions, ← length_located] using hall

theorem encard_positionsOf (root : N) (name : String) :
    (positionsOf root name).encard =
      ((located root).countP fun place => kindName place.2 = name : Nat) := by
  have hkind := encard_places root fun node => kindName node = name
  simpa [positionsOf] using hkind

end PlanLowering.TreeNode
