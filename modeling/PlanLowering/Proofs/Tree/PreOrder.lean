import PlanLowering.Proofs.Tree.Settled

/-!
The first fault of a tree in pre-order. A traversal that tests each node on the way in and adds no
failures of its own fails with exactly that fault; one step of it is `TreeNode.collect_firstFault`.
-/

namespace PlanLowering.TreeNode

variable {N : Type} [SizeOf N] [TreeNode N] {ε α : Type}

theorem locatedFrom_eq (root : N) (path : NodePath) :
    locatedFrom root path = (path, root) ::
      (children root).zipIdx.flatMap fun child =>
        locatedFrom child.1 (path.child child.2) := by
  rw [locatedFrom, fold_eq, List.zipIdx_map, List.flatMap_map]
  rfl

theorem nodes_eq (root : N) : nodes root = root :: (children root).flatMap nodes := by
  rw [nodes, fold_eq, List.flatMap_def]
  rfl

/-- Without their positions these are the nodes. -/
theorem map_snd_locatedFrom (root : N) (path : NodePath) :
    (locatedFrom root path).map Prod.snd = nodes root := by
  induction root using induction generalizing path with
  | step node ih =>
      have hchildren : (children node).zipIdx.flatMap (fun child =>
          (locatedFrom child.1 (path.child child.2)).map Prod.snd) =
          (children node).zipIdx.flatMap fun child => nodes child.1 := by
        rw [List.flatMap_def, List.flatMap_def]
        congr 1
        apply List.map_congr_left
        intro child hchild
        exact ih child.1 (List.fst_mem_of_mem_zipIdx hchild) _
      rw [locatedFrom_eq, nodes_eq, List.map_cons, List.map_flatMap, hchildren,
        ← List.flatMap_map, List.zipIdx_map_fst]

theorem forall_mem_nodes_iff {property : N → Prop} {root : N} :
    (∀ node ∈ nodes root, property node) ↔
      property root ∧ ∀ child ∈ children root, ∀ node ∈ nodes child, property node := by
  rw [nodes_eq root, List.forall_mem_cons, List.forall_mem_flatMap]

/-- What holds of all leaves of some form in a tree holds below each child, and the other way round,
unless the root is such a leaf itself. -/
theorem forall_leaf_iff {ι : Type} {leaf : ι → N} {property : ι → Prop} {root : N}
    (h : ∀ i, leaf i ≠ root) :
    (∀ i, leaf i ∈ nodes root → property i) ↔
      ∀ child ∈ children root, ∀ i, leaf i ∈ nodes child → property i := by
  simp only [nodes_eq root, List.mem_cons, h, false_or, List.mem_flatMap]
  constructor
  · intro hroot child hchild i hi
    exact hroot i ⟨child, hchild, hi⟩
  · rintro hchildren i ⟨child, hchild, hi⟩
    exact hchildren child hchild i hi

/-- The first fault that a test finds in a tree, each node before its children. -/
def firstFault (fault? : NodePath → N → Option ε) (root : N) (path : NodePath) : Option ε :=
  (locatedFrom root path).findSome? fun place => fault? place.1 place.2

/-- The first fault below a node: that of the first child from this index on that has one. -/
def firstFaultBelow (fault? : NodePath → N → Option ε) (path : NodePath) :
    Nat → List N → Option ε
  | _, [] => none
  | index, child :: others =>
    (firstFault fault? child (path.child index)).or
      (firstFaultBelow fault? path (index + 1) others)

theorem findSome?_zipIdx_flatMap (fault? : NodePath → N → Option ε) (path : NodePath)
    (nodes : List N) (index : Nat) :
    ((nodes.zipIdx index).flatMap fun child =>
      locatedFrom child.1 (path.child child.2)).findSome?
        (fun place => fault? place.1 place.2) = firstFaultBelow fault? path index nodes := by
  induction nodes generalizing index with
  | nil => rfl
  | cons node others ih =>
      rw [List.zipIdx_cons, List.flatMap_cons, List.findSome?_append, ih, firstFaultBelow,
        firstFault]

/-- A fault of the node itself hides those below it. -/
theorem firstFault_eq (fault? : NodePath → N → Option ε) (root : N) (path : NodePath) :
    firstFault fault? root path =
      (fault? path root).or (firstFaultBelow fault? path 0 (children root)) := by
  rw [firstFault, locatedFrom_eq, List.findSome?_cons, findSome?_zipIdx_flatMap]
  cases fault? path root <;> rfl

/-- Children that fail with their first fault and nothing else have, taken together, the first
fault below the node as their only failure. -/
theorem collect_firstFault {fault? : NodePath → N → Option ε}
    {outcome : N → NodePath → Except ε α} {value : N → α} {nodes : List N}
    (path : NodePath) (index : Nat)
    (hnodes : ∀ node ∈ nodes, ∀ path,
      outcome node path = (firstFault fault? node path).elim (.ok (value node)) .error) :
    path.collect index (nodes.map outcome) =
      (firstFaultBelow fault? path index nodes).elim (.ok (nodes.map value)) .error := by
  induction nodes generalizing index with
  | nil => rfl
  | cons node others ih =>
      have hfirst := hnodes node List.mem_cons_self (path.child index)
      have hrest := ih (index + 1)
        (fun other hother => hnodes other (List.mem_cons_of_mem node hother))
      rw [List.map_cons, List.map_cons, NodePath.collect, firstFaultBelow, hfirst, hrest]
      cases firstFault fault? node (path.child index) with
      | some failure => rfl
      | none => cases firstFaultBelow fault? path (index + 1) others <;> rfl

/-- A fault below a node is the first fault of one of its children. -/
theorem exists_child_of_firstFaultBelow {fault? : NodePath → N → Option ε} {path : NodePath}
    {nodes : List N} {index : Nat} {failure : ε}
    (h : firstFaultBelow fault? path index nodes = some failure) :
    ∃ child ∈ nodes, ∃ place, firstFault fault? child (path.child place) = some failure := by
  induction nodes generalizing index with
  | nil => cases h
  | cons node others ih =>
      rw [firstFaultBelow] at h
      cases hfirst : firstFault fault? node (path.child index) with
      | some found =>
          rw [hfirst, Option.some_or] at h
          exact ⟨node, List.mem_cons_self, index, hfirst.trans h⟩
      | none =>
          rw [hfirst, Option.none_or] at h
          obtain ⟨child, hchild, place, hplace⟩ := ih h
          exact ⟨child, List.mem_cons_of_mem node hchild, place, hplace⟩

/-- The first fault lies at a position that can be reached without meeting a fault: what holds of
the root's position, and of the children's positions of every node without a fault, holds there. -/
theorem exists_reached_of_firstFault {fault? : NodePath → N → Option ε} (reached : NodePath → Prop)
    (hbelow : ∀ path node index, fault? path node = none → reached (path.child index))
    {root : N} {path : NodePath} (hroot : reached path) {failure : ε}
    (h : firstFault fault? root path = some failure) :
    ∃ place node, reached place ∧ fault? place node = some failure := by
  induction root using induction generalizing path with
  | step node ih =>
      rw [firstFault_eq] at h
      cases hnode : fault? path node with
      | some found =>
          rw [hnode, Option.some_or] at h
          exact ⟨path, node, hroot, hnode.trans h⟩
      | none =>
          rw [hnode, Option.none_or] at h
          obtain ⟨child, hchild, index, hfirst⟩ := exists_child_of_firstFaultBelow h
          exact ih child hchild (hbelow path node index hnode) hfirst

/-- There is no fault exactly when no node has one. -/
theorem firstFault_eq_none_iff {fault? : NodePath → N → Option ε} {root : N}
    {path : NodePath} :
    firstFault fault? root path = none ↔
      ∀ place ∈ locatedFrom root path, fault? place.1 place.2 = none :=
  List.findSome?_eq_none_iff

/-- The first fault is that of a node with no faulty node before it. -/
theorem firstFault_eq_some_iff {fault? : NodePath → N → Option ε} {root : N}
    {path : NodePath} {failure : ε} :
    firstFault fault? root path = some failure ↔
      ∃ before place after, locatedFrom root path = before ++ place :: after ∧
        fault? place.1 place.2 = some failure ∧
        ∀ earlier ∈ before, fault? earlier.1 earlier.2 = none :=
  List.findSome?_eq_some_iff

end PlanLowering.TreeNode
