import PlanLowering.Proofs.Tree.PreOrder

/-!
Nodes and where they are. The positions listed for a tree are those at which its nodes are found,
and a traversal meets each node twice, on the way in and on the way out.
-/

namespace PlanLowering.TreeNode

variable {N : Type} [SizeOf N] [TreeNode N]

theorem resolve_cons (root : N) (index : Nat) (indices : List Nat) :
    resolve root ⟨index :: indices⟩ =
      (children root)[index]?.bind fun child => resolve child ⟨indices⟩ := by
  rw [resolve, List.foldlM_cons]
  rfl

theorem resolve_child {root node : N} {path : NodePath} (h : resolve root path = some node)
    (index : Nat) : resolve root (path.child index) = (children node)[index]? := by
  rw [resolve] at h
  rw [resolve, NodePath.child, List.foldlM_append, h, Option.bind_eq_bind, Option.bind_some,
    List.foldlM_cons]
  exact bind_pure _

theorem mem_zipIdx_flatMap {α β : Type} {members : List α} {below : α × Nat → List β} {b : β} :
    b ∈ members.zipIdx.flatMap below ↔
      ∃ index member, members[index]? = some member ∧ b ∈ below (member, index) := by
  rw [List.mem_flatMap]
  constructor
  · rintro ⟨⟨member, index⟩, hmember, hb⟩
    exact ⟨index, member, List.mem_zipIdx_iff_getElem?.mp hmember, hb⟩
  · rintro ⟨index, member, hmember, hb⟩
    exact ⟨(member, index), List.mem_zipIdx_iff_getElem?.mpr hmember, hb⟩

/-- The nodes listed for a tree are those found in it, each at its own position. -/
theorem mem_locatedFrom_iff {root node : N} {path place : NodePath} :
    (place, node) ∈ locatedFrom root path ↔
      ∃ indices, place = ⟨path.indices ++ indices⟩ ∧ resolve root ⟨indices⟩ = some node := by
  induction root using induction generalizing path with
  | step root ih =>
      rw [locatedFrom_eq, List.mem_cons, mem_zipIdx_flatMap]
      constructor
      · rintro (hroot | ⟨index, child, hchild, hplace⟩)
        · obtain ⟨rfl, rfl⟩ := Prod.mk.inj hroot
          exact ⟨[], by rw [List.append_nil], rfl⟩
        · obtain ⟨indices, rfl, hnode⟩ := (ih child (List.mem_of_getElem? hchild)).mp hplace
          refine ⟨index :: indices, ?_, ?_⟩
          · rw [NodePath.child, List.append_assoc, List.singleton_append]
          · rw [resolve_cons, hchild, Option.bind_some, hnode]
      · rintro ⟨indices, rfl, hnode⟩
        cases indices with
        | nil =>
            obtain rfl : root = node := Option.some.inj hnode
            exact Or.inl (by rw [List.append_nil])
        | cons index indices =>
            rw [resolve_cons] at hnode
            obtain ⟨child, hchild, hbelow⟩ := Option.bind_eq_some_iff.mp hnode
            refine Or.inr ⟨index, child, hchild, ?_⟩
            apply (ih child (List.mem_of_getElem? hchild)).mpr
            refine ⟨indices, ?_, hbelow⟩
            rw [NodePath.child, List.append_assoc, List.singleton_append]

/-- A traversal comes to a node, and leaves it once it has been to all that lies below. -/
inductive Event (N : Type) where
  | entry (path : NodePath) (node : N)
  | exit (path : NodePath) (node : N)

namespace Event

def path : Event N → NodePath
  | entry path _ | exit path _ => path

def node : Event N → N
  | entry _ node | exit _ node => node

end Event

/-- The events of a tree whose root is at a position: the entry of the root, the events of its
children in order, and the exit of the root. -/
def eventsFrom (root : N) : NodePath → List (Event N) :=
  fold (fun node (below : List (NodePath → List (Event N))) path =>
    .entry path node ::
      (below.zipIdx.flatMap (fun child => child.1 (path.child child.2)) ++ [.exit path node])) root

/-- The events of a tree, depth first. -/
def events (root : N) : List (Event N) :=
  eventsFrom root .root

theorem eventsFrom_eq (root : N) (path : NodePath) :
    eventsFrom root path = .entry path root ::
      ((children root).zipIdx.flatMap (fun child => eventsFrom child.1 (path.child child.2)) ++
        [.exit path root]) := by
  rw [eventsFrom, fold_eq, List.zipIdx_map, List.flatMap_map]
  rfl

theorem mem_locatedFrom_of_mem_eventsFrom {root : N} {path : NodePath} {event : Event N}
    (h : event ∈ eventsFrom root path) : (event.path, event.node) ∈ locatedFrom root path := by
  induction root using induction generalizing path with
  | step root ih =>
      rw [eventsFrom_eq, List.mem_cons, List.mem_append, List.mem_singleton,
        mem_zipIdx_flatMap] at h
      rw [locatedFrom_eq, List.mem_cons, mem_zipIdx_flatMap]
      rcases h with rfl | ⟨index, child, hchild, hevent⟩ | rfl
      · exact Or.inl rfl
      · exact Or.inr ⟨index, child, hchild, ih child (List.mem_of_getElem? hchild) hevent⟩
      · exact Or.inl rfl

/-- Every event is about the node at its position. -/
theorem resolve_of_mem_events {root : N} {event : Event N} (h : event ∈ events root) :
    resolve root event.path = some event.node := by
  obtain ⟨indices, hpath, hnode⟩ :=
    mem_locatedFrom_iff.mp (mem_locatedFrom_of_mem_eventsFrom h)
  rw [hpath]
  exact hnode

end PlanLowering.TreeNode
