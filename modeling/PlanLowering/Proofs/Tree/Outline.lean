import PlanLowering.Proofs.Tree.Visits

/-!
Trees written out. An outline is a tree in which the parts of a term are in plain sight: what its
fields hold, in the order in which they are declared. The orders and positions of an outline are
read off it by recursion on its parts, without asking a node for its children; a tree follows an
outline if children, visits and positions all agree with it.
-/

namespace PlanLowering

/-- A term with the outlines of the terms that its fields hold. -/
inductive Outline (N : Type) where
  | mk (term : N) (parts : List (Outline N))

namespace Outline

variable {N : Type}

mutual

/-- The terms with their positions, each before its parts; the outline itself is at `path`. -/
def placesFrom (path : NodePath) : Outline N → List (NodePath × N)
  | mk term parts => (path, term) :: placesOfParts path 0 parts

/-- The terms of the parts at a position, from the part with this index on. -/
def placesOfParts (path : NodePath) (index : Nat) : List (Outline N) → List (NodePath × N)
  | [] => []
  | part :: others => placesFrom (path.child index) part ++ placesOfParts path (index + 1) others

end

/-- The terms with their positions, each before its parts. -/
def places (outline : Outline N) : List (NodePath × N) :=
  placesFrom .root outline

mutual

/-- The terms, each after its parts. -/
def postOrder : Outline N → List N
  | mk term parts => postOrderOfParts parts ++ [term]

def postOrderOfParts : List (Outline N) → List N
  | [] => []
  | part :: others => postOrder part ++ postOrderOfParts others

end

theorem placesOfParts_eq (path : NodePath) (index : Nat) (parts : List (Outline N)) :
    placesOfParts path index parts =
      (parts.zipIdx index).flatMap fun part => placesFrom (path.child part.2) part.1 := by
  induction parts generalizing index with
  | nil => rfl
  | cons part others ih =>
      rw [placesOfParts, ih, List.zipIdx_cons, List.flatMap_cons]

theorem postOrderOfParts_eq (parts : List (Outline N)) :
    postOrderOfParts parts = parts.flatMap postOrder := by
  induction parts with
  | nil => rfl
  | cons part others ih => rw [postOrderOfParts, ih, List.flatMap_cons]

end Outline

namespace TreeNode

variable {N : Type} [SizeOf N] [TreeNode N]

/-- A tree follows an outline: its nodes, its visits and its positions are those of the outline. -/
structure Follows (root : N) (outline : Outline N) : Prop where
  /-- Asking for children, and for children of these, comes to every term once and in order. -/
  nodes_eq : nodes root = outline.places.map Prod.snd
  /-- A visitor that keeps to the default leaves every term once, each after its parts and in the
  state in which it has left the one before; the result is that of leaving the root. -/
  visit_eq : ∀ {σ ρ : Type} (leave : N → StateM σ ρ) (start : σ),
    ∃ before, outline.postOrder = before ++ [root] ∧
      (({ leave } : Visitor N σ ρ).visit root).run start =
        (leave root).run (before.foldl (fun state node => ((leave node).run state).2) start)
  postOrder_eq : postOrder root = outline.postOrder
  /-- The paths that lead somewhere are the positions of the terms, and lead to them. -/
  resolve_eq_some_iff : ∀ path node,
    resolve root path = some node ↔ (path, node) ∈ outline.places
  /-- A term has a position of its own. -/
  nodup_places : (outline.places.map Prod.fst).Nodup

theorem placesFrom_eq_locatedFrom {outline : N → Outline N}
    (hparts : ∀ node, outline node = .mk node ((children node).map outline))
    (root : N) (path : NodePath) :
    (outline root).placesFrom path = locatedFrom root path := by
  induction root using induction generalizing path with
  | step root ih =>
      rw [hparts, Outline.placesFrom, Outline.placesOfParts_eq, locatedFrom_eq, List.zipIdx_map,
        List.flatMap_map]
      refine congrArg (List.cons _) (List.flatMap_congr fun child hchild => ?_)
      exact ih child.1 (List.fst_mem_of_mem_zipIdx hchild) _

theorem postOrder_eq_finishedFrom {outline : N → Outline N}
    (hparts : ∀ node, outline node = .mk node ((children node).map outline))
    (root : N) (path : NodePath) :
    (outline root).postOrder = (finishedFrom root path).map Prod.snd := by
  induction root using induction generalizing path with
  | step root ih =>
      have hbelow : (children root).flatMap (fun child => (outline child).postOrder) =
          (children root).zipIdx.flatMap fun child =>
            (finishedFrom child.1 (path.child child.2)).map Prod.snd := by
        rw [← List.zipIdx_map_fst 0 (children root), List.flatMap_map, List.zipIdx_map_fst]
        apply List.flatMap_congr
        intro child hchild
        exact ih child.1 (List.fst_mem_of_mem_zipIdx hchild) _
      rw [hparts, Outline.postOrder, Outline.postOrderOfParts_eq, List.flatMap_map, hbelow,
        finishedFrom_eq, List.map_append, List.map_flatMap]
      rfl

theorem follows_of_parts {outline : N → Outline N}
    (hparts : ∀ node, outline node = .mk node ((children node).map outline)) (root : N) :
    Follows root (outline root) where
  nodes_eq := by
    rw [Outline.places, placesFrom_eq_locatedFrom hparts, map_snd_locatedFrom]
  visit_eq leave start := by
    rw [postOrder_eq_finishedFrom hparts root .root]
    exact Visitor.run_visit_default leave root start
  postOrder_eq := by
    rw [Visitor.postOrder_eq, postOrder_eq_finishedFrom hparts root .root]
    rfl
  resolve_eq_some_iff path node := by
    rw [Outline.places, placesFrom_eq_locatedFrom hparts]
    exact mem_located_iff.symm
  nodup_places := by
    rw [Outline.places, placesFrom_eq_locatedFrom hparts]
    exact nodup_locatedFrom root .root

end TreeNode

end PlanLowering
