import PlanLowering.Proofs.Tree.Statistics
import PlanLowering.Proofs.Tree.Subterms
import PlanLowering.Tree.KindVisitor
import Mathlib.Algebra.BigOperators.Group.Finset.Piecewise

/-!
Visitors that override the callbacks of some kinds. A callback that does not descend hides what lies
below its node, so a visit answers only events at exposed positions; if the callbacks descend, all
nodes are come to and left. An invariant of the tree carries the first case: the children of a node
are exposed if the node is and has a kind whose callback is not overridden.
-/

namespace PlanLowering

namespace TreeNode

variable {N : Type} [SizeOf N] [TreeNode N]

/-- The nodes on the way from the root to a position, without the one at the position. -/
def ancestors (root : N) (path : NodePath) : List N :=
  (List.range path.depth).filterMap fun depth => resolve root ⟨path.indices.take depth⟩

/-- A position is exposed if no node above it is of these kinds. -/
def Exposed (kinds : Finset (Kind N)) (root : N) (path : NodePath) : Prop :=
  ∀ ancestor ∈ ancestors root path, kind ancestor ∉ kinds

instance (kinds : Finset (Kind N)) (root : N) : DecidablePred (Exposed kinds root) :=
  fun path => inferInstanceAs (Decidable (∀ ancestor ∈ ancestors root path, kind ancestor ∉ kinds))

theorem ancestors_child {root node : N} {path : NodePath} (h : resolve root path = some node)
    (index : Nat) : ancestors root (path.child index) = ancestors root path ++ [node] := by
  have habove : ∀ depth ∈ List.range path.depth,
      resolve root ⟨(path.child index).indices.take depth⟩ =
        resolve root ⟨path.indices.take depth⟩ := by
    intro depth hdepth
    rw [NodePath.child, List.take_append_of_le_length (List.mem_range.mp hdepth).le]
  have hself : resolve root ⟨(path.child index).indices.take path.depth⟩ = some node := by
    rw [NodePath.child, NodePath.depth, List.take_left]
    exact h
  rw [ancestors, NodePath.depth_child, List.range_succ, List.filterMap_append,
    List.filterMap_congr habove, List.filterMap_cons, hself]
  rfl

/-- The children of a node are exposed if the node is and is of another kind. -/
theorem exposed_child_iff {kinds : Finset (Kind N)} {root node : N} {path : NodePath}
    (h : resolve root path = some node) (index : Nat) :
    Exposed kinds root (path.child index) ↔ Exposed kinds root path ∧ kind node ∉ kinds := by
  rw [Exposed, ancestors_child h, List.forall_mem_append, List.forall_mem_singleton]
  rfl

end TreeNode

namespace KindVisitor

open TreeNode

/-- What a view shows of the events that are answered is what is kept of all that it shows. -/
theorem filterMap_filter_events {N : Type} {view : Event N → Option (NodePath × N)}
    {answers : Event N → Bool} {keeps : NodePath × N → Bool}
    (h : ∀ event place, view event = some place → answers event = keeps place)
    (row : List (Event N)) :
    (row.filter answers).filterMap view = (row.filterMap view).filter keeps := by
  rw [List.filterMap_filter, List.filter_filterMap]
  apply List.filterMap_congr
  intro event _
  cases hview : view event with
  | none => simp
  | some place => rw [h event place hview, Option.filter_some]

variable {N : Type} [SizeOf N] [TreeNode N] {σ ρ : Type}

/-- What the callbacks of a visitor do, kind by kind. -/
abbrev Acts (N σ ρ : Type) [SizeOf N] [TreeNode N] : Type :=
  (kind : Kind N) → NodeOf N kind → StateM σ ρ

/-- Overrides the callbacks of these kinds by ones that act and do not descend. -/
def pruning (kinds : Finset (Kind N)) (act : Acts N σ ρ) (leave : N → StateM σ ρ) :
    KindVisitor N σ ρ where
  callback kind node descend := if kind ∈ kinds then act kind node else descend
  leave := leave

/-- Overrides the callbacks of these kinds by ones that act and then descend. -/
def descending (kinds : Finset (Kind N)) (act : Acts N σ Unit) (leave : N → StateM σ ρ) :
    KindVisitor N σ ρ where
  callback kind node descend := if kind ∈ kinds then (do act kind node; descend) else descend
  leave := leave

/-- The state after a call: an entry stands for the callback of the node's own kind, an exit for
leaving the node. -/
def call {τ : Type} (act : Acts N σ τ) (leave : N → StateM σ ρ) : σ → Event N → σ :=
  Event.perform (fun node => act (kind node) (.of node)) leave

/-- The events that a visit answers if the callbacks of these kinds do not descend: at exposed
positions, the entry of a node of these kinds and the exit of any other. -/
def answersPruning (kinds : Finset (Kind N)) (root : N) : Event N → Bool
  | .entry path node => kind node ∈ kinds ∧ Exposed kinds root path
  | .exit path node => kind node ∉ kinds ∧ Exposed kinds root path

/-- The events that a visit answers if the callbacks of these kinds descend: the entries of the nodes
of these kinds, and all exits. -/
def answersDescending (kinds : Finset (Kind N)) : Event N → Bool
  | .entry _ node => kind node ∈ kinds
  | .exit _ _ => true

/-- How a tree with this outline is visited if the callbacks of some kinds, and no others, are
overridden. -/
structure Dispatches (root : N) (outline : Outline N) : Prop where
  /-- If these callbacks do not descend, a visit makes the calls for some of the events in order: -/
  pruning_stateAfter : ∀ {σ ρ : Type} (kinds : Finset (Kind N)) (act : Acts N σ ρ)
    (leave : N → StateM σ ρ) (start : σ),
    (pruning kinds act leave).stateAfter start root =
      ((events root).filter (answersPruning kinds root)).foldl (call act leave) start
  /-- the callbacks go, in pre-order, to the nodes of these kinds that have none above them, -/
  pruning_entered : ∀ kinds : Finset (Kind N),
    ((events root).filter (answersPruning kinds root)).filterMap Event.entered? =
      (located root).filter fun place => kind place.2 ∈ kinds ∧ Exposed kinds root place.1
  /-- and the nodes of other kinds that have none above them are left, in post-order. -/
  pruning_left : ∀ kinds : Finset (Kind N),
    ((events root).filter (answersPruning kinds root)).filterMap Event.left? =
      (finished root).filter fun place => kind place.2 ∉ kinds ∧ Exposed kinds root place.1
  /-- If these callbacks end by descending, a visit makes other calls: -/
  descending_stateAfter : ∀ {σ ρ : Type} (kinds : Finset (Kind N)) (act : Acts N σ Unit)
    (leave : N → StateM σ ρ) (start : σ),
    (descending kinds act leave).stateAfter start root =
      ((events root).filter (answersDescending kinds)).foldl (call act leave) start
  /-- the callbacks go to every node of these kinds, -/
  descending_entered : ∀ kinds : Finset (Kind N),
    ((events root).filter (answersDescending kinds)).filterMap Event.entered? =
      (located root).filter fun place => kind place.2 ∈ kinds
  /-- as often as the statistics count nodes of these kinds, -/
  length_descending_entered : ∀ kinds : Finset (Kind N),
    (((events root).filter (answersDescending kinds)).filterMap Event.entered?).length =
      ∑ kind ∈ kinds, (PlanStats.collect root).countOf (Named.name kind)
  /-- and every node is left. -/
  descending_left : ∀ kinds : Finset (Kind N),
    ((events root).filter (answersDescending kinds)).filterMap Event.left? = finished root
  /-- The nodes listed are the terms in the outline of the tree, each at its position, -/
  located_eq : located root = outline.places
  map_snd_finished : (finished root).map Prod.snd = outline.postOrder
  /-- and this is where its path leads. -/
  mem_located : ∀ path node, (path, node) ∈ located root ↔ resolve root path = some node
  /-- Both orders list them, each once. -/
  nodup_located : ((located root).map Prod.fst).Nodup
  finished_perm : (finished root).Perm (located root)
  /-- In pre-order a node comes before all that lies below it or to its right, -/
  located_order : ((located root).map Prod.fst).Pairwise fun place place' =>
    place.Above place' ∨ place.LeftOf place'
  /-- in post-order it comes after all below it, and still before all to its right. -/
  finished_order : ((finished root).map Prod.fst).Pairwise fun place place' =>
    place'.Above place ∨ place.LeftOf place'
  /-- If no callback is overridden, the visit is the default one. -/
  visit_of_empty : ∀ {σ ρ : Type} (act : Acts N σ ρ) (leave : N → StateM σ ρ),
    (pruning ∅ act leave).visit root = ({ leave } : Visitor N σ ρ).visit root

/-- Below a node of these kinds nothing is answered. -/
theorem answersPruning_of_hidden {kinds : Finset (Kind N)} {root node : N} {path : NodePath}
    (hnode : resolve root path = some node) (hhidden : ¬ Exposed kinds root path) :
    (eventsFrom node path).filter (answersPruning kinds root) = [] := by
  induction node using induction generalizing path with
  | step node ih =>
      have hbelow : ∀ child ∈ (children node).zipIdx,
          (eventsFrom child.1 (path.child child.2)).filter (answersPruning kinds root) = [] := by
        rintro ⟨child, index⟩ hchild
        have hget := List.mem_zipIdx_iff_getElem?.mp hchild
        refine ih child (List.mem_of_getElem? hget) ((resolve_child hnode index).trans hget) ?_
        rw [exposed_child_iff hnode]
        exact fun h => hhidden h.1
      rw [eventsFrom_eq, List.filter_cons, List.filter_append, List.filter_flatMap,
        List.flatMap_eq_nil_iff.mpr hbelow]
      simp [answersPruning, hhidden]

theorem enter_pruning_of_mem {kinds : Finset (Kind N)} (act : Acts N σ ρ) (leave : N → StateM σ ρ)
    {node : N} (hkind : kind node ∈ kinds) (descend : StateM σ ρ) :
    (pruning kinds act leave).dispatch.enter node descend = act (kind node) (.of node) :=
  if_pos hkind

theorem enter_pruning_of_notMem {kinds : Finset (Kind N)} (act : Acts N σ ρ)
    (leave : N → StateM σ ρ) {node : N} (hkind : kind node ∉ kinds) (descend : StateM σ ρ) :
    (pruning kinds act leave).dispatch.enter node descend = descend :=
  if_neg hkind

theorem pruning_stateAfter {kinds : Finset (Kind N)} (act : Acts N σ ρ) (leave : N → StateM σ ρ)
    {root node : N} {path : NodePath} (hnode : resolve root path = some node)
    (hexposed : Exposed kinds root path) (start : σ) :
    (pruning kinds act leave).dispatch.stateAfter start node =
      ((eventsFrom node path).filter (answersPruning kinds root)).foldl (call act leave) start := by
  induction node using induction generalizing path start with
  | step node ih =>
      have hchild (index : Nat) (child : N) (hget : (children node)[index]? = some child) :
          resolve root (path.child index) = some child := (resolve_child hnode index).trans hget
      rw [Visitor.stateAfter, Visitor.visit_eq, eventsFrom_eq, List.filter_cons,
        List.filter_append, List.filter_flatMap, List.filter_singleton]
      by_cases hkind : kind node ∈ kinds
      · -- the callback is all there is: what lies below has this node above it
        have hbelow : ∀ child ∈ (children node).zipIdx,
            (eventsFrom child.1 (path.child child.2)).filter (answersPruning kinds root) = [] := by
          rintro ⟨child, index⟩ hmem
          refine answersPruning_of_hidden (hchild _ _ (List.mem_zipIdx_iff_getElem?.mp hmem)) ?_
          rw [exposed_child_iff hnode]
          exact fun h => h.2 hkind
        have hentry : answersPruning kinds root (.entry path node) = true :=
          decide_eq_true ⟨hkind, hexposed⟩
        have hexit : answersPruning kinds root (.exit path node) = false :=
          decide_eq_false fun h => h.1 hkind
        rw [enter_pruning_of_mem act leave hkind, List.flatMap_eq_nil_iff.mpr hbelow, hentry, hexit]
        rfl
      · have hbelow (start : σ) :
            ((children node).forM fun child =>
                discard ((pruning kinds act leave).dispatch.visit child)).run start =
              (⟨⟩, ((children node).zipIdx.flatMap fun child =>
                (eventsFrom child.1 (path.child child.2)).filter
                  (answersPruning kinds root)).foldl (call act leave) start) := by
          refine Visitor.run_children id _ (fun index child hget start => ?_) start
          exact ih child (List.mem_of_getElem? hget) (hchild index child hget)
            ((exposed_child_iff hnode index).mpr ⟨hexposed, hkind⟩) start
        have hentry : answersPruning kinds root (.entry path node) = false :=
          decide_eq_false fun h => hkind h.1
        have hexit : answersPruning kinds root (.exit path node) = true :=
          decide_eq_true ⟨hkind, hexposed⟩
        rw [enter_pruning_of_notMem act leave hkind, StateT.run_bind, hbelow, hentry, hexit]
        simp only [Bool.false_eq_true, if_false, List.foldl_append]
        rfl

theorem descending_stateAfter (kinds : Finset (Kind N)) (act : Acts N σ Unit)
    (leave : N → StateM σ ρ) (root : N) (path : NodePath) (start : σ) :
    (descending kinds act leave).dispatch.stateAfter start root =
      ((eventsFrom root path).filter (answersDescending kinds)).foldl (call act leave) start := by
  -- the callback of a kind that is not overridden does nothing before it descends
  have hdescends (node : N) (descend : StateM σ ρ) :
      (descending kinds act leave).dispatch.enter node descend = (do
        discard (if kind node ∈ kinds then act (kind node) (.of node) else pure ())
        descend) := by
    by_cases hkind : kind node ∈ kinds
    · rw [if_pos hkind]
      exact if_pos hkind
    · rw [if_neg hkind]
      exact if_neg hkind
  obtain ⟨before, hevents, hrun⟩ := Visitor.run_visit_of_descends hdescends root path start
  have hall : (descending kinds act leave).dispatch.stateAfter start root =
      (eventsFrom root path).foldl (Event.perform (fun node =>
        if kind node ∈ kinds then act (kind node) (.of node) else pure ()) leave) start := by
    rw [Visitor.stateAfter, hrun, hevents, List.foldl_append]
    rfl
  rw [hall, List.foldl_filter]
  congr 1
  funext state event
  cases event with
  | entry path node =>
      by_cases hkind : kind node ∈ kinds
      · have hanswer : answersDescending kinds (.entry path node) = true := decide_eq_true hkind
        rw [if_pos hanswer, Event.perform, if_pos hkind]
        rfl
      · have hanswer : ¬ answersDescending kinds (.entry path node) = true :=
          fun h => hkind (of_decide_eq_true h)
        rw [if_neg hanswer, Event.perform, if_neg hkind]
        rfl
  | exit path node => rfl

/-- The nodes of some kinds are as many as the statistics count for these kinds together. -/
theorem countP_kind_eq_sum (kinds : Finset (Kind N)) (root : N) :
    ((located root).countP fun place => kind place.2 ∈ kinds) =
      ∑ kind ∈ kinds, (PlanStats.collect root).countOf (Named.name kind) := by
  simp only [PlanStats.countOf_collect]
  induction located root with
  | nil => simp
  | cons place others ih =>
      have hname (other : Kind N) : kindName place.2 = Named.name other ↔ kind place.2 = other :=
        ⟨fun h => Named.name_injective h, fun h => congrArg Named.name h⟩
      simp only [List.countP_cons, ih, Finset.sum_add_distrib, hname, decide_eq_true_eq,
        Finset.sum_ite_eq]

theorem descending_entered (kinds : Finset (Kind N)) (root : N) :
    ((events root).filter (answersDescending kinds)).filterMap Event.entered? =
      (located root).filter fun place => kind place.2 ∈ kinds := by
  rw [← filterMap_entered?_events]
  apply filterMap_filter_events
  rintro (_ | _) place ⟨rfl⟩
  rfl

theorem descending_left (kinds : Finset (Kind N)) (root : N) :
    ((events root).filter (answersDescending kinds)).filterMap Event.left? = finished root := by
  have hall : ∀ event place, Event.left? event = some place →
      answersDescending kinds event = true := by
    rintro (_ | _) place ⟨rfl⟩
    rfl
  rw [filterMap_filter_events hall, List.filter_true]
  rfl

theorem pruning_empty_dispatch (act : Acts N σ ρ) (leave : N → StateM σ ρ) :
    (pruning ∅ act leave).dispatch = { leave } := by
  rw [dispatch]
  congr 1

theorem dispatches {outline : N → Outline N}
    (hparts : ∀ node, outline node = .mk node ((children node).map outline)) (root : N) :
    Dispatches root (outline root) where
  pruning_stateAfter kinds act leave start :=
    pruning_stateAfter act leave rfl (fun ancestor h => absurd h List.not_mem_nil) start
  pruning_entered kinds := by
    rw [← filterMap_entered?_events]
    apply filterMap_filter_events
    rintro (_ | _) place ⟨rfl⟩
    rfl
  pruning_left kinds := by
    apply filterMap_filter_events
    rintro (_ | _) place ⟨rfl⟩
    rfl
  descending_stateAfter kinds act leave start :=
    descending_stateAfter kinds act leave root .root start
  descending_entered kinds := descending_entered kinds root
  length_descending_entered kinds := by
    rw [descending_entered, ← List.countP_eq_length_filter, countP_kind_eq_sum]
  descending_left kinds := descending_left kinds root
  located_eq := (placesFrom_eq_locatedFrom hparts root .root).symm
  map_snd_finished := (postOrder_eq_finishedFrom hparts root .root).symm
  mem_located path node := mem_located_iff
  nodup_located := nodup_locatedFrom root .root
  finished_perm := finishedFrom_perm root .root
  located_order := pairwise_locatedFrom root .root
  finished_order := pairwise_finishedFrom root .root
  visit_of_empty act leave := by
    rw [visit, pruning_empty_dispatch]

end KindVisitor

/-- In every plan and every query, overridden callbacks are called on exactly the nodes of their
kinds, in pre-order: on those that no other of them hides if they do not descend, and on all of them
if they do. The other nodes that are come to are left in post-order. -/
theorem kind_visitors_dispatch :
    (∀ plan : Operator, KindVisitor.Dispatches plan plan.outline) ∧
      ∀ query : QueryNode, KindVisitor.Dispatches query query.outline :=
  ⟨KindVisitor.dispatches Operator.outline_eq, KindVisitor.dispatches QueryNode.outline_eq⟩

section NestedFilters

open KindVisitor Operator

/-- What was called: a callback with its kind, or the leaving of a node without one. -/
abbrev CallRecord := List (Option OperatorKind × Operator)

def recordCallback : Acts Operator CallRecord Unit :=
  fun kind node => modify (· ++ [(some kind, node.val)])

def recordLeaving (node : Operator) : StateM CallRecord Unit :=
  modify (· ++ [(none, node)])

/-- The rows of a table that pass a condition. -/
def passing : Operator :=
  .filter (.scan (.global "t")) (.lit (.bool true))

/-- A filter over another, and below both a scan. -/
def nestedFilters : Operator :=
  .distinct (.filter passing (.lit (.bool false)))

/-- If the callbacks of filters and scans do not descend, only the upper filter is called; if they do,
both filters and the scan are, and all seven nodes are left. -/
theorem kind_visitors_dispatch_nestedFilters :
    (pruning {.filter, .scan} recordCallback recordLeaving).stateAfter [] nestedFilters =
        [(some .filter, .filter passing (.lit (.bool false))), (none, nestedFilters)] ∧
      (descending {.filter, .scan} recordCallback recordLeaving).stateAfter [] nestedFilters =
        [(some .filter, .filter passing (.lit (.bool false))), (some .filter, passing),
          (some .scan, .scan (.global "t")), (none, .global "t"), (none, .scan (.global "t")),
          (none, .lit (.bool true)), (none, passing), (none, .lit (.bool false)),
          (none, .filter passing (.lit (.bool false))), (none, nestedFilters)] := by
  have hplan := kind_visitors_dispatch.1 nestedFilters
  constructor
  · rw [hplan.pruning_stateAfter]
    with_unfolding_all rfl
  · rw [hplan.descending_stateAfter]
    with_unfolding_all rfl

end NestedFilters

end PlanLowering
