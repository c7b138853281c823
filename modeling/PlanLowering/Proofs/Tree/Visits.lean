import PlanLowering.Proofs.Tree.Orders
import PlanLowering.Tree.Visitor

/-!
Visits, event by event. The state after a visit is that of the events that the visitor answers, one
after the other; a visitor that always descends answers all of them.
-/

namespace PlanLowering

namespace TreeNode.Event

variable {N σ ρ τ : Type}

/-- The state after an event, for nodes met by `arrive` on the way in and by `leave` on the way
out. -/
def perform (arrive : N → StateM σ τ) (leave : N → StateM σ ρ) (state : σ) : Event N → σ
  | entry _ node => ((arrive node).run state).2
  | exit _ node => ((leave node).run state).2

/-- A visitor that does nothing on the way in runs through the nodes that it leaves. -/
theorem foldl_perform_pure (leave : N → StateM σ ρ) (row : List (Event N)) (start : σ) :
    row.foldl (perform (fun _ => (pure () : StateM σ Unit)) leave) start =
      ((row.filterMap left?).map Prod.snd).foldl
        (fun state node => ((leave node).run state).2) start := by
  induction row generalizing start with
  | nil => rfl
  | cons event others ih =>
      cases event with
      | entry path node => exact ih start
      | exit path node => exact ih ((leave node).run start).2

/-- A visitor that does nothing on the way out runs through the nodes that it comes to. -/
theorem foldl_perform_silent (arrive : N → StateM σ τ) (row : List (Event N)) (start : σ) :
    row.foldl (perform arrive (fun _ => (pure () : StateM σ Unit))) start =
      ((row.filterMap entered?).map Prod.snd).foldl
        (fun state node => ((arrive node).run state).2) start := by
  induction row generalizing start with
  | nil => rfl
  | cons event others ih =>
      cases event with
      | entry path node => exact ih ((arrive node).run start).2
      | exit path node => exact ih start

end TreeNode.Event

namespace Visitor

open TreeNode

/-- The results of the nodes are dropped, their effects are not. -/
theorem run_forM_discard {N σ ρ : Type} (act : N → StateM σ ρ) (nodes : List N) (start : σ) :
    (nodes.forM fun node => discard (act node)).run start =
      (⟨⟩, nodes.foldl (fun state node => ((act node).run state).2) start) := by
  induction nodes generalizing start with
  | nil => rfl
  | cons node others ih => exact ih ((act node).run start).2

theorem foldl_recorder {N : Type} (row before : List N) :
    row.foldl (fun state node => ((recorder.leave node).run state).2) before = before ++ row := by
  induction row generalizing before with
  | nil => exact (List.append_nil before).symm
  | cons node others ih => exact (ih (before ++ [node])).trans (List.append_assoc ..)

variable {N : Type} [SizeOf N] [TreeNode N] {σ ρ τ : Type}

theorem visit_eq (visitor : Visitor N σ ρ) (root : N) :
    visitor.visit root = visitor.enter root (do
      (children root).forM fun child => discard (visitor.visit child)
      visitor.leave root) := by
  rw [visit, fold_eq, List.forM_eq_forM, List.forM_map]
  rfl

/-- Children whose visits each go through a row of items, seen in some part of the state, go
through the rows one after the other. -/
theorem run_children {α : Type} {visitor : Visitor N σ ρ} {root : N} {answer : τ → α → τ}
    (state : τ → σ) (rows : N × Nat → List α)
    (hchildren : ∀ index child, (children root)[index]? = some child → ∀ start,
      visitor.stateAfter (state start) child = state ((rows (child, index)).foldl answer start))
    (start : τ) :
    ((children root).forM fun child => discard (visitor.visit child)).run (state start) =
      (⟨⟩, state (((children root).zipIdx.flatMap rows).foldl answer start)) := by
  have hrow : ∀ part : List (N × Nat), (∀ child ∈ part, child ∈ (children root).zipIdx) →
      ∀ start, part.foldl (fun reached child => visitor.stateAfter reached child.1) (state start) =
        state ((part.flatMap rows).foldl answer start) := by
    intro part hpart
    induction part with
    | nil => exact fun start => rfl
    | cons child others ih =>
        intro start
        have hchild := List.mem_zipIdx_iff_getElem?.mp (hpart child List.mem_cons_self)
        rw [List.foldl_cons, hchildren child.2 child.1 hchild, List.flatMap_cons,
          List.foldl_append]
        exact ih (fun other hother => hpart other (List.mem_cons_of_mem child hother)) _
  rw [run_forM_discard, ← hrow _ (fun child hchild => hchild), ← List.foldl_map (f := Prod.fst),
    List.zipIdx_map_fst]
  rfl

/-- A visitor that acts and then descends, whatever the node, comes to every node and leaves every
node; the result is that of leaving the root. -/
theorem run_visit_of_descends {visitor : Visitor N σ ρ} {arrive : N → StateM σ τ}
    (hdescends : ∀ node descend, visitor.enter node descend = (do discard (arrive node); descend))
    (root : N) (path : NodePath) (start : σ) :
    ∃ before, eventsFrom root path = before ++ [.exit path root] ∧
      (visitor.visit root).run start =
        (visitor.leave root).run (before.foldl (Event.perform arrive visitor.leave) start) := by
  induction root using induction generalizing path start with
  | step root ih =>
      have hbelow (start : σ) :
          ((children root).forM fun child => discard (visitor.visit child)).run start =
            (⟨⟩, ((children root).zipIdx.flatMap fun child =>
              eventsFrom child.1 (path.child child.2)).foldl
                (Event.perform arrive visitor.leave) start) := by
        refine run_children id _ (fun index child hchild start => ?_) start
        obtain ⟨before, hevents, hrun⟩ :=
          ih child (List.mem_of_getElem? hchild) (path.child index) start
        rw [stateAfter, id_eq, id_eq, hrun, hevents, List.foldl_append]
        rfl
      refine ⟨.entry path root :: (children root).zipIdx.flatMap fun child =>
        eventsFrom child.1 (path.child child.2), ?_, ?_⟩
      · rw [eventsFrom_eq, List.cons_append]
      · rw [visit_eq, hdescends, StateT.run_bind, List.foldl_cons]
        change StateT.run (do
          (children root).forM fun child => discard (visitor.visit child)
          visitor.leave root) ((arrive root).run start).2 = _
        rw [StateT.run_bind, hbelow]
        rfl

/-- A visitor that keeps to the default leaves the nodes in post-order, each in the state in which
it has left the one before; the result is that of leaving the root. -/
theorem run_visit_default (leave : N → StateM σ ρ) (root : N) (start : σ) :
    ∃ before, (finished root).map Prod.snd = before ++ [root] ∧
      (({ leave } : Visitor N σ ρ).visit root).run start =
        (leave root).run (before.foldl (fun state node => ((leave node).run state).2) start) := by
  have hdescends (node : N) (descend : StateM σ ρ) :
      ({ leave } : Visitor N σ ρ).enter node descend =
        (do discard (pure () : StateM σ Unit); descend) := rfl
  obtain ⟨before, hevents, hrun⟩ := run_visit_of_descends hdescends root .root start
  refine ⟨(before.filterMap Event.left?).map Prod.snd, ?_, ?_⟩
  · rw [finished, finishedFrom, hevents, List.filterMap_append, List.map_append]
    rfl
  · rw [hrun, Event.foldl_perform_pure]

/-- The nodes are recorded in the order in which a traversal leaves them. -/
theorem postOrder_eq (root : N) : postOrder root = (finished root).map Prod.snd := by
  obtain ⟨before, hfinished, hrun⟩ := run_visit_default recorder.leave root []
  have hrecorded : ((recorder.visit root).run []).2 = before ++ [root] := by
    rw [foldl_recorder] at hrun
    exact congrArg Prod.snd hrun
  rw [hfinished]
  exact hrecorded

end Visitor

end PlanLowering
