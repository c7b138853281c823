import PlanLowering.Plan.Globals
import PlanLowering.Proofs.Strategy.Lowered
import PlanLowering.Proofs.Tree.Visits
import Mathlib.Data.List.Induction
import Mathlib.Data.List.Nodup

/-!
The tables of a plan and of its statement. A collector that notes a name unless it is there already
ends with the names in the order of their first occurrence, and no step of the lowering drops,
repeats or moves a reference.
-/

namespace PlanLowering

/-- The table that the node itself refers to. -/
def Operator.globalName? : Operator → Option String
  | .global name => some name
  | _ => none

/-- The tables that the nodes of a plan refer to, in pre-order and as often as they do. -/
def Operator.references (plan : Operator) : List String :=
  (TreeNode.nodes plan).filterMap Operator.globalName?

/-- The table that the node itself refers to. -/
def Expr.globalName? : Expr → Option String
  | .global name => some name
  | _ => none

/-- The tables that the nodes of an expression refer to, in pre-order and as often as they do. -/
def Expr.references (root : Expr) : List String :=
  (TreeNode.nodes root).filterMap Expr.globalName?

theorem TreeNode.filterMap_nodes_eq {N α : Type} [SizeOf N] [TreeNode N] (note? : N → Option α)
    (root : N) : (TreeNode.nodes root).filterMap note? = (note? root).toList ++
      (TreeNode.children root).flatMap fun child => (TreeNode.nodes child).filterMap note? := by
  rw [TreeNode.nodes_eq, List.filterMap_cons, List.filterMap_flatMap]
  cases note? root <;> rfl

namespace Operator

/-- Adds a name that is not there yet. -/
def noteName (names : List String) (name : String) : List String :=
  if name ∈ names then names else names ++ [name]

theorem nodup_noteName {names : List String} (h : names.Nodup) (name : String) :
    (noteName names name).Nodup := by
  rw [noteName]
  split
  · exact h
  · next hnew =>
      rw [← List.concat_eq_append]
      exact h.concat hnew

theorem foldl_noteName_eq_eraseDups (row : List String) :
    row.foldl noteName [] = row.eraseDups := by
  induction row using List.reverseRecOn with
  | nil => rfl
  | append_singleton row name ih =>
      rw [List.foldl_append, ih, List.eraseDups_append, List.foldl_cons, List.foldl_nil, noteName]
      by_cases hname : name ∈ row <;> simp [hname, List.removeAll, List.eraseDups_cons]

theorem nodup_foldl_noteName {start : List String} (h : start.Nodup) (row : List String) :
    (row.foldl noteName start).Nodup := by
  induction row generalizing start with
  | nil => exact h
  | cons name row ih => exact ih (nodup_noteName h name)

theorem references_eq (plan : Operator) :
    plan.references = plan.globalName?.toList ++ plan.children.flatMap references :=
  TreeNode.filterMap_nodes_eq globalName? plan

/-- The collector goes through the references of a plan one after the other. -/
theorem globalCollector_stateAfter (plan : Operator) (start : List String) :
    globalCollector.dispatch.stateAfter start plan = plan.references.foldl noteName start := by
  induction plan using TreeNode.induction generalizing start with
  | step plan ih =>
      cases hname : plan.globalName? with
      | some name =>
          obtain rfl : plan = .global name := by
            cases plan <;> cases hname
            rfl
          rw [Visitor.stateAfter, Visitor.visit_eq, references_eq]
          rfl
      | none =>
          -- the callback of any other kind descends
          have henter (descend : StateM (List String) Unit) :
              globalCollector.dispatch.enter plan descend = descend := by
            cases plan <;> first | rfl | cases hname
          have hbelow : ((TreeNode.children plan).forM fun child =>
              discard (globalCollector.dispatch.visit child)).run start =
                (⟨⟩, ((TreeNode.children plan).zipIdx.flatMap fun child =>
                  child.1.references).foldl noteName start) := by
            refine Visitor.run_children id _ (fun index child hchild start => ?_) start
            exact ih child (List.mem_of_getElem? hchild) start
          rw [Visitor.stateAfter, Visitor.visit_eq, henter, StateT.run_bind, hbelow,
            references_eq, hname, ← List.flatMap_map, List.zipIdx_map_fst]
          rfl

theorem globals_eq_foldl (plan : Operator) : plan.globals = plan.references.foldl noteName [] :=
  globalCollector_stateAfter plan []

end Operator

namespace Expr

theorem references_eq (root : Expr) :
    root.references = root.globalName?.toList ++ root.children.flatMap references :=
  TreeNode.filterMap_nodes_eq globalName? root

/-- A wrapper refers to nothing itself. -/
theorem references_handled (mode : Mode) (e : Expr) :
    (e.handled mode).references = e.references := by
  have hwrapped : (permissive e).references = e.references := by
    rw [references_eq]
    exact List.append_nil e.references
  cases mode with
  | strict => rfl
  | permissive =>
      cases e with
      | permissive value => rfl
      | _ => exact hwrapped

theorem flatMap_references_handled (mode : Mode) (values : List Expr) :
    (values.map (handled mode)).flatMap references = values.flatMap references := by
  rw [List.flatMap_map]
  exact congrArg (List.flatMap · values) (funext (references_handled mode))

end Expr

namespace Standard

/-- The plain lowering of a node keeps the reference of the node and those of its inputs. -/
theorem references_plain (mode : Mode) {node : Operator} {inputs : List Expr}
    (hfits : Fits node inputs) : (plain mode node inputs).references =
      node.globalName?.toList ++ inputs.flatMap Expr.references := by
  rw [Expr.references_eq]
  cases hfits with
  | project input projections e others =>
      rw [plain, Expr.children, List.flatMap_cons, Expr.flatMap_references_handled]
      rfl
  | sort input specs e keys horders =>
      rw [plain_sort mode input e horders]
      rfl
  | collection kind values =>
      rw [plain, Expr.children, Expr.flatMap_references_handled]
      rfl
  | case branches default pairs e =>
      rw [plain_case]
      rfl
  | struct fields pairs =>
      have hpairs : (inPairs (pairs.map fun field => (field.1, field.2.handled mode))).flatMap
          Expr.references = (inPairs pairs).flatMap Expr.references := by
        rw [inPairs, inPairs, List.flatMap_assoc, List.flatMap_assoc, List.flatMap_map]
        simp [Expr.references_handled]
      rw [plain_struct, Expr.children, hpairs]
      rfl
  | var depth offset =>
      rw [plain]
      split <;> rfl
  | select rel constructor e e' =>
      rw [plain, Expr.children, List.flatMap_cons, List.flatMap_singleton,
        Expr.references_handled, ← List.flatMap_singleton Expr.references e', ← List.flatMap_cons]
      rfl
  | _ => rfl

/-- What a plan is lowered to has its references, in their order. -/
theorem references_lowered (fuse : Bool) (mode : Mode) {plan : Operator}
    (hplan : TreeNode.Sound plan) : (lowered fuse mode plan).references = plan.references := by
  induction hplan with
  | @intro node hnode _ ih =>
      have hinputs : (node.children.map (lowered fuse mode)).flatMap Expr.references =
          node.children.flatMap Operator.references := by
        rw [List.flatMap_map, List.flatMap_def, List.flatMap_def]
        exact congrArg List.flatten (List.map_congr_left ih)
      rw [lowered_eq, Operator.references_eq, ← hinputs]
      rcases combine_cases fuse mode node (node.children.map (lowered fuse mode)) with
        hplain | ⟨input, specs, n, source, keys, others, rfl, hchildren, hfused⟩
      · rw [hplain]
        exact references_plain mode (fits_lowered hnode fuse mode)
      · -- the fused limit has the children of the sort, and the bound left out is a literal
        have hothers : [Expr.literal (.int n)] = others := by
          have htail := congrArg List.tail hchildren
          rwa [Operator.children, List.map_cons, List.map_singleton, List.tail_cons, List.tail_cons,
            lowered_lit] at htail
        have hbound : [Expr.literal (.int n)].flatMap Expr.references = [] := by
          rw [List.flatMap_singleton, Expr.references_eq]
          rfl
        have hsort : (Expr.topN source keys n.toUInt64).references =
            (Expr.sort source keys).references := by
          rw [Expr.references_eq, Expr.references_eq]
          rfl
        rw [hfused, hchildren, ← hothers, List.flatMap_cons, hbound, List.append_nil, hsort]
        rfl

end Standard

/-- The tables of a plan are its references without later repetitions, and the statement that a
valid plan is lowered to, in either mode, refers to the same tables in the same order. -/
theorem globals_agree_on_both_levels :
    ∀ plan : Operator,
      plan.globals.Nodup ∧
      plan.globals = plan.references.eraseDups ∧
      ∀ (options : CompilerOptions) (mode : Mode),
        (Compiler.standard.withOptions options).validator.validate plan = .ok () →
        ∃ statement, (Compiler.standard.withOptions options).prepare plan mode = .ok statement ∧
          statement.root.references.eraseDups = plan.globals := by
  intro plan
  have hglobals : plan.globals = plan.references.eraseDups := by
    rw [Operator.globals_eq_foldl, Operator.foldl_noteName_eq_eraseDups]
  refine ⟨?_, hglobals, ?_⟩
  · rw [Operator.globals_eq_foldl]
    exact Operator.nodup_foldl_noteName List.nodup_nil plan.references
  · intro options mode hvalid
    have hsound := PlanValidator.sound_of_validate hvalid
    refine ⟨⟨Standard.lowered true mode plan, mode⟩, ?_, ?_⟩
    · rw [Standard.prepare_standard, hvalid]
      rfl
    · rw [hglobals, Standard.references_lowered true mode hsound]

/-- A table read twice, once below a fused limit, and another one in between. -/
theorem globals_agree_on_both_levels_joined :
    (Operator.join Standard.firstRows (.scan (.global "u")) (.global "t") .inner).globals =
      ["t", "u"] ∧
    ∃ statement, (Compiler.standard.withOptions {}).prepare
        (.join Standard.firstRows (.scan (.global "u")) (.global "t") .inner) .permissive =
          .ok statement ∧
      statement.root.references.eraseDups = ["t", "u"] := by
  have hglobals : (Operator.join Standard.firstRows (.scan (.global "u")) (.global "t")
      .inner).globals = ["t", "u"] := by
    with_unfolding_all rfl
  refine ⟨hglobals, ?_⟩
  rw [← hglobals]
  apply (globals_agree_on_both_levels _).2.2
  with_unfolding_all rfl

end PlanLowering
