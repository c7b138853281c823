import PlanLowering.Proofs.Compiler.Events
import PlanLowering.Proofs.Compiler.Refusal
import PlanLowering.Proofs.Strategy.Reporting
import PlanLowering.Proofs.Tree.Orders

/-!
Where a failure is. Every failure of a compilation names a node of the tree by its position and its
kind, and its message shows both. The validation reports the node it stopped at, and so does the
lowering: what fails in a run is one event, and the events before it have passed. Only strategies
that make up failures of their own could do otherwise.
-/

namespace PlanLowering

open TreeNode (Event)

/-- A text has a part somewhere in it. -/
def Shows (text part : String) : Prop :=
  part.toList <:+: text.toList

namespace Shows

theorem refl (text : String) : Shows text text :=
  List.infix_refl _

variable {text part : String} (h : Shows text part) (other : String)

include h

theorem before : Shows (text ++ other) part := by
  rw [Shows, String.toList_append]
  exact h.trans (List.prefix_append _ _).isInfix

theorem after : Shows (other ++ text) part := by
  rw [Shows, String.toList_append]
  exact h.trans (List.suffix_append _ _).isInfix

end Shows

namespace CompileError

theorem message_shows_kind (failure : CompileError) : Shows failure.message failure.kind := by
  cases failure with
  | unsupported kind => exact ((((Shows.refl kind).after _).before _).before _).before _
  | malformed kind =>
      exact (((((Shows.refl kind).after _).before _).before _).before _).before _
  | conversion _ kind =>
      exact ((((((Shows.refl kind).after _).before _).before _).before _).before _)
  | tooDeep kind => exact ((((Shows.refl kind).after _).before _).before _).before _

theorem message_shows_path (failure : CompileError) :
    Shows failure.message failure.path.display := by
  cases failure with
  | unsupported _ path => exact ((Shows.refl path.display).after _).before _
  | malformed _ path => exact (((Shows.refl path.display).after _).before _).before _
  | conversion _ _ path => exact (((Shows.refl path.display).after _).before _).before _
  | tooDeep _ path => exact ((Shows.refl path.display).after _).before _

end CompileError

variable {N E : Type} [SizeOf N] [TreeNode N]

namespace Compiler

variable {compiler : Compiler N E} {mode : Mode}

/-- A run that fails has passed all events before the one that fails. -/
theorem Runs.exists_failed {values : ExitValues E} {events : List (Event N)}
    {failure : CompileError} (h : compiler.Runs mode values events (.error failure)) :
    ∃ before event after reached, events = before ++ event :: after ∧
      (∀ earlier ∈ before, ∃ values values', compiler.Performs mode values earlier (.ok values')) ∧
      compiler.Performs mode reached event (.error failure) := by
  generalize hresult : Except.error failure = result at h
  induction h with
  | finished => cases hresult
  | @failed values event events failure hevent =>
      obtain rfl := Except.error.inj hresult
      exact ⟨[], event, events, values, rfl, nofun, hevent⟩
  | @next values values' event events result hevent _ ih =>
      obtain ⟨before, last, after, reached, rfl, hbefore, hlast⟩ := ih hresult
      refine ⟨event :: before, last, after, reached, rfl, ?_, hlast⟩
      rw [List.forall_mem_cons]
      exact ⟨⟨values, values', hevent⟩, hbefore⟩

/-- What a failure says of the node at a position, given the nodes before it in pre-order. A
conversion that failed is that of the first strategy that wants the node; and a node that no
strategy wants is the first one. -/
inductive Blames (compiler : Compiler N E) (before : List (NodePath × N)) (path : NodePath)
    (node : N) : CompileError → Prop where
  | tooDeep {depth limit : Nat} :
      compiler.Blames before path node (.tooDeep (TreeNode.kindName node) path depth limit)
  | malformed {reason : String} :
      compiler.Blames before path node (.malformed (TreeNode.kindName node) path reason)
  | conversion {strategy : Strategy N E} {reason : String}
      (hfirst : compiler.strategies.find? (fun strategy => strategy.accepts node) =
        some strategy) :
      compiler.Blames before path node
        (.conversion strategy.name (TreeNode.kindName node) path reason)
  | unsupported
      (hnone : ∀ strategy ∈ compiler.strategies, strategy.accepts node = false)
      (hbefore : ∀ earlier ∈ before,
        ∃ strategy ∈ compiler.strategies, strategy.accepts earlier.2 = true) :
      compiler.Blames before path node (.unsupported (TreeNode.kindName node) path)

theorem Blames.path_eq {before : List (NodePath × N)} {path : NodePath} {node : N}
    {failure : CompileError} (h : compiler.Blames before path node failure) :
    failure.path = path := by
  cases h <;> rfl

theorem Blames.kind_eq {before : List (NodePath × N)} {path : NodePath} {node : N}
    {failure : CompileError} (h : compiler.Blames before path node failure) :
    failure.kind = TreeNode.kindName node := by
  cases h <;> rfl

/-- A refusal by the validation is about the node refused. -/
theorem blames_of_refuses {validator : PlanValidator} {path : NodePath} {node : N}
    {failure : CompileError} (h : validator.Refuses path node failure)
    (before : List (NodePath × N)) : compiler.Blames before path node failure := by
  cases h with
  | tooDeep => exact .tooDeep
  | malformed => exact .malformed

/-- A node that was come to is wanted by some strategy. -/
theorem wanted_of_performs {values values' : ExitValues E} {event : Event N}
    {place : NodePath × N} (hplace : event.entered? = some place)
    (h : compiler.Performs mode values event (.ok values')) :
    ∃ strategy ∈ compiler.strategies, strategy.accepts place.2 = true := by
  generalize hok : Except.ok values' = result at h
  cases h with
  | unwanted => cases hok
  | entered hregistered haccepts =>
      obtain rfl := Option.some.inj hplace
      exact ⟨_, hregistered, haccepts⟩
  | left => cases hplace

/-- The event that ends a run is about the node that the failure blames. -/
theorem blames_of_runs {root : N} {failure : CompileError}
    (hreports : ∀ strategy ∈ compiler.strategies, strategy.FailsThroughMatch)
    {values : ExitValues E}
    (h : compiler.Runs mode values (TreeNode.events root) (.error failure)) :
    ∃ before path node after, TreeNode.located root = before ++ (path, node) :: after ∧
      compiler.Blames before path node failure := by
  obtain ⟨before, event, after, reached, hevents, hbefore, hevent⟩ := h.exists_failed
  generalize hresult : Except.error failure = result at hevent
  cases hevent with
  | @unwanted path node hnone =>
      obtain rfl := Except.error.inj hresult
      refine ⟨before.filterMap Event.entered?, path, node, after.filterMap Event.entered?, ?_,
        .unsupported hnone ?_⟩
      · rw [← TreeNode.filterMap_entered?_events, hevents, List.filterMap_append]
        rfl
      · intro place hplace
        obtain ⟨earlier, hearlier, hentered⟩ := List.mem_filterMap.mp hplace
        obtain ⟨_, _, hpassed⟩ := hbefore earlier hearlier
        exact wanted_of_performs hentered hpassed
  | entered => cases hresult
  | @left path node strategy inputs hfirst hcount hinputs =>
      have hlocated : (path, node) ∈ TreeNode.located root := by
        have hexit : Event.exit path node ∈ TreeNode.events root := by
          rw [hevents]
          exact List.mem_append_right _ List.mem_cons_self
        exact TreeNode.mem_locatedFrom_of_mem_eventsFrom hexit
      obtain ⟨earlier, later, hplaces⟩ := List.append_of_mem hlocated
      refine ⟨earlier, path, node, later, hplaces, ?_⟩
      cases happly : strategy.apply (.ofInputs node mode path strategy.name inputs) with
      | ok value =>
          rw [happly] at hresult
          cases hresult
      | error failed =>
          rw [happly] at hresult
          obtain rfl : failure = failed := Except.error.inj hresult
          obtain ⟨reason, rfl⟩ :=
            hreports strategy (List.mem_of_find?_eq_some hfirst) _ failure happly
          exact .conversion hfirst

/-- A compilation that fails blames a node of the tree. -/
theorem exists_blames_of_prepare {root : N} {failure : CompileError}
    (hreports : ∀ strategy ∈ compiler.strategies, strategy.FailsThroughMatch)
    (h : compiler.prepare root mode = .error failure) :
    ∃ before path node after, TreeNode.located root = before ++ (path, node) :: after ∧
      compiler.Blames before path node failure := by
  rw [prepare_eq] at h
  cases hvalid : compiler.validator.validate root with
  | error refusal =>
      rw [hvalid] at h
      obtain rfl : refusal = failure := Except.error.inj h
      obtain ⟨before, path, node, after, hlocated, _, hrefuses⟩ :=
        PlanValidator.validate_eq_error_iff.mp hvalid
      exact ⟨before, path, node, after, hlocated, blames_of_refuses hrefuses before⟩
  | ok _ =>
      rw [hvalid] at h
      have hrealizes := compiler.realizes_outcome mode root .root fun _ => none
      cases houtcome : compiler.outcome mode root .root with
      | ok value =>
          simp [Except.bind, houtcome, Except.map] at h
      | error stopped =>
          simp only [Except.bind, houtcome, Except.map] at h
          obtain rfl : stopped = failure := Except.error.inj h
          rw [houtcome] at hrealizes
          exact blames_of_runs hreports hrealizes

end Compiler

/-- Every failure locates a node. With strategies that fail only through their match, as the
standard ones do, the position of a failure is that of a node of the tree, the failure and its
message name that node's kind and position, and the rest of what the failure says is so as well. -/
theorem failures_locate_nodes :
    (∀ (compiler : Compiler N E) (root : N) (mode : Mode) (failure : CompileError),
      (∀ strategy ∈ compiler.strategies, strategy.FailsThroughMatch) →
      compiler.prepare root mode = .error failure →
      ∃ before node after,
        TreeNode.located root = before ++ (failure.path, node) :: after ∧
        TreeNode.resolve root failure.path = some node ∧
        failure.kind = TreeNode.kindName node ∧
        Shows failure.message (TreeNode.kindName node) ∧
        Shows failure.message failure.path.display ∧
        compiler.Blames before failure.path node failure) ∧
    ∀ strategy ∈ Standard.strategies, strategy.FailsThroughMatch := by
  refine ⟨?_, fun _ => Standard.failsThroughMatch_of_mem_strategies⟩
  intro compiler root mode failure hreports hprepare
  obtain ⟨before, path, node, after, hlocated, hblames⟩ :=
    Compiler.exists_blames_of_prepare hreports hprepare
  obtain rfl := hblames.path_eq
  have hmember : (failure.path, node) ∈ TreeNode.located root := by
    rw [hlocated]
    exact List.mem_append_right _ List.mem_cons_self
  refine ⟨before, node, after, hlocated, TreeNode.mem_located_iff.mp hmember, hblames.kind_eq, ?_,
    failure.message_shows_path, hblames⟩
  rw [← hblames.kind_eq]
  exact failure.message_shows_kind

/-- The refusal of a scan is found again at its position. -/
theorem failures_locate_nodes_withoutScans :
    (∀ strategy ∈ Compiler.withoutScans.strategies, strategy.FailsThroughMatch) ∧
    Compiler.withoutScans.prepare (.select (.scan (.global "t")) (.var 0 0)) .strict =
      .error (.conversion "RefusedScan" "Scan" ⟨[0]⟩ "no table") ∧
    ∃ node, TreeNode.resolve (Operator.select (.scan (.global "t")) (.var 0 0)) ⟨[0]⟩ = some node ∧
      "Scan" = TreeNode.kindName node ∧
      Shows (CompileError.conversion "RefusedScan" "Scan" ⟨[0]⟩ "no table").message
        (NodePath.display ⟨[0]⟩) := by
  have hreports : ∀ strategy ∈ Compiler.withoutScans.strategies, strategy.FailsThroughMatch := by
    simp only [Compiler.withoutScans, List.forall_mem_cons]
    refine ⟨?_, ?_, ?_, nofun⟩
    · exact fun m failure h => ⟨"no table", (Except.error.inj h).symm⟩
    · exact Standard.failsThroughMatch_of_mem_strategies (by simp [Standard.strategies])
    · exact Standard.failsThroughMatch_of_mem_strategies (by simp [Standard.strategies])
  have hrefused :
      Compiler.withoutScans.prepare (.select (.scan (.global "t")) (.var 0 0)) .strict =
        .error (.conversion "RefusedScan" "Scan" ⟨[0]⟩ "no table") := by
    with_unfolding_all rfl
  obtain ⟨_, node, _, _, hresolve, hkind, _, hshows, _⟩ :=
    failures_locate_nodes.1 Compiler.withoutScans _ .strict _ hreports hrefused
  exact ⟨hreports, hrefused, node, hresolve, hkind, hshows⟩

end PlanLowering
