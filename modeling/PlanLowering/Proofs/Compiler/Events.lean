import PlanLowering.Proofs.Compiler.Outcome
import PlanLowering.Proofs.Tree.Positions
import Mathlib.Logic.Function.Basic

/-!
The compilation as a row of events. What one event comes to is said by `Compiler.Performs`, given
the values with which nodes were left before it, and a run performs the events of a tree one by one
until one of them fails. A compilation of a valid tree is such a run, whatever the strategies do.
-/

namespace PlanLowering

open TreeNode (Event)

variable {N E : Type} [SizeOf N] [TreeNode N]

/-- The values with which nodes were left so far, by position. -/
abbrev ExitValues (E : Type) := NodePath → Option E

namespace Compiler

/-- What an event comes to: a failure, or the exit values after it. -/
inductive Performs (compiler : Compiler N E) (mode : Mode) (values : ExitValues E) :
    Event N → Except CompileError (ExitValues E) → Prop where
  /-- A node that no registered strategy wants cannot be entered. -/
  | unwanted {path : NodePath} {node : N}
      (hnone : ∀ strategy ∈ compiler.strategies, strategy.accepts node = false) :
      compiler.Performs mode values (.entry path node)
        (.error (.unsupported (TreeNode.kindName node) path))
  | entered {path : NodePath} {node : N} {strategy : Strategy N E}
      (hregistered : strategy ∈ compiler.strategies) (haccepts : strategy.accepts node = true) :
      compiler.Performs mode values (.entry path node) (.ok values)
  /-- A node is left with what the first strategy that wants it makes of its children's values. -/
  | left {path : NodePath} {node : N} {strategy : Strategy N E} {inputs : List E}
      (hfirst : compiler.strategies.find? (fun strategy => strategy.accepts node) = some strategy)
      (hcount : inputs.length = TreeNode.childCount node)
      (hinputs : ∀ index input, inputs[index]? = some input →
        values (path.child index) = some input) :
      compiler.Performs mode values (.exit path node)
        ((strategy.apply (.ofInputs node mode path strategy.name inputs)).map fun value =>
          Function.update values path (some value))

/-- A run of events up to the first failure. -/
inductive Runs (compiler : Compiler N E) (mode : Mode) :
    ExitValues E → List (Event N) → Except CompileError (ExitValues E) → Prop where
  | finished {values : ExitValues E} : compiler.Runs mode values [] (.ok values)
  | failed {values : ExitValues E} {event : Event N} {events : List (Event N)}
      {failure : CompileError} (hevent : compiler.Performs mode values event (.error failure)) :
      compiler.Runs mode values (event :: events) (.error failure)
  | next {values values' : ExitValues E} {event : Event N} {events : List (Event N)}
      {result : Except CompileError (ExitValues E)}
      (hevent : compiler.Performs mode values event (.ok values'))
      (hevents : compiler.Runs mode values' events result) :
      compiler.Runs mode values (event :: events) result

variable {compiler : Compiler N E} {mode : Mode}

theorem Performs.deterministic {values : ExitValues E} {event : Event N}
    {result result' : Except CompileError (ExitValues E)}
    (h : compiler.Performs mode values event result)
    (h' : compiler.Performs mode values event result') : result = result' := by
  cases h with
  | unwanted hnone =>
      cases h' with
      | unwanted => rfl
      | entered hregistered haccepts =>
          rw [hnone _ hregistered] at haccepts
          cases haccepts
  | entered hregistered haccepts =>
      cases h' with
      | unwanted hnone =>
          rw [hnone _ hregistered] at haccepts
          cases haccepts
      | entered => rfl
  | @left path node strategy inputs hfirst hcount hinputs =>
      cases h' with
      | @left _ _ _ inputs' hfirst' hcount' hinputs' =>
          obtain rfl := Option.some.inj (hfirst.symm.trans hfirst')
          have hsame : inputs = inputs' := by
            apply List.ext_getElem (hcount.trans hcount'.symm)
            intro index hindex hindex'
            have hvalue := hinputs index _ (List.getElem?_eq_getElem hindex)
            have hvalue' := hinputs' index _ (List.getElem?_eq_getElem hindex')
            exact Option.some.inj (hvalue.symm.trans hvalue')
          rw [hsame]

/-- A run comes to one result only. -/
theorem Runs.deterministic {values : ExitValues E} {events : List (Event N)}
    {result result' : Except CompileError (ExitValues E)}
    (h : compiler.Runs mode values events result)
    (h' : compiler.Runs mode values events result') : result = result' := by
  induction h with
  | finished =>
      cases h' with
      | finished => rfl
  | failed hevent =>
      cases h' with
      | failed hevent' =>
          exact congrArg Except.error (Except.error.inj (hevent.deterministic hevent'))
      | next hevent' _ => cases hevent.deterministic hevent'
  | next hevent _ ih =>
      cases h' with
      | failed hevent' => cases hevent.deterministic hevent'
      | next hevent' hevents' =>
          obtain rfl := Except.ok.inj (hevent.deterministic hevent')
          exact ih hevents'

theorem Runs.append {values values' : ExitValues E} {events others : List (Event N)}
    {result : Except CompileError (ExitValues E)}
    (h : compiler.Runs mode values events (.ok values'))
    (hothers : compiler.Runs mode values' others result) :
    compiler.Runs mode values (events ++ others) result := by
  generalize hok : Except.ok values' = reached at h
  induction h with
  | finished =>
      obtain rfl := Except.ok.inj hok
      exact hothers
  | failed => cases hok
  | next hevent _ ih => exact .next hevent (ih hok)

/-- Events after the first failure do not matter. -/
theorem Runs.append_of_error {values : ExitValues E} {events : List (Event N)}
    {failure : CompileError} (h : compiler.Runs mode values events (.error failure))
    (others : List (Event N)) :
    compiler.Runs mode values (events ++ others) (.error failure) := by
  generalize herror : Except.error failure = reached at h
  induction h with
  | finished => cases herror
  | failed hevent =>
      obtain rfl := Except.error.inj herror
      exact .failed hevent
  | next hevent _ ih => exact .next hevent (ih herror)

/-- The events of a subtree touch no values but those of the subtree. -/
def Keeps (path : NodePath) (values values' : ExitValues E) : Prop :=
  ∀ other : NodePath, ¬ path.indices <+: other.indices → values' other = values other

/-- A run of the events of a subtree comes to the outcome of its lowering. -/
def Realizes (compiler : Compiler N E) (mode : Mode) (values : ExitValues E) (path : NodePath)
    (events : List (Event N)) : Except CompileError E → Prop
  | .error failure => compiler.Runs mode values events (.error failure)
  | .ok value => ∃ values', compiler.Runs mode values events (.ok values') ∧
      values' path = some value ∧ Keeps path values values'

/-- So do the events of the children of a node, one after the other. -/
def RealizesAll (compiler : Compiler N E) (mode : Mode) (values : ExitValues E) (path : NodePath)
    (first : Nat) (events : List (Event N)) : Except CompileError (List E) → Prop
  | .error failure => compiler.Runs mode values events (.error failure)
  | .ok inputs => ∃ values', compiler.Runs mode values events (.ok values') ∧
      (∀ index input, inputs[index]? = some input →
        values' (path.child (first + index)) = some input) ∧
      ∀ other : NodePath, (∀ index, first ≤ index →
        ¬ (path.child index).indices <+: other.indices) → values' other = values other

theorem not_isPrefix_child {path : NodePath} {index other : Nat} (h : index ≠ other) :
    ¬ (path.child index).indices <+: (path.child other).indices := by
  intro hprefix
  have heq := hprefix.eq_of_length (by simp [NodePath.child])
  exact h (by simpa [NodePath.child] using heq)

theorem realizesAll_children {nodes : List N} (path : NodePath)
    (hnodes : ∀ node ∈ nodes, ∀ path values, compiler.Realizes mode values path
      (TreeNode.eventsFrom node path) (compiler.outcome mode node path))
    (first : Nat) (values : ExitValues E) :
    compiler.RealizesAll mode values path first
      ((nodes.zipIdx first).flatMap fun child =>
        TreeNode.eventsFrom child.1 (path.child child.2))
      (path.collect first (nodes.map (compiler.outcome mode))) := by
  induction nodes generalizing first values with
  | nil => exact ⟨values, .finished, by simp, fun _ _ => rfl⟩
  | cons node others ih =>
      have hnode := hnodes node List.mem_cons_self (path.child first) values
      have hothers := ih fun other hother => hnodes other (List.mem_cons_of_mem node hother)
      rw [List.zipIdx_cons, List.flatMap_cons, List.map_cons, NodePath.collect]
      cases hone : compiler.outcome mode node (path.child first) with
      | error failure =>
          rw [hone] at hnode
          exact Runs.append_of_error hnode _
      | ok value =>
          rw [hone] at hnode
          obtain ⟨between, hruns, hvalue, hkeeps⟩ := hnode
          have hrest := hothers (first + 1) between
          cases hall : path.collect (first + 1) (others.map (compiler.outcome mode)) with
          | error failure =>
              rw [hall] at hrest
              exact hruns.append hrest
          | ok inputs =>
              rw [hall] at hrest
              obtain ⟨after, hruns', hinputs, hkeeps'⟩ := hrest
              refine ⟨after, hruns.append hruns', ?_, ?_⟩
              · intro index input hinput
                cases index with
                | zero =>
                    obtain rfl : value = input := Option.some.inj hinput
                    rw [Nat.add_zero, hkeeps', hvalue]
                    exact fun index hindex =>
                      not_isPrefix_child (Nat.ne_of_gt (Nat.lt_of_succ_le hindex))
                | succ index =>
                    have hplace := hinputs index input hinput
                    rwa [Nat.add_assoc, Nat.add_comm 1] at hplace
              · intro other hother
                rw [hkeeps' other fun index hindex => hother index (Nat.le_of_succ_le hindex),
                  hkeeps other (hother first (Nat.le_refl first))]

/-- The lowering of a tree is a run of its events, from whatever values it starts. -/
theorem realizes_outcome (compiler : Compiler N E) (mode : Mode) (node : N) (path : NodePath)
    (values : ExitValues E) :
    compiler.Realizes mode values path (TreeNode.eventsFrom node path)
      (compiler.outcome mode node path) := by
  induction node using TreeNode.induction generalizing path values with
  | step node ih =>
      rw [TreeNode.eventsFrom_eq, outcome_eq]
      cases hselect : compiler.select node with
      | none => exact .failed (.unwanted (select_eq_none_iff.mp hselect))
      | some strategy =>
          obtain ⟨hregistered, haccepts⟩ := Strategy.select_spec hselect
          have hentry : compiler.Performs mode values (.entry path node) (.ok values) :=
            .entered hregistered haccepts
          have hbelow := realizesAll_children path ih 0 values
          change compiler.RealizesAll mode values path 0 _
            (compiler.childOutcomes mode node path) at hbelow
          cases hinputs : compiler.childOutcomes mode node path with
          | error failure =>
              rw [hinputs] at hbelow
              exact .next hentry (Runs.append_of_error hbelow _)
          | ok inputs =>
              rw [hinputs] at hbelow
              obtain ⟨between, hruns, hvalues, hkeeps⟩ := hbelow
              have hcount : inputs.length = TreeNode.childCount node := by
                rw [NodePath.length_of_collect hinputs, List.length_map, TreeNode.childCount]
              have hexit : compiler.Performs mode between (.exit path node) _ :=
                .left hselect hcount fun index input hinput => by
                  simpa using hvalues index input hinput
              cases happly : strategy.apply (.ofInputs node mode path strategy.name inputs) with
              | error failure =>
                  rw [happly] at hexit
                  simp only [Except.bind, happly]
                  exact .next hentry (hruns.append (.failed hexit))
              | ok value =>
                  rw [happly] at hexit
                  simp only [Except.bind, happly]
                  refine ⟨Function.update between path (some value),
                    .next hentry (hruns.append (.next hexit .finished)),
                    Function.update_self path _ between, ?_⟩
                  intro other hother
                  have hne : other ≠ path := fun h => hother (h ▸ List.prefix_refl _)
                  rw [Function.update_of_ne hne]
                  apply hkeeps other
                  intro index _ hchild
                  exact hother ((List.prefix_append _ _).trans hchild)

/-- A compilation of a valid tree is a run of its events. Each event is about the node at its
position; the first one that fails is the failure of the compilation; and if none does, the
statement holds the value with which the root was left. -/
theorem prepare_runs_events :
    ∀ (compiler : Compiler N E) (root : N) (mode : Mode),
      compiler.validator.validate root = .ok () →
      (∀ event ∈ TreeNode.events root, TreeNode.resolve root event.path = some event.node) ∧
      (∀ failure, compiler.prepare root mode = .error failure ↔
        compiler.Runs mode (fun _ => none) (TreeNode.events root) (.error failure)) ∧
      ∀ statement, compiler.prepare root mode = .ok statement ↔
        ∃ values, compiler.Runs mode (fun _ => none) (TreeNode.events root) (.ok values) ∧
          values .root = some statement.root ∧ statement.mode = mode := by
  intro compiler root mode hvalid
  have hprepare : compiler.prepare root mode =
      (compiler.outcome mode root .root).map fun lowered => ⟨lowered, mode⟩ := by
    rw [prepare_eq, hvalid]
    rfl
  have hrealizes := compiler.realizes_outcome mode root .root fun _ => none
  rw [hprepare]
  refine ⟨fun _ => TreeNode.resolve_of_mem_events, ?_⟩
  cases houtcome : compiler.outcome mode root .root with
  | error failure =>
      rw [houtcome] at hrealizes
      refine ⟨fun other => ⟨?_, ?_⟩, fun statement => ⟨nofun, ?_⟩⟩
      · intro h
        obtain rfl := Except.error.inj h
        exact hrealizes
      · intro h
        exact congrArg Except.error (Except.error.inj (Runs.deterministic hrealizes h))
      · rintro ⟨values, hruns, _⟩
        cases Runs.deterministic hrealizes hruns
  | ok value =>
      rw [houtcome] at hrealizes
      obtain ⟨values, hruns, hvalue, _⟩ := hrealizes
      refine ⟨fun failure => ⟨nofun, fun h => ?_⟩, fun statement => ⟨?_, ?_⟩⟩
      · cases hruns.deterministic h
      · intro h
        obtain rfl := Except.ok.inj h
        exact ⟨values, hruns, hvalue, rfl⟩
      · rintro ⟨values', hruns', hroot, rfl⟩
        obtain rfl := Except.ok.inj (hruns.deterministic hruns')
        rw [hvalue] at hroot
        obtain rfl := Option.some.inj hroot
        rfl

/-- A strategy that refuses every scan. -/
def refusedScan : Strategy Operator Expr where
  name := "RefusedScan"
  pattern := .ofKind OperatorKind.scan
  apply m := .error (m.failure "no table")

/-- A registry that wants no variables and refuses scans. -/
def withoutScans : Compiler Operator Expr :=
  ⟨[refusedScan, Standard.select, Standard.global], {}⟩

/-- The scan is left before the variable beside it is entered, so its refusal is what a run comes
to, though no strategy wants the variable. -/
theorem prepare_runs_events_withoutScans :
    withoutScans.validator.validate (Operator.select (.scan (.global "t")) (.var 0 0)) = .ok () ∧
    withoutScans.Runs .strict (fun _ => none)
      (TreeNode.events (Operator.select (.scan (.global "t")) (.var 0 0)))
      (.error (.conversion "RefusedScan" "Scan" ⟨[0]⟩ "no table")) := by
  have hvalid : withoutScans.validator.validate
      (Operator.select (.scan (.global "t")) (.var 0 0)) = .ok () := by
    with_unfolding_all rfl
  refine ⟨hvalid, ?_⟩
  apply ((prepare_runs_events withoutScans _ .strict hvalid).2.1 _).mp
  with_unfolding_all rfl

end Compiler

end PlanLowering
