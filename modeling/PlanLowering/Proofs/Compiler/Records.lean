import PlanLowering.Proofs.Compiler.Events
import PlanLowering.Proofs.Tree.Census
import PlanLowering.Proofs.Tree.Gathered

/-!
What a compilation records. The records describe the run: the size of the tree, whether there are
any strategies, and the nodes left on the way, each with the strategy chosen for it. What passes the
threshold of the log is sent, and neither the threshold nor the tracing has a part in the outcome.
-/

namespace PlanLowering

open TreeNode (Event)

namespace LogRecord

theorem passing_append (threshold : LogThreshold) (records others : List LogRecord) :
    passing threshold (records ++ others) = passing threshold records ++ passing threshold others :=
  List.filter_append records others

theorem passing_lowest (records : List LogRecord) : passing .lowest records = records := by
  apply List.filter_eq_self.mpr
  intro record _
  cases record.level <;> rfl

/-- A threshold that lets pass what is for debugging lets pass all that is more urgent. -/
theorem passing_eq_self {threshold : LogThreshold} (hdebug : threshold.admits .debug = true)
    {records : List LogRecord} (hrecords : ∀ record ∈ records, record.level ≠ .trace) :
    passing threshold records = records := by
  apply List.filter_eq_self.mpr
  intro record hrecord
  have hurgent : record.level.verbosity ≤ LogLevel.debug.verbosity := by
    have hlevel := hrecords record hrecord
    cases hrecord : record.level with
    | trace => exact absurd hrecord hlevel
    | _ => decide
  cases threshold with
  | off => cases hdebug
  | «at» least => exact decide_eq_true (Nat.le_trans hurgent (of_decide_eq_true hdebug))

end LogRecord

variable {N E : Type} [SizeOf N] [TreeNode N]

namespace Compiler

/-- The lowering as it is carried out under a threshold, where only what passes is sent. -/
def lowerUnder (compiler : Compiler N E) (threshold : LogThreshold) (mode : Mode) (root : N) :
    Walk (List LogRecord) E :=
  TreeNode.fold (fun node below => do
    let path ← Walk.here
    match compiler.select node with
    | none => throw (.unsupported (TreeNode.kindName node) path)
    | some strategy =>
      let inputs ← Walk.children below
      if compiler.options.traceStrategies then
        modify fun cursor =>
          { cursor with
            gathered := cursor.gathered ++
              LogRecord.passing threshold [traceRecord path node strategy] }
      lower.liftExcept (strategy.apply (.ofInputs node mode path strategy.name inputs))) root

/-- The compilation as it is carried out under a threshold. The tree is not counted if the count
would not be sent. -/
def prepareUnder (compiler : Compiler N E) (threshold : LogThreshold) (root : N) (mode : Mode) :
    Except CompileError (Statement E) × List LogRecord :=
  match compiler.validator.validate root with
  | .error failure => (.error failure, [])
  | .ok () =>
    let statistics := if threshold.admits .debug then [statsRecord root mode] else []
    let warning :=
      if compiler.isEmpty then LogRecord.passing threshold [emptyRegistryRecord root] else []
    let (outcome, cursor) :=
      (compiler.lowerUnder threshold mode root).runFrom .root (statistics ++ warning)
    (outcome.map fun lowered => ⟨lowered, mode⟩, cursor.gathered)

/-- The record of the choice of a strategy: position and kind of a node, and the first registered
strategy that wants it. -/
def Traces (compiler : Compiler N E) (place : NodePath × N) (record : LogRecord) : Prop :=
  ∃ strategy, compiler.strategies.find? (fun strategy => strategy.accepts place.2) = some strategy ∧
    record = ⟨.debug, .compiler,
      place.1.display ++ " " ++ TreeNode.kindName place.2 ++ " -> " ++ strategy.name⟩

/-- The nodes that a compilation of a valid tree leaves on the way to its result. -/
inductive Leaves (compiler : Compiler N E) (mode : Mode) (root : N) :
    Except CompileError (Statement E) → List (NodePath × N) → Prop where
  | lowered {statement : Statement E} :
      compiler.Leaves mode root (.ok statement) (TreeNode.finished root)
  /-- The strategy of a node fails, and the node is the last one left. -/
  | failed {before after : List (Event N)} {path : NodePath} {node : N} {reached : ExitValues E}
      {failure : CompileError} (hevents : TreeNode.events root = before ++ .exit path node :: after)
      (hbefore : compiler.Runs mode (fun _ => none) before (.ok reached))
      (hnode : compiler.Performs mode reached (.exit path node) (.error failure)) :
      compiler.Leaves mode root (.error failure) (before.filterMap Event.left? ++ [(path, node)])
  /-- No strategy wants a node, and the last one left is the last before it. -/
  | unwanted {before after : List (Event N)} {path : NodePath} {node : N} {reached : ExitValues E}
      (hevents : TreeNode.events root = before ++ .entry path node :: after)
      (hbefore : compiler.Runs mode (fun _ => none) before (.ok reached))
      (hnone : ∀ strategy ∈ compiler.strategies, strategy.accepts node = false) :
      compiler.Leaves mode root (.error (.unsupported (TreeNode.kindName node) path))
        (before.filterMap Event.left?)

/-- The events of a row that are performed on the way to an outcome: all of them, or those up to the
first that fails. -/
def Stops {α : Type} (compiler : Compiler N E) (mode : Mode) (values : ExitValues E)
    (events : List (Event N)) : Except CompileError α → List (Event N) → Prop
  | .ok _, performed => performed = events
  | .error failure, performed => ∃ before event after reached,
      events = before ++ event :: after ∧ performed = before ++ [event] ∧
      compiler.Runs mode values before (.ok reached) ∧
      compiler.Performs mode reached event (.error failure)

section Stops

variable {α β : Type} {compiler : Compiler N E} {mode : Mode} {values : ExitValues E}
  {events performed : List (Event N)}

theorem Stops.prefix_events {outcome : Except CompileError α}
    (h : compiler.Stops mode values events outcome performed) : performed <+: events := by
  cases outcome with
  | ok a => exact h ▸ List.prefix_refl _
  | error failure =>
      obtain ⟨before, event, after, _, rfl, rfl, _, _⟩ := h
      exact ⟨after, by simp⟩

/-- The exit of a node is the last event in any case. -/
theorem stops_exit {path : NodePath} {node : N} {outcome : Except CompileError α}
    {left : α → ExitValues E}
    (h : compiler.Performs mode values (.exit path node) (outcome.map left)) :
    compiler.Stops mode values [.exit path node] outcome [.exit path node] := by
  cases outcome with
  | ok a => rfl
  | error failure => exact ⟨[], _, [], values, rfl, rfl, .finished, h⟩

theorem Stops.map {outcome : Except CompileError α}
    (h : compiler.Stops mode values events outcome performed) (f : α → β) :
    compiler.Stops mode values events (outcome.map f) performed := by
  cases outcome <;> exact h

/-- Events after the first failure are not performed. -/
theorem Stops.append_of_error {failure : CompileError}
    (h : compiler.Stops mode values events (.error failure : Except CompileError α) performed)
    (others : List (Event N)) :
    compiler.Stops mode values (events ++ others) (.error failure : Except CompileError β)
      performed := by
  obtain ⟨before, event, after, reached, rfl, rfl, hbefore, hevent⟩ := h
  exact ⟨before, event, after ++ others, reached, by simp, rfl, hbefore, hevent⟩

/-- Events that pass are performed first. -/
theorem Stops.prepend {earlier : List (Event N)} {between : ExitValues E}
    {outcome : Except CompileError α} (hearlier : compiler.Runs mode values earlier (.ok between))
    (h : compiler.Stops mode between events outcome performed) :
    compiler.Stops mode values (earlier ++ events) outcome (earlier ++ performed) := by
  cases outcome with
  | ok a => exact congrArg (earlier ++ ·) h
  | error failure =>
      obtain ⟨before, event, after, reached, rfl, rfl, hbefore, hevent⟩ := h
      exact ⟨earlier ++ before, event, after, reached, by simp, by simp, hearlier.append hbefore,
        hevent⟩

end Stops

/-- What is sent of the traces under a threshold. -/
def sent (compiler : Compiler N E) (threshold : LogThreshold) (traces : List LogRecord) :
    List LogRecord :=
  if compiler.options.traceStrategies then LogRecord.passing threshold traces else []

theorem sent_nil (compiler : Compiler N E) (threshold : LogThreshold) :
    compiler.sent threshold [] = [] :=
  ite_self _

theorem sent_append (compiler : Compiler N E) (threshold : LogThreshold)
    (traces others : List LogRecord) :
    compiler.sent threshold (traces ++ others) =
      compiler.sent threshold traces ++ compiler.sent threshold others := by
  unfold sent
  split
  · exact LogRecord.passing_append threshold traces others
  · rfl

/-- Walks that perform events up to an outcome and trace the nodes left meanwhile, under every
threshold. -/
def TracesRun {α : Type} (compiler : Compiler N E) (mode : Mode) (values : ExitValues E)
    (path : NodePath) (events : List (Event N)) (outcome : Except CompileError α)
    (walk : LogThreshold → Walk (List LogRecord) α) : Prop :=
  ∃ performed traces, compiler.Stops mode values events outcome performed ∧
    List.Forall₂ compiler.Traces (performed.filterMap Event.left?) traces ∧
    ∀ threshold, (walk threshold).Gathers path outcome (compiler.sent threshold traces)

theorem lowerUnder_eq (compiler : Compiler N E) (threshold : LogThreshold) (mode : Mode)
    (node : N) :
    compiler.lowerUnder threshold mode node = (do
      let path ← Walk.here
      match compiler.select node with
      | none => throw (.unsupported (TreeNode.kindName node) path)
      | some strategy =>
        let inputs ←
          Walk.children ((TreeNode.children node).map (compiler.lowerUnder threshold mode))
        if compiler.options.traceStrategies then
          modify fun cursor =>
            { cursor with
              gathered := cursor.gathered ++
                LogRecord.passing threshold [traceRecord path node strategy] }
        lower.liftExcept (strategy.apply (.ofInputs node mode path strategy.name inputs))) := by
  rw [lowerUnder, TreeNode.fold_eq]
  rfl

/-- The trace comes between the children and the application. -/
theorem gathers_leave (compiler : Compiler N E) (threshold : LogThreshold) (trace : LogRecord)
    (outcome : Except CompileError E) (path : NodePath) :
    Walk.Gathers
      (do
        if compiler.options.traceStrategies then
          modify fun cursor =>
            { cursor with gathered := cursor.gathered ++ LogRecord.passing threshold [trace] }
        lower.liftExcept outcome)
      path outcome (compiler.sent threshold [trace]) := by
  have happly : (lower.liftExcept outcome).Gathers path outcome ([] : List LogRecord) :=
    Walk.gathers_nil fun _ => rfl
  by_cases htrace : compiler.options.traceStrategies = true
  · rw [if_pos htrace, sent, if_pos htrace]
    exact (Walk.gathers_add _ path).bind_nil happly
  · rw [if_neg htrace, sent, if_neg htrace]
    exact (Walk.gathers_pure _ path).bind_nil happly

section Lowering

variable {compiler : Compiler N E} {mode : Mode}

theorem tracesRun_childrenFrom {nodes : List N} (path : NodePath)
    (hnodes : ∀ node ∈ nodes, ∀ path values, compiler.TracesRun mode values path
      (TreeNode.eventsFrom node path) (compiler.outcome mode node path)
      fun threshold => compiler.lowerUnder threshold mode node)
    (first : Nat) (values : ExitValues E) :
    compiler.TracesRun mode values path
      ((nodes.zipIdx first).flatMap fun child =>
        TreeNode.eventsFrom child.1 (path.child child.2))
      (path.collect first (nodes.map (compiler.outcome mode)))
      fun threshold =>
        Walk.childrenFrom first (nodes.map (compiler.lowerUnder threshold mode)) := by
  induction nodes generalizing first values with
  | nil =>
      refine ⟨[], [], rfl, .nil, fun threshold => ?_⟩
      rw [sent_nil]
      exact Walk.gathers_pure [] path
  | cons node others ih =>
      obtain ⟨performed, traces, hstops, htraces, hgathers⟩ :=
        hnodes node List.mem_cons_self (path.child first) values
      have hrealizes := compiler.realizes_outcome mode node (path.child first) values
      rw [List.zipIdx_cons, List.flatMap_cons, List.map_cons, NodePath.collect]
      cases hone : compiler.outcome mode node (path.child first) with
      | error failure =>
          rw [hone] at hstops hgathers
          exact ⟨performed, traces, hstops.append_of_error _, htraces,
            fun threshold => (hgathers threshold).atChild.bind_error⟩
      | ok value =>
          rw [hone] at hstops hgathers hrealizes
          obtain ⟨between, hruns, -, -⟩ := hrealizes
          obtain rfl : performed = TreeNode.eventsFrom node (path.child first) := hstops
          -- the other children are performed from the values that this one leaves
          obtain ⟨performed', traces', hstops', htraces', hgathers'⟩ :=
            ih (fun other hother => hnodes other (List.mem_cons_of_mem node hother)) (first + 1)
              between
          refine ⟨_, traces ++ traces', (hstops'.map (value :: ·)).prepend hruns, ?_,
            fun threshold => ?_⟩
          · rw [List.filterMap_append]
            exact List.rel_append htraces htraces'
          · rw [sent_append]
            exact (hgathers threshold).atChild.bind ((hgathers' threshold).map (value :: ·))

/-- The lowering of a tree performs its events and traces the nodes that it leaves. -/
theorem tracesRun_lowerUnder (compiler : Compiler N E) (mode : Mode) (node : N) (path : NodePath)
    (values : ExitValues E) :
    compiler.TracesRun mode values path (TreeNode.eventsFrom node path)
      (compiler.outcome mode node path)
      fun threshold => compiler.lowerUnder threshold mode node := by
  induction node using TreeNode.induction generalizing path values with
  | step node ih =>
      rw [TreeNode.eventsFrom_eq, outcome_eq]
      simp only [lowerUnder_eq]
      cases hselect : compiler.select node with
      | none =>
          have hentry : compiler.Performs mode values (.entry path node) _ :=
            .unwanted (select_eq_none_iff.mp hselect)
          refine ⟨[.entry path node], [], ⟨[], _, _, values, rfl, rfl, .finished, hentry⟩, .nil,
            fun threshold => ?_⟩
          rw [sent_nil]
          exact (Walk.gathers_here path).bind (Walk.gathers_throw _ path)
      | some strategy =>
          obtain ⟨hregistered, haccepts⟩ := Strategy.select_spec hselect
          have hentry : compiler.Runs mode values [.entry path node] (.ok values) :=
            .next (.entered hregistered haccepts) .finished
          -- an entry changes no values, so the children are performed from the same ones
          obtain ⟨performed, traces, hstops, htraces, hgathers⟩ :=
            tracesRun_childrenFrom path ih 0 values
          have hbelow := realizesAll_children path
            (fun child (_ : child ∈ TreeNode.children node) =>
              compiler.realizes_outcome mode child) 0 values
          change compiler.RealizesAll mode values path 0 _
            (compiler.childOutcomes mode node path) at hbelow
          change compiler.Stops mode values _ (compiler.childOutcomes mode node path) _ at hstops
          change ∀ threshold, Walk.Gathers _ path (compiler.childOutcomes mode node path) _
            at hgathers
          generalize ((TreeNode.children node).zipIdx.flatMap fun child =>
            TreeNode.eventsFrom child.1 (path.child child.2)) = row at hbelow hstops ⊢
          cases hinputs : compiler.childOutcomes mode node path with
          | error failure =>
              rw [hinputs] at hstops hgathers
              exact ⟨_, traces, (hstops.append_of_error _).prepend hentry, htraces,
                fun threshold => (Walk.gathers_here path).bind (hgathers threshold).bind_error⟩
          | ok inputs =>
              rw [hinputs] at hstops hgathers hbelow
              obtain ⟨between, hruns, hvalues, -⟩ := hbelow
              obtain rfl : performed = row := hstops
              have hcount : inputs.length = TreeNode.childCount node := by
                rw [NodePath.length_of_collect hinputs, List.length_map, TreeNode.childCount]
              have hexit : compiler.Performs mode between (.exit path node) _ :=
                .left hselect hcount fun index input hinput => by
                  simpa using hvalues index input hinput
              refine ⟨.entry path node :: (performed ++ [.exit path node]),
                traces ++ [traceRecord path node strategy], ?_, ?_, fun threshold => ?_⟩
              · exact ((stops_exit hexit).prepend hruns).prepend hentry
              · rw [List.filterMap_cons, List.filterMap_append]
                exact List.rel_append htraces (.cons ⟨strategy, hselect, rfl⟩ .nil)
              · rw [sent_append]
                exact (Walk.gathers_here path).bind
                  ((hgathers threshold).bind (gathers_leave compiler threshold _ _ path))

/-- Where the events of a valid tree stop, there its compilation ends. -/
theorem leaves_of_stops {root : N} (hvalid : compiler.validator.validate root = .ok ())
    {performed : List (Event N)}
    (h : compiler.Stops mode (fun _ => none) (TreeNode.events root)
      (compiler.outcome mode root .root) performed) :
    compiler.Leaves mode root (compiler.prepare root mode) (performed.filterMap Event.left?) := by
  have hprepare : compiler.prepare root mode =
      (compiler.outcome mode root .root).map fun lowered => ⟨lowered, mode⟩ := by
    rw [prepare_eq, hvalid]
    rfl
  rw [hprepare]
  cases houtcome : compiler.outcome mode root .root with
  | ok value =>
      rw [houtcome] at h
      obtain rfl : performed = TreeNode.events root := h
      exact .lowered
  | error failure =>
      rw [houtcome] at h
      obtain ⟨before, event, after, reached, hevents, rfl, hbefore, hevent⟩ := h
      rw [List.filterMap_append]
      cases event with
      | entry path node =>
          cases hevent with
          | unwanted hnone =>
              rw [List.filterMap_cons_none rfl, List.filterMap_nil, List.append_nil]
              exact .unwanted hevents hbefore hnone
      | exit path node => exact .failed hevents hbefore hevent

end Lowering

theorem prepareRecorded_eq (compiler : Compiler N E) (root : N) (mode : Mode) :
    compiler.prepareRecorded root mode = compiler.prepareUnder .lowest root mode :=
  rfl

theorem passing_openingRecords (compiler : Compiler N E) (threshold : LogThreshold) (root : N)
    (mode : Mode) :
    LogRecord.passing threshold (compiler.openingRecords root mode) =
      (if threshold.admits .debug then [statsRecord root mode] else []) ++
        if compiler.isEmpty then LogRecord.passing threshold [emptyRegistryRecord root]
        else [] := by
  have hwarning : LogRecord.passing threshold
      (if compiler.isEmpty then [emptyRegistryRecord root] else []) =
        if compiler.isEmpty then LogRecord.passing threshold [emptyRegistryRecord root]
        else [] := by
    split <;> rfl
  rw [← hwarning, openingRecords, ← List.singleton_append, LogRecord.passing_append]
  congr 1
  rw [LogRecord.passing, List.filter_singleton, Bool.cond_eq_ite]
  rfl

theorem passing_sent (compiler : Compiler N E) (threshold : LogThreshold)
    (traces : List LogRecord) :
    LogRecord.passing threshold (compiler.sent .lowest traces) =
      compiler.sent threshold traces := by
  rw [sent, sent, LogRecord.passing_lowest]
  split <;> rfl

/-- Under every threshold the same tree is lowered alike, and what passes of the same records is
sent. -/
theorem exists_prepareUnder_eq {compiler : Compiler N E} {root : N}
    (hvalid : compiler.validator.validate root = .ok ()) (mode : Mode) :
    ∃ performed traces,
      compiler.Stops mode (fun _ => none) (TreeNode.events root) (compiler.outcome mode root .root)
        performed ∧
      List.Forall₂ compiler.Traces (performed.filterMap Event.left?) traces ∧
      ∀ threshold, compiler.prepareUnder threshold root mode =
        (compiler.prepare root mode,
          LogRecord.passing threshold (compiler.openingRecords root mode) ++
            compiler.sent threshold traces) := by
  obtain ⟨performed, traces, hstops, htraces, hgathers⟩ :=
    compiler.tracesRun_lowerUnder mode root .root fun _ => none
  refine ⟨performed, traces, hstops, htraces, fun threshold => ?_⟩
  rw [prepareUnder, prepare_eq, hvalid, passing_openingRecords]
  simp only [hgathers threshold _]
  rfl

/-- Whatever the threshold, the outcome is that of the compilation, and what passes of its records
is sent. -/
theorem prepareUnder_eq (compiler : Compiler N E) (threshold : LogThreshold) (root : N)
    (mode : Mode) :
    compiler.prepareUnder threshold root mode =
      (compiler.prepare root mode,
        LogRecord.passing threshold (compiler.prepareRecorded root mode).2) := by
  cases hvalid : compiler.validator.validate root with
  | error failure =>
      rw [prepareUnder, prepare_eq, prepareRecorded, hvalid]
      rfl
  | ok _ =>
      obtain ⟨_, traces, -, -, hprepare⟩ := exists_prepareUnder_eq hvalid mode
      rw [prepareRecorded_eq, hprepare, hprepare, LogRecord.passing_append, passing_sent,
        LogRecord.passing_lowest]

/-- Tracing has no part in the outcome. -/
theorem prepare_withOptions_trace (compiler : Compiler N E) (traceStrategies : Bool) (root : N)
    (mode : Mode) :
    (compiler.withOptions { compiler.options with traceStrategies }).prepare root mode =
      compiler.prepare root mode := by
  rw [prepare_eq, prepare_eq]
  rfl

/-- The first records, with the extent of the tree in the place of its statistics. -/
theorem openingRecords_eq (compiler : Compiler N E) (root : N) (mode : Mode) :
    compiler.openingRecords root mode =
      ⟨.debug, .compiler,
        "编译计划: 根节点 " ++ TreeNode.kindName root ++
          ", 节点数 " ++ number (TreeNode.size root) ++
          ", 最大深度 " ++ number (TreeNode.height root) ++ ", 模式 " ++ mode.name⟩ ::
        if compiler.strategies = [] then [emptyRegistryRecord root] else [] := by
  have hempty : compiler.isEmpty = decide (compiler.strategies = []) := by
    rw [Bool.eq_iff_iff, decide_eq_true_eq]
    exact List.isEmpty_iff
  simp only [openingRecords, hempty, decide_eq_true_eq]
  rw [← PlanStats.nodeCount_collect, ← PlanStats.maxDepth_collect]
  rfl

theorem level_of_mem_openingRecords (compiler : Compiler N E) (root : N) (mode : Mode) :
    ∀ record ∈ compiler.openingRecords root mode, record.level ≠ .trace := by
  rw [openingRecords, List.forall_mem_cons]
  refine ⟨LogLevel.noConfusion, ?_⟩
  split
  · exact List.forall_mem_singleton.mpr LogLevel.noConfusion
  · exact List.forall_mem_nil _

theorem level_of_mem_traces {compiler : Compiler N E} {left : List (NodePath × N)}
    {traces : List LogRecord} (h : List.Forall₂ compiler.Traces left traces) :
    ∀ record ∈ traces, record.level ≠ .trace := by
  induction h with
  | nil => exact List.forall_mem_nil _
  | cons hplace _ ih =>
      obtain ⟨strategy, -, rfl⟩ := hplace
      exact List.forall_mem_cons.mpr ⟨LogLevel.noConfusion, ih⟩

/-- The records describe the run and have no influence on it. With debug records sent, a tree that
is refused leaves none; otherwise they give the extent of the tree, warn of an empty registry, and
with tracing go on with the strategies of the nodes left on the way, which come first in
post-order. -/
theorem records_describe_run :
    ∀ (compiler : Compiler N E) (root : N) (mode : Mode),
      (∀ threshold, compiler.prepareUnder threshold root mode =
        (compiler.prepare root mode,
          LogRecord.passing threshold (compiler.prepareRecorded root mode).2)) ∧
      (∀ threshold traceStrategies,
        ((compiler.withOptions { compiler.options with traceStrategies }).prepareUnder threshold
          root mode).1 = compiler.prepare root mode) ∧
      ∀ threshold : LogThreshold, threshold.admits .debug = true →
        (∀ failure, compiler.validator.validate root = .error failure →
          (compiler.prepareUnder threshold root mode).2 = []) ∧
        (compiler.validator.validate root = .ok () → ∃ left traces,
          (compiler.prepareUnder threshold root mode).2 =
            ⟨.debug, .compiler,
              "编译计划: 根节点 " ++ TreeNode.kindName root ++
                ", 节点数 " ++ number (TreeNode.size root) ++
                ", 最大深度 " ++ number (TreeNode.height root) ++ ", 模式 " ++ mode.name⟩ ::
              ((if compiler.strategies = [] then
                  [⟨.warn, .compiler, "策略注册表为空，无法编译 " ++ TreeNode.kindName root ++ " 节点"⟩]
                else []) ++
              if compiler.options.traceStrategies then traces else []) ∧
          List.Forall₂ compiler.Traces left traces ∧
          left <+: TreeNode.finished root ∧
          compiler.Leaves mode root (compiler.prepare root mode) left) := by
  intro compiler root mode
  refine ⟨fun threshold => compiler.prepareUnder_eq threshold root mode, ?_, ?_⟩
  · intro threshold traceStrategies
    rw [prepareUnder_eq, prepare_withOptions_trace]
  · intro threshold hdebug
    refine ⟨fun failure hrefused => ?_, fun hvalid => ?_⟩
    · rw [prepareUnder, hrefused]
    · obtain ⟨performed, traces, hstops, htraces, hprepare⟩ := exists_prepareUnder_eq hvalid mode
      refine ⟨_, traces, ?_, htraces, hstops.prefix_events.filterMap _,
        leaves_of_stops hvalid hstops⟩
      rw [hprepare, sent,
        LogRecord.passing_eq_self hdebug (level_of_mem_openingRecords compiler root mode),
        LogRecord.passing_eq_self hdebug (level_of_mem_traces htraces), openingRecords_eq]
      rfl

/-- A registry that wants no variables and refuses scans, with its choices traced. -/
def tracedWithoutScans : Compiler Operator Expr :=
  withoutScans.withOptions { traceStrategies := true }

/-- A value for each row of a table. -/
def scannedValues : Operator :=
  .select (.scan (.global "t")) (.var 0 0)

/-- A plan with a fault left over leaves no records. Where a scan is refused, the traces go up to
it, and the node above it and the one beside it have none. -/
theorem records_describe_run_withoutScans :
    (LogThreshold.at .debug).admits .debug = true ∧
    tracedWithoutScans.validator.validate (Operator.err "x") =
      .error (.malformed "Err" .root "计划中包含错误节点: x") ∧
    (tracedWithoutScans.prepareUnder (.at .debug) (.err "x") .strict).2 = [] ∧
    tracedWithoutScans.validator.validate scannedValues = .ok () ∧
    ∃ left, List.Forall₂ tracedWithoutScans.Traces left
        [⟨.debug, .compiler, "/0/0 Global -> GlobalStrategy"⟩,
          ⟨.debug, .compiler, "/0 Scan -> RefusedScan"⟩] ∧
      left <+: TreeNode.finished scannedValues ∧
      tracedWithoutScans.Leaves .strict scannedValues
        (.error (.conversion "RefusedScan" "Scan" ⟨[0]⟩ "no table")) left := by
  have hdebug : (LogThreshold.at .debug).admits .debug = true := by decide
  have hrefused : tracedWithoutScans.validator.validate (Operator.err "x") =
      .error (.malformed "Err" .root "计划中包含错误节点: x") := by
    with_unfolding_all rfl
  have hvalid : tracedWithoutScans.validator.validate scannedValues = .ok () := by
    with_unfolding_all rfl
  have hrecords : (tracedWithoutScans.prepareUnder (.at .debug) scannedValues .strict).2 =
      [⟨.debug, .compiler, "编译计划: 根节点 Select, 节点数 4, 最大深度 2, 模式 strict"⟩,
        ⟨.debug, .compiler, "/0/0 Global -> GlobalStrategy"⟩,
        ⟨.debug, .compiler, "/0 Scan -> RefusedScan"⟩] := by
    with_unfolding_all rfl
  have hprepare : tracedWithoutScans.prepare scannedValues .strict =
      .error (.conversion "RefusedScan" "Scan" ⟨[0]⟩ "no table") := by
    with_unfolding_all rfl
  have hsilent := ((records_describe_run tracedWithoutScans (.err "x") .strict).2.2 _ hdebug).1 _
    hrefused
  obtain ⟨left, traces, hsent, htraces, hprefix, hleaves⟩ :=
    ((records_describe_run tracedWithoutScans _ .strict).2.2 _ hdebug).2 hvalid
  rw [hrecords] at hsent
  rw [hprepare] at hleaves
  obtain rfl : _ = traces := (List.cons.inj hsent).2
  exact ⟨hdebug, hrefused, hsilent, hvalid, left, htraces, hprefix, hleaves⟩

end Compiler

end PlanLowering
