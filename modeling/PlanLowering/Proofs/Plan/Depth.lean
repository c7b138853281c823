import PlanLowering.Plan.Json
import PlanLowering.Proofs.Compiler.Refusal
import PlanLowering.Proofs.Json.Results
import PlanLowering.Proofs.Plan.RoundTrip
import PlanLowering.Proofs.Strategy.Reporting
import PlanLowering.Proofs.Tree.Orders

/-!
Plans that were read are shallow. Each node costs two brackets, that of the variant and that of its
fields, in whatever way a text spells it, so the room for brackets bounds the depth of a node. A
compiler whose limit is not below that bound never finds such a plan too deep.
-/

namespace PlanLowering

open Decoder

namespace Operator

/-- There is room for two brackets for every node and each of those above it. -/
def FitsIn (room : Nat) (plan : Operator) : Prop :=
  ∀ path node, TreeNode.resolve plan path = some node → 2 * (path.depth + 1) ≤ room

theorem FitsIn.mono {room room' : Nat} {plan : Operator} (h : plan.FitsIn room)
    (hle : room ≤ room') : plan.FitsIn room' :=
  fun path node hnode => Nat.le_trans (h path node hnode) hle

theorem fitsIn_of_children {room : Nat} {plan : Operator}
    (h : ∀ child ∈ plan.children, child.FitsIn room) : plan.FitsIn (room + 2) := by
  rintro ⟨indices⟩ node hnode
  cases indices with
  | nil => exact Nat.le_add_left 2 room
  | cons index indices =>
      rw [TreeNode.resolve_cons] at hnode
      obtain ⟨child, hchild, hbelow⟩ := Option.bind_eq_some_iff.mp hnode
      have hle := h child (List.mem_of_getElem? hchild) ⟨indices⟩ node hbelow
      exact Nat.add_le_add_right hle 2

section Step

/-- A node takes two brackets of the room, and its fields are read with what is left. -/
theorem return_node {α : Type} {label : String} {build : α → Operator} {fields : Fields α}
    (h : ∀ room, ∃ property, fields.Return room property ∧ ∀ values, property values →
      ∀ child ∈ (build values).children, child.FitsIn room) (room : Nat) :
    (Payload.single (build <$> record label fields)).Return room (FitsIn room) := by
  rintro below rfl
  refine Returns.built fun below' hroom' => ?_
  obtain ⟨property, hfields, hchildren⟩ := h below'
  refine ⟨property, hfields, fun values hvalues => ?_⟩
  exact (fitsIn_of_children (hchildren values hvalues)).mono (by omega)

variable {self : Decoder Operator} (hself : ∀ room, self.Returns room (FitsIn room))

include hself

theorem returns_list (room : Nat) :
    (list self).Returns room fun plans => ∀ plan ∈ plans, plan.FitsIn room := by
  refine Returns.list fun below hroom => (hself below).mono fun plan hplan => ?_
  exact hplan.mono (by omega)

theorem returns_specs (room : Nat) :
    (list (variants.sortSpec self)).Returns room
      fun specs => ∀ plan ∈ specs.map (·.1), plan.FitsIn room := by
  have hspecs : (list (variants.sortSpec self)).Returns room
      fun specs => ∀ spec ∈ specs, spec.1.FitsIn room := by
    refine Returns.list fun below hroom => Returns.built fun below' hroom' => ⟨_,
      .needed (hself below') (.optional (returns_any _ _) trivial .done), fun spec hspec => ?_⟩
    exact hspec.1.mono (by omega)
  exact hspecs.mono fun specs => List.forall_mem_map.mpr

/-- Pairs of plans, each of them a record with two fields. -/
theorem returns_pairs (label first second : String) (room : Nat) :
    (list ((fun (a, b, ()) => (a, b)) <$>
      record label (.needed first self <| .needed second self .done))).Returns room
        fun pairs => ∀ plan ∈ inPairs pairs, plan.FitsIn room := by
  have hpairs : (list ((fun (a, b, ()) => (a, b)) <$>
      record label (.needed first self <| .needed second self .done))).Returns room
        fun pairs => ∀ pair ∈ pairs, pair.1.FitsIn room ∧ pair.2.FitsIn room := by
    refine Returns.list fun below hroom => Returns.built fun below' hroom' => ⟨_,
      .needed (hself below') (.needed (hself below') .done), fun pair hpair => ?_⟩
    exact ⟨hpair.1.mono (by omega), hpair.2.1.mono (by omega)⟩
  exact hpairs.mono fun pairs => forall_mem_inPairs.mpr

theorem return_variants (room : Nat) :
    ∀ variant ∈ variants self, variant.payload.Return room (FitsIn room) := by
  have hplans := returns_list hself
  have hspecs := returns_specs hself
  have hpairs := returns_pairs hself
  have hany := @returns_any
  simp only [variants, List.forall_mem_cons]
  refine ⟨
    return_node (fun n => ⟨_, .needed (hself n) .done, ?_⟩) room,
    return_node (fun n => ⟨_, .needed (hself n) .done, ?_⟩) room,
    return_node (fun n => ⟨_, .needed (hself n) .done, ?_⟩) room,
    return_node (fun n => ⟨_, .needed (hself n) (.needed (hself n) .done), ?_⟩) room,
    return_node (fun n => ⟨_, .needed (hself n) (.needed (hplans n) .done), ?_⟩) room,
    return_node (fun n => ⟨_, .needed (hself n) (.optional (hany n _) trivial .done), ?_⟩) room,
    return_node (fun n => ⟨_, .needed (hself n) (.needed (hself n) .done), ?_⟩) room,
    return_node (fun n => ⟨_, .needed (hself n) (.needed (hself n) .done), ?_⟩) room,
    return_node (fun n => ⟨_, .needed (hself n) .done, ?_⟩) room,
    return_node (fun n => ⟨_, .needed (hself n) (.needed (hspecs n) .done), ?_⟩) room,
    return_node (fun n => ⟨_, .needed (hself n) (.needed (hself n) (.needed (hself n)
      (.needed (hany n _) .done))), ?_⟩) room,
    return_node (fun n => ⟨_, .needed (hself n) (.needed (hany n _) .done), ?_⟩) room,
    return_node (fun n => ⟨_, .needed (hany n _) (.optional (hany n _) trivial
      (.needed (hself n) (.needed (hself n) .done))), ?_⟩) room,
    return_node (fun n => ⟨_, .needed (hany n _) .done, ?_⟩) room,
    return_node (fun n => ⟨_, .optional (hany n _) trivial (.needed (hany n _) .done), ?_⟩) room,
    return_node (fun n => ⟨_, .needed (hany n _) .done, ?_⟩) room,
    return_node (fun n => ⟨_, .needed (hself n) (.needed (hself n) .done), ?_⟩) room,
    return_node (fun n => ⟨_, .needed (hself n) (.needed (hany n _) .done), ?_⟩) room,
    return_node (fun n => ⟨_, .needed (hself n) (.needed (hself n) .done), ?_⟩) room,
    return_node (fun n => ⟨_, .needed (hany n _) (.optional (hplans n) (by simp) .done), ?_⟩) room,
    return_node (fun n => ⟨_, .needed (hpairs _ _ _ n) (.needed (hself n) .done), ?_⟩) room,
    return_node (fun n => ⟨_, .needed (hself n) (.needed (hany n _) .done), ?_⟩) room,
    return_node (fun n => ⟨_, .needed (hany n _) (.optional (hplans n) (by simp) .done), ?_⟩) room,
    return_node (fun n => ⟨_, .optional (hpairs _ _ _ n) (by simp [inPairs]) .done, ?_⟩) room,
    return_node (fun n => ⟨_, .optional (hplans n) (by simp) .done, ?_⟩) room,
    return_node (fun n => ⟨_, .needed (hself n) (.needed (hself n) .done), ?_⟩) room,
    return_node (fun n => ⟨_, .needed (hself n) (.needed (hself n)
      (.needed (hany n _) .done)), ?_⟩) room,
    return_node (fun n => ⟨_, .needed (hself n) (.needed (hself n)
      (.needed (hself n) .done)), ?_⟩) room,
    return_node (fun n => ⟨_, .needed (hany n _) .done, ?_⟩) room, nofun⟩
  -- the fields of each kind bring about that its children fit
  all_goals
    intro values hvalues
    grind [children]

end Step

theorem returns_decoder (room : Nat) : decoder.Returns room (FitsIn room) :=
  returns_recursive (fun _ hself room => Returns.variant (return_variants hself room)) room

/-- A text nests 127 brackets at most as far as it is read, and the deepest node has two of its
own. -/
theorem depth_le_of_ofJsonText {text : String} {plan : Operator}
    (hread : ofJsonText text = .ok plan) :
    ∀ place ∈ TreeNode.located plan, place.1.depth ≤ 62 := by
  have hfits : plan.FitsIn maxNesting := (returns_decoder maxNesting).ofText hread
  rintro ⟨path, node⟩ hplace
  have hroom := hfits path node (TreeNode.mem_located_iff.mp hplace)
  rw [maxNesting] at hroom
  dsimp only
  omega

/-- A chain of nodes, each the only child of the one above it. -/
def chain (length : Nat) : Operator :=
  Nat.repeat distinct length (global "t")

theorem resolve_chain (length : Nat) :
    TreeNode.resolve (chain length) ⟨List.replicate length 0⟩ = some (global "t") := by
  induction length with
  | zero => rfl
  | succ length ih =>
      rw [List.replicate_succ, TreeNode.resolve_cons]
      exact ih

theorem floats_chain (length : Nat) (p : Binary64 → Prop) : (chain length).floats p := by
  induction length with
  | zero =>
      rw [floats_of_children OperatorKind.noConfusion]
      exact fun child hchild => absurd hchild List.not_mem_nil
  | succ length ih =>
      rw [floats_of_children OperatorKind.noConfusion]
      exact List.forall_mem_singleton.mpr ih

/-- The text of a chain of 62 nodes above a table is read. -/
theorem ofJsonText_chain : ofJsonText (chain 62).jsonText = .ok (chain 62) := by
  obtain ⟨outcome, hread, hfaithful⟩ := ofJsonText_jsonText (chain 62)
  rw [hread]
  exact (hfaithful.ok_or_syntax (floats_chain 62 _)).1 (by decide +kernel)

end Operator

/-- The failure says that a node lies below the depth limit. -/
def CompileError.IsTooDeep (failure : CompileError) : Prop :=
  ∃ kind path depth limit, failure = .tooDeep kind path depth limit

section Compiling

variable {N E : Type} [SizeOf N] [TreeNode N]

/-- Children that fail do so with the failure of one of them. -/
theorem NodePath.exists_of_collect_error {ε α : Type} {path : NodePath}
    {children : List (NodePath → Except ε α)} {index : Nat} {failure : ε}
    (h : path.collect index children = .error failure) :
    ∃ child ∈ children, ∃ place, child place = .error failure := by
  induction children generalizing index with
  | nil => cases h
  | cons child others ih =>
      cases hfirst : child (path.child index) with
      | error found =>
          obtain rfl : found = failure := by
            simpa [NodePath.collect, hfirst, bind, Except.bind] using h
          exact ⟨child, List.mem_cons_self, _, hfirst⟩
      | ok first =>
          cases hrest : path.collect (index + 1) others with
          | error found =>
              obtain rfl : found = failure := by
                simpa [NodePath.collect, hfirst, hrest, bind, Except.bind] using h
              obtain ⟨other, hother, place, hplace⟩ := ih hrest
              exact ⟨other, List.mem_cons_of_mem child hother, place, hplace⟩
          | ok rest => simp [NodePath.collect, hfirst, hrest, bind, Except.bind, pure,
              Except.pure] at h

variable {compiler : Compiler N E}
  (hstrategies : ∀ strategy ∈ compiler.strategies, ∀ m failure,
    strategy.apply m = .error failure → ¬ failure.IsTooDeep)

include hstrategies

/-- The lowering itself never says so. -/
theorem Compiler.outcome_not_tooDeep (mode : Mode) (node : N) (path : NodePath)
    {failure : CompileError} (h : compiler.outcome mode node path = .error failure) :
    ¬ failure.IsTooDeep := by
  induction node using TreeNode.induction generalizing path with
  | step node ih =>
      rw [outcome_eq] at h
      cases hselect : compiler.select node with
      | none =>
          rw [hselect] at h
          obtain rfl := Except.error.inj h
          rintro ⟨_, _, _, _, ⟨⟩⟩
      | some strategy =>
          rw [hselect] at h
          cases hinputs : compiler.childOutcomes mode node path with
          | error found =>
              rw [hinputs] at h
              obtain rfl := Except.error.inj h
              obtain ⟨child, hchild, place, hplace⟩ := NodePath.exists_of_collect_error hinputs
              obtain ⟨below, hbelow, rfl⟩ := List.mem_map.mp hchild
              exact ih below hbelow place hplace
          | ok inputs =>
              rw [hinputs] at h
              exact hstrategies strategy (Strategy.select_spec hselect).1 _ failure h

/-- A tree no deeper than the limit is never found too deep. -/
theorem Compiler.prepare_not_tooDeep {root : N}
    (hdepth : ∀ place ∈ TreeNode.located root,
      place.1.depth ≤ compiler.options.maxPlanDepth.toNat)
    (mode : Mode) {failure : CompileError} (h : compiler.prepare root mode = .error failure) :
    ¬ failure.IsTooDeep := by
  rw [prepare_eq] at h
  cases hvalid : compiler.validator.validate root with
  | ok _ =>
      rw [hvalid] at h
      cases houtcome : compiler.outcome mode root .root with
      | ok lowered =>
          rw [houtcome] at h
          cases h
      | error found =>
          rw [houtcome] at h
          obtain rfl := Except.error.inj h
          exact outcome_not_tooDeep hstrategies mode root .root houtcome
  | error found =>
      rw [hvalid] at h
      obtain rfl := Except.error.inj h
      obtain ⟨before, path, node, after, hlocated, _, hrefuses⟩ :=
        PlanValidator.validate_eq_error_iff.mp hvalid
      have hplace := hdepth (path, node) (by simp [hlocated])
      cases hrefuses with
      | tooDeep hbelow =>
          have hlimit : path.depth = compiler.options.maxPlanDepth.toNat + 1 := hbelow
          dsimp only at hplace
          omega
      | malformed _ _ =>
          rintro ⟨_, _, _, _, ⟨⟩⟩

end Compiling

/-- Plans that are read lie within a depth of 62, which is reached. A compiler with a limit from
there on never finds one of them too deep, unless a strategy says so by itself. -/
theorem read_plans_are_shallow :
    (∀ (text : String) (plan : Operator), Operator.ofJsonText text = .ok plan →
      (∀ place ∈ TreeNode.located plan, place.1.depth ≤ 62) ∧
      ∀ (E : Type) (compiler : Compiler Operator E) (mode : Mode),
        62 ≤ compiler.options.maxPlanDepth.toNat →
        (∀ strategy ∈ compiler.strategies, ∀ m failure,
          strategy.apply m = .error failure → ¬ failure.IsTooDeep) →
        ∀ failure, compiler.prepare plan mode = .error failure → ¬ failure.IsTooDeep) ∧
    62 ≤ ({} : CompilerOptions).maxPlanDepth.toNat ∧
    ∃ text plan, Operator.ofJsonText text = .ok plan ∧
      ∃ place ∈ TreeNode.located plan, place.1.depth = 62 := by
  refine ⟨?_, by decide, ?_⟩
  · intro text plan hread
    have hdepth := Operator.depth_le_of_ofJsonText hread
    refine ⟨hdepth, ?_⟩
    intro E compiler mode hlimit hstrategies failure
    apply Compiler.prepare_not_tooDeep hstrategies
    exact fun place hplace => Nat.le_trans (hdepth place hplace) hlimit
  · refine ⟨_, _, Operator.ofJsonText_chain, (⟨List.replicate 62 0⟩, .global "t"), ?_, ?_⟩
    · exact TreeNode.mem_located_iff.mpr (Operator.resolve_chain 62)
    · exact List.length_replicate

/-- A plan as deep as can be read, and a compiler that knows tables only, with its limit right
there. -/
theorem read_plans_are_shallow_chain :
    (∀ place ∈ TreeNode.located (Operator.chain 62), place.1.depth ≤ 62) ∧
    ∃ failure, (⟨[Standard.global], { maxPlanDepth := 62 }⟩ : Compiler Operator Expr).prepare
        (Operator.chain 62) .strict = .error failure ∧ ¬ failure.IsTooDeep := by
  obtain ⟨hdepth, hprepare⟩ := read_plans_are_shallow.1 _ _ Operator.ofJsonText_chain
  have hrefused : (⟨[Standard.global], { maxPlanDepth := 62 }⟩ : Compiler Operator Expr).prepare
      (Operator.chain 62) .strict = .error (.unsupported "Distinct" .root) := by
    rw [Compiler.prepare_eq, PlanValidator.validate_eq_ok_iff.mpr (by decide +kernel),
      Compiler.outcome_eq]
    rfl
  refine ⟨hdepth, _, hrefused, hprepare Expr _ .strict (by decide) ?_ _ hrefused⟩
  intro strategy hstrategy m failure happly
  obtain rfl := List.mem_singleton.mp hstrategy
  have hglobal : Standard.global ∈ Standard.strategies := by simp [Standard.strategies]
  obtain ⟨reason, rfl⟩ := Standard.failsThroughMatch_of_mem_strategies hglobal m failure happly
  rintro ⟨_, _, _, _, ⟨⟩⟩

end PlanLowering
