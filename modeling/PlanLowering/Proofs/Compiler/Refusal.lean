import PlanLowering.Proofs.Compiler.Outcome

/-!
Which plans are refused before any strategy is asked. The validation reports the first node in
pre-order that lies below the limit or is at odds with itself, and of the two the depth comes first;
the compiler hands that failure on, whatever its registry is. A limit that no node lies below can be
raised without a change.
-/

namespace PlanLowering

variable {N E : Type} [SizeOf N] [TreeNode N]

namespace PlanValidator

/-- A node at a position is refused with this failure. The first level that is too deep is the one
right below the limit, and a node there is refused for its depth even if it has a defect as well. -/
inductive Refuses (validator : PlanValidator) (path : NodePath) (node : N) :
    CompileError → Prop where
  | tooDeep (hdepth : path.depth = validator.maxDepth + 1) :
      validator.Refuses path node
        (.tooDeep (TreeNode.kindName node) path (validator.maxDepth + 1) validator.maxDepth)
  | malformed {reason : String} (hdepth : path.depth ≤ validator.maxDepth)
      (hdefect : TreeNode.defect? node = some reason) :
      validator.Refuses path node (.malformed (TreeNode.kindName node) path reason)

/-- A node at a position lies within the limit and is sound. -/
def Admits (validator : PlanValidator) (path : NodePath) (node : N) : Prop :=
  path.depth ≤ validator.maxDepth ∧ TreeNode.defect? node = none

theorem violation?_eq_none_iff {validator : PlanValidator} {path : NodePath} {node : N} :
    validator.violation? node path = none ↔ validator.Admits path node := by
  rw [violation?, Admits]
  split
  · next hdeep =>
      exact ⟨fun h => absurd h (Option.some_ne_none _),
        fun h => absurd hdeep (Nat.not_lt_of_le h.1)⟩
  · next hdepth => simp [Nat.le_of_not_lt hdepth]

/-- A violation names the position of the node. -/
theorem path_of_violation? {validator : PlanValidator} {path : NodePath} {node : N}
    {failure : CompileError} (h : validator.violation? node path = some failure) :
    failure.path = path := by
  rw [violation?] at h
  split at h
  · obtain rfl := Option.some.inj h
    rfl
  · obtain ⟨reason, _, rfl⟩ := Option.map_eq_some_iff.mp h
    rfl

/-- At most one level below the limit a violation is what the node is refused with. -/
theorem violation?_eq_some_iff {validator : PlanValidator} {path : NodePath} {node : N}
    {failure : CompileError} (hpath : path.depth ≤ validator.maxDepth + 1) :
    validator.violation? node path = some failure ↔ validator.Refuses path node failure := by
  rw [violation?]
  split
  · next hdeep =>
      have hdepth : path.depth = validator.maxDepth + 1 := Nat.le_antisymm hpath hdeep
      rw [CompileError.tooDeepAt, hdepth]
      constructor
      · intro h
        obtain rfl := Option.some.inj h
        exact .tooDeep hdepth
      · rintro (_ | ⟨hshallow, _⟩)
        · rfl
        · exact absurd hdeep (Nat.not_lt_of_le hshallow)
  · next hshallow =>
      constructor
      · intro h
        obtain ⟨reason, hreason, rfl⟩ := Option.map_eq_some_iff.mp h
        exact .malformed (Nat.le_of_not_lt hshallow) hreason
      · rintro (hdepth | ⟨_, hreason⟩)
        · exact absurd (Nat.lt_of_succ_le (Nat.le_of_eq hdepth.symm)) hshallow
        · rw [hreason, Option.map_some]

/-- Only nodes within the limit are passed on the way to the first violation. -/
theorem depth_of_firstViolation {validator : PlanValidator} {root : N} {failure : CompileError}
    (h : validator.firstViolation root .root = some failure) :
    failure.path.depth ≤ validator.maxDepth + 1 := by
  have hbelow : ∀ (path : NodePath) (node : N) (index : Nat),
      validator.violation? node path = none →
      (path.child index).depth ≤ validator.maxDepth + 1 := by
    intro path node index hnode
    rw [NodePath.depth_child]
    exact Nat.succ_le_succ (violation?_eq_none_iff.mp hnode).1
  have hroot : NodePath.root.depth ≤ validator.maxDepth + 1 := Nat.zero_le _
  obtain ⟨place, node, hplace, hfault⟩ :=
    TreeNode.exists_reached_of_firstFault (fun path => path.depth ≤ _) hbelow hroot h
  rwa [path_of_violation? hfault]

/-- The validation fails with what the first node is refused with that is not admitted. -/
theorem validate_eq_error_iff {validator : PlanValidator} {root : N} {failure : CompileError} :
    validator.validate root = .error failure ↔
      ∃ before path node after, TreeNode.located root = before ++ (path, node) :: after ∧
        (∀ earlier ∈ before, validator.Admits earlier.1 earlier.2) ∧
        validator.Refuses path node failure := by
  have herror : validator.validate root = .error failure ↔
      validator.firstViolation root .root = some failure := by
    rw [validate_eq]
    cases validator.firstViolation root .root <;> simp
  rw [herror]
  constructor
  · intro h
    have hdepth := depth_of_firstViolation h
    obtain ⟨before, ⟨path, node⟩, after, hlocated, hnode, hbefore⟩ :=
      TreeNode.firstFault_eq_some_iff.mp h
    rw [path_of_violation? hnode] at hdepth
    exact ⟨before, path, node, after, hlocated,
      fun earlier hearlier => violation?_eq_none_iff.mp (hbefore earlier hearlier),
      (violation?_eq_some_iff hdepth).mp hnode⟩
  · rintro ⟨before, path, node, after, hlocated, hbefore, hrefuses⟩
    have hdepth : path.depth ≤ validator.maxDepth + 1 := by
      cases hrefuses with
      | tooDeep hdepth => exact Nat.le_of_eq hdepth
      | malformed hdepth _ => exact Nat.le_succ_of_le hdepth
    exact TreeNode.firstFault_eq_some_iff.mpr ⟨before, (path, node), after, hlocated,
      (violation?_eq_some_iff hdepth).mpr hrefuses,
      fun earlier hearlier => violation?_eq_none_iff.mpr (hbefore earlier hearlier)⟩

variable {low high : PlanValidator} (hle : low.maxDepth ≤ high.maxDepth)

include hle

theorem Admits.mono {path : NodePath} {node : N} (h : low.Admits path node) :
    high.Admits path node :=
  ⟨Nat.le_trans h.1 hle, h.2⟩

/-- A higher limit makes no difference where the lower one was not exceeded. -/
theorem validate_eq_of_le {root : N}
    (hlow : ∀ kind path depth limit,
      low.validate root ≠ .error (.tooDeep kind path depth limit)) :
    high.validate root = low.validate root := by
  cases hvalid : low.validate root with
  | ok _ =>
      apply validate_eq_ok_iff.mpr
      intro place hplace
      exact Admits.mono hle (validate_eq_ok_iff.mp hvalid place hplace)
  | error failure =>
      obtain ⟨before, path, node, after, hlocated, hbefore, hrefuses⟩ :=
        validate_eq_error_iff.mp hvalid
      apply validate_eq_error_iff.mpr
      refine ⟨before, path, node, after, hlocated, ?_, ?_⟩
      · exact fun earlier hearlier => (hbefore earlier hearlier).mono hle
      · cases hrefuses with
        | tooDeep hdepth => exact absurd hvalid (hlow _ _ _ _)
        | malformed hdepth hdefect => exact .malformed (Nat.le_trans hdepth hle) hdefect

end PlanValidator

namespace Compiler

/-- The same compiler with another limit. -/
def withLimit (compiler : Compiler N E) (limit : UInt64) : Compiler N E :=
  { compiler with options := { compiler.options with maxPlanDepth := limit } }

theorem prepare_eq_error_of_validate {compiler : Compiler N E} {root : N} {failure : CompileError}
    (h : compiler.validator.validate root = .error failure) (mode : Mode) :
    compiler.prepare root mode = .error failure := by
  rw [prepare_eq, h]
  rfl

/-- Under a higher limit a compilation comes to the same, unless the lower limit was exceeded. -/
theorem prepare_eq_of_limit_le (compiler : Compiler N E) {low high : UInt64} (hle : low ≤ high)
    {root : N} {mode : Mode}
    (hlow : ∀ kind path depth limit,
      (compiler.withLimit low).prepare root mode ≠ .error (.tooDeep kind path depth limit)) :
    (compiler.withLimit high).prepare root mode = (compiler.withLimit low).prepare root mode := by
  have hshallow : ∀ kind path depth limit, (compiler.withLimit low).validator.validate root ≠
      .error (.tooDeep kind path depth limit) :=
    fun kind path depth limit h => hlow kind path depth limit (prepare_eq_error_of_validate h mode)
  have hvalid : (compiler.withLimit high).validator.validate root =
      (compiler.withLimit low).validator.validate root :=
    PlanValidator.validate_eq_of_le (UInt64.le_iff_toNat_le.mp hle) hshallow
  rw [prepare_eq, prepare_eq, hvalid]
  rfl

end Compiler

/-- The validation finds exactly the first violation: it accepts a tree all of whose nodes are sound
and within the limit, and refuses any other one for the first node in pre-order that is not. The
compiler hands the refusal on, and does not depend on the limit as long as that is not exceeded. -/
theorem validation_finds_first_violation :
    (∀ (validator : PlanValidator) (root : N), validator.validate root = .ok () ↔
      ∀ place ∈ TreeNode.located root, validator.Admits place.1 place.2) ∧
    (∀ (validator : PlanValidator) (root : N) (failure : CompileError),
      validator.validate root = .error failure ↔
        ∃ before path node after, TreeNode.located root = before ++ (path, node) :: after ∧
          (∀ earlier ∈ before, validator.Admits earlier.1 earlier.2) ∧
          validator.Refuses path node failure) ∧
    (∀ (compiler : Compiler N E) (root : N) (mode : Mode) (failure : CompileError),
      compiler.validator.validate root = .error failure →
      compiler.prepare root mode = .error failure) ∧
    ∀ (compiler : Compiler N E) (low high : UInt64) (root : N) (mode : Mode), low ≤ high →
      (∀ kind path depth limit,
        (compiler.withLimit low).prepare root mode ≠ .error (.tooDeep kind path depth limit)) →
      (compiler.withLimit high).prepare root mode = (compiler.withLimit low).prepare root mode := by
  refine ⟨?_, ?_, ?_, ?_⟩
  · exact fun _ _ => PlanValidator.validate_eq_ok_iff
  · exact fun _ _ _ => PlanValidator.validate_eq_error_iff
  · exact fun _ _ mode _ h => Compiler.prepare_eq_error_of_validate h mode
  · exact fun compiler _ _ _ _ hle hlow => compiler.prepare_eq_of_limit_le hle hlow

/-- A sort without keys, and behind it a fault left over. -/
def keylessSort : Operator :=
  .filter (.sort (.global "t") []) (.err "unresolved")

/-- The sort is refused before the fault behind it, by a compiler without strategies too and under
any limit from one on; a limit of zero is exceeded by the sort before its defect counts. -/
theorem validation_finds_first_violation_keylessSort :
    (⟨0⟩ : PlanValidator).validate keylessSort = .error (.tooDeep "Sort" ⟨[0]⟩ 1 0) ∧
    (⟨1⟩ : PlanValidator).validate keylessSort = .error (.malformed "Sort" ⟨[0]⟩ "排序键为空") ∧
    (⟨[], {}⟩ : Compiler Operator Expr).prepare keylessSort .permissive =
      .error (.malformed "Sort" ⟨[0]⟩ "排序键为空") ∧
    (Compiler.standard.withLimit 512).prepare keylessSort .strict =
      (Compiler.standard.withLimit 1).prepare keylessSort .strict := by
  have hlocated : TreeNode.located keylessSort = [(⟨[]⟩, keylessSort)] ++
      (⟨[0]⟩, .sort (.global "t") []) :: [(⟨[0, 0]⟩, .global "t"), (⟨[1]⟩, .err "unresolved")] := by
    with_unfolding_all rfl
  obtain ⟨_, hrefused, hprepare, hlimit⟩ :=
    validation_finds_first_violation (N := Operator) (E := Expr)
  refine ⟨?_, ?_, ?_, ?_⟩
  · apply (hrefused _ _ _).mpr
    refine ⟨_, _, _, _, hlocated, ?_, .tooDeep rfl⟩
    simp [PlanValidator.Admits, keylessSort, NodePath.depth, TreeNode.defect?, Operator.defect?]
  · apply (hrefused _ _ _).mpr
    refine ⟨_, _, _, _, hlocated, ?_, .malformed (Nat.le_refl 1) rfl⟩
    simp [PlanValidator.Admits, keylessSort, NodePath.depth, TreeNode.defect?, Operator.defect?]
  · apply hprepare
    with_unfolding_all rfl
  · apply hlimit _ _ _ _ _ (by decide)
    intro kind path depth limit h
    have hmalformed : (Compiler.standard.withLimit 1).prepare keylessSort .strict =
        .error (.malformed "Sort" ⟨[0]⟩ "排序键为空") := by
      apply hprepare
      with_unfolding_all rfl
    rw [hmalformed] at h
    cases h

end PlanLowering
