import PlanLowering.Proofs.Number.Spelling
import PlanLowering.Proofs.Strategy.Raising

/-!
The vocabulary that the evaluation has to know. `Expr.Conforms` says what a node may look like in a
mode, in the words of expressions alone, and an expression is physical if all its nodes conform. The
physical expressions are exactly the roots of the statements of that mode.
-/

namespace PlanLowering

@[simp]
theorem SetQuantifier.isDistinct_ofDistinct (isDistinct : Bool) :
    (ofDistinct isDistinct).isDistinct = isDistinct := by
  cases isDistinct <;> rfl

namespace Expr

/-- The children that permissive mode wraps. -/
def guardedParts : Expr → List Expr
  | project _ projections => projections
  | collection _ values => values
  | struct fields => fields.map (·.2)
  | select _ constructor _ => [constructor]
  | _ => []

/-- The children that no mode wraps. -/
def bareParts : Expr → List Expr
  | project input _ => [input]
  | collection _ _ => []
  | struct fields => fields.map (·.1)
  | select rel _ _ => [rel]
  | e => e.children

/-- The node bears the mark of the mode, if it is one that can bear it. -/
def FlaggedFor (mode : Mode) : Expr → Prop
  | scan _ isPermissive | scanIndexed _ isPermissive | unpivot _ isPermissive
  | pivot _ _ _ isPermissive => isPermissive = mode.isPermissive
  | _ => True

/-- What holds of the node in both modes: its lists are not empty and its name is not blank, depth
and bound are in range, a limit is not above a sort it could be fused with, and rows are said to be
ordered if they come from a sort. -/
def WellFormed : Expr → Prop
  | project _ projections => projections ≠ []
  | sort _ specs => specs ≠ []
  | topN _ specs n => specs ≠ [] ∧ n.toNat ≤ 2 ^ 63 - 1
  | case branches _ => branches ≠ []
  | exclude _ paths => paths ≠ []
  | call function _ => ∃ c ∈ function.toList, Text.isBlank c = false
  | varOuter depth _ => 1 ≤ depth.toNat
  | limit input bound =>
    ¬ ((∃ source specs, input = sort source specs) ∧
      ∃ n : Int64, 0 ≤ n.toInt ∧ bound = literal (.int n))
  | select rel _ ordered => ordered = true ↔ ∃ source specs, rel = sort source specs
  | _ => True

/-- The node is in the vocabulary of the mode. What a wrapper holds is bare, so wrappers are never
doubled. -/
structure Conforms (mode : Mode) (e : Expr) : Prop where
  flagged : e.FlaggedFor mode
  guarded : ∀ part ∈ e.guardedParts, part.kind = .permissive ↔ mode = .permissive
  bare : ∀ part ∈ e.bareParts, part.kind ≠ .permissive
  wellFormed : e.WellFormed

/-- All nodes are in the vocabulary of the mode, and the whole is not wrapped. -/
structure Physical (mode : Mode) (e : Expr) : Prop where
  bare : e.kind ≠ .permissive
  conforms : ∀ node ∈ TreeNode.nodes e, node.Conforms mode

theorem mem_parts_of_mem_children {e child : Expr} (h : child ∈ e.children) :
    child ∈ e.guardedParts ∨ child ∈ e.bareParts := by
  cases e with
  | project input projections =>
      rcases List.mem_cons.mp h with rfl | hprojection
      · exact Or.inr List.mem_cons_self
      · exact Or.inl hprojection
  | collection kind values => exact Or.inl h
  | struct fields =>
      obtain ⟨field, hfield, hchild⟩ := List.mem_flatMap.mp h
      rcases List.mem_pair.mp hchild with rfl | rfl
      · exact Or.inr (List.mem_map_of_mem hfield)
      · exact Or.inl (List.mem_map_of_mem hfield)
  | select rel constructor ordered =>
      rcases List.mem_pair.mp h with rfl | rfl
      · exact Or.inr List.mem_cons_self
      · exact Or.inl List.mem_cons_self
  | _ => exact Or.inr h

theorem mem_children_of_mem_guardedParts {e part : Expr} (h : part ∈ e.guardedParts) :
    part ∈ e.children := by
  cases e with
  | project => exact List.mem_cons_of_mem _ h
  | collection => exact h
  | struct fields =>
      obtain ⟨field, hfield, rfl⟩ := List.mem_map.mp h
      exact snd_mem_inPairs hfield
  | select =>
      rw [List.mem_singleton.mp h]
      exact List.mem_cons_of_mem _ List.mem_cons_self
  | _ => cases h

section Wrapping

variable {mode : Mode} {e : Expr}

theorem kind_handled (h : e.kind ≠ .permissive) :
    (e.handled mode).kind = .permissive ↔ mode = .permissive := by
  cases mode with
  | strict => simpa [handled] using h
  | permissive =>
      unfold handled
      split <;> simp_all [kind]

theorem unwrapped_eq_self (h : e.kind ≠ .permissive) : e.unwrapped = e := by
  cases e with
  | permissive value => exact absurd rfl h
  | _ => rfl

/-- A part that is wrapped when the mode wants it is what the mode makes of the value in it. -/
theorem handled_unwrapped (hkind : e.kind = .permissive ↔ mode = .permissive)
    (hbare : ∀ part ∈ e.bareParts, part.kind ≠ .permissive) :
    e.unwrapped.handled mode = e := by
  cases mode with
  | strict => exact unwrapped_eq_self fun h => Mode.noConfusion (hkind.mp h)
  | permissive =>
      cases e with
      | permissive value =>
          have hvalue : value.kind ≠ .permissive := hbare value List.mem_cons_self
          rw [unwrapped, unwrapped_eq_self hvalue]
          cases value with
          | permissive => exact absurd rfl hvalue
          | _ => rfl
      | _ => exact absurd (hkind.mpr rfl) (by simp [kind])

/-- What the mode makes of a physical value is in the vocabulary. -/
theorem Physical.conforms_handled (h : e.Physical mode) :
    ∀ node ∈ TreeNode.nodes (e.handled mode), node.Conforms mode := by
  cases mode with
  | strict => exact h.conforms
  | permissive =>
      have hwrapped : e.handled .permissive = permissive e := by
        cases e with
        | permissive => exact absurd rfl h.bare
        | _ => rfl
      rw [hwrapped, TreeNode.forall_mem_nodes_iff]
      refine ⟨⟨trivial, nofun, ?_, trivial⟩, ?_⟩
      · intro part hpart
        rw [List.mem_singleton.mp hpart]
        exact h.bare
      · intro child hchild
        rw [List.mem_singleton.mp hchild]
        exact h.conforms

end Wrapping

/-- A bare expression raises to a sort if it is one: a fused limit raises to a limit. -/
theorem kind_raise_eq_sort_iff {e : Expr} (hbare : e.kind ≠ .permissive) :
    e.raise.kind = .sort ↔ ∃ source keys, e = sort source keys := by
  constructor
  · intro hkind
    cases e with
    | sort source keys => exact ⟨source, keys, rfl⟩
    | permissive => exact absurd rfl hbare
    | _ =>
        rw [raise] at hkind
        cases hkind
  · rintro ⟨source, keys, rfl⟩
    rw [raise]
    rfl

theorem eq_literal_of_raise {e : Expr} (hbare : e.kind ≠ .permissive) {value : Value}
    (h : e.raise = .lit value) : e = literal value := by
  cases e with
  | literal other =>
      rw [raise] at h
      rw [Operator.lit.inj h]
  | permissive => exact absurd rfl hbare
  | _ =>
      rw [raise] at h
      cases h

end Expr

namespace Standard

variable {mode : Mode} {node : Operator} {inputs : List Expr}

section Plain

variable (hfits : Fits node inputs)

include hfits

theorem guardedParts_plain {part : Expr} (hpart : part ∈ (plain mode node inputs).guardedParts) :
    ∃ input ∈ inputs, part = input.handled mode := by
  cases hfits with
  | project input projections e others =>
      obtain ⟨projection, hprojection, rfl⟩ := List.mem_map.mp hpart
      exact ⟨projection, List.mem_cons_of_mem e hprojection, rfl⟩
  | collection kind values =>
      obtain ⟨value, hvalue, rfl⟩ := List.mem_map.mp hpart
      exact ⟨value, hvalue, rfl⟩
  | struct fields pairs =>
      rw [plain_struct, Expr.guardedParts, List.map_map] at hpart
      obtain ⟨field, hfield, rfl⟩ := List.mem_map.mp hpart
      exact ⟨field.2, snd_mem_inPairs hfield, rfl⟩
  | select rel constructor e e' =>
      exact ⟨e', by simp, List.mem_singleton.mp hpart⟩
  | var depth offset =>
      rw [plain] at hpart
      split at hpart <;> cases hpart
  | _ => cases hpart

theorem bareParts_plain {part : Expr} (hpart : part ∈ (plain mode node inputs).bareParts) :
    part ∈ inputs := by
  cases hfits with
  | project input projections e others =>
      rw [List.mem_singleton.mp hpart]
      exact List.mem_cons_self
  | sort input specs e keys horders =>
      rw [plain_sort mode input e horders] at hpart
      exact hpart
  | collection kind values => cases hpart
  | case branches default pairs e =>
      rw [plain_case] at hpart
      exact hpart
  | struct fields pairs =>
      rw [plain_struct, Expr.bareParts, List.map_map] at hpart
      obtain ⟨field, hfield, rfl⟩ := List.mem_map.mp hpart
      have hmem : field.1 ∈ inPairs pairs := fst_mem_inPairs hfield
      exact hmem
  | select rel constructor e e' =>
      rw [List.mem_singleton.mp hpart]
      exact List.mem_cons_self
  | var depth offset =>
      rw [plain] at hpart
      split at hpart <;> cases hpart
  | _ => exact hpart

theorem flaggedFor_plain : (plain mode node inputs).FlaggedFor mode := by
  cases hfits with
  | var depth offset =>
      rw [plain]
      split <;> trivial
  | scan | scanIndexed | unpivot | pivot => rfl
  | _ => trivial

theorem kind_plain : (plain mode node inputs).kind ≠ .permissive := by
  cases hfits with
  | var depth offset =>
      rw [plain]
      split <;> exact ExprKind.noConfusion
  | _ => exact ExprKind.noConfusion

/-- What a sound node says is in the vocabulary, if its inputs raise to its children and it was not
to be fused. -/
theorem wellFormed_plain (hnode : node.defect? = none)
    (hinputs : inputs.map Expr.raise = node.children)
    (hbare : ∀ input ∈ inputs, input.kind ≠ .permissive) (hfused : fused? node inputs = none) :
    (plain mode node inputs).WellFormed := by
  cases hfits with
  | project input projections e others hlength =>
      cases projections with
      | nil => cases hnode
      | cons =>
          intro hempty
          simp [List.map_eq_nil_iff.mp hempty] at hlength
  | sort input specs e keys horders =>
      rw [plain_sort mode input e horders]
      cases specs with
      | nil => cases hnode
      | cons =>
          rintro rfl
          cases horders
  | exclude input paths e =>
      cases paths with
      | nil => cases hnode
      | cons => exact List.cons_ne_nil _ _
  | case branches default pairs e hlength =>
      rw [plain_case]
      cases branches with
      | nil => cases hnode
      | cons =>
          rintro rfl
          cases hlength
  | call function args others =>
      have hname : Text.isBlankText function = false := by
        by_contra hblank
        simp [Operator.defect?, hblank] at hnode
      simpa [plain, Expr.WellFormed, Text.isBlankText] using hname
  | var depth offset =>
      rw [plain]
      split
      · trivial
      · next hdepth =>
          change 1 ≤ depth.toNat
          have hne : depth.toNat ≠ 0 := fun h => hdepth (UInt64.toNat.inj h)
          omega
  | limit input bound e e' =>
      obtain ⟨hinput, hbound⟩ := List.cons.inj hinputs
      rintro ⟨⟨source, keys, rfl⟩, n, hn, rfl⟩
      have hraised : bound = .lit (.int n) := by
        rw [← List.head_eq_of_cons_eq hbound, Expr.raise]
      rw [← hinput, hraised, Expr.raise, fused?, if_pos hn] at hfused
      cases hfused
  | select rel constructor e e' =>
      obtain rfl : e.raise = rel := (List.cons.inj hinputs).1
      change decide (e.raise.kind = .sort) = true ↔ ∃ source specs, e = .sort source specs
      rw [decide_eq_true_eq]
      exact Expr.kind_raise_eq_sort_iff (hbare e List.mem_cons_self)
  | _ => trivial

end Plain

/-- A step makes a physical expression of physical inputs: the step of its kind does, and a fused
limit holds the parts of its sort. -/
theorem physical_combine (hfits : Fits node inputs) (hnode : node.defect? = none)
    (hraise : inputs.map Expr.raise = node.children)
    (hinputs : ∀ input ∈ inputs, input.Physical mode) :
    (combine true mode node inputs).Physical mode := by
  rw [combine, if_pos rfl]
  cases hfused : fused? node inputs with
  | none =>
      refine ⟨kind_plain hfits, TreeNode.forall_mem_nodes_iff.mpr ⟨⟨flaggedFor_plain hfits, ?_, ?_,
        wellFormed_plain hfits hnode hraise (fun input h => (hinputs input h).bare) hfused⟩, ?_⟩⟩
      · intro part hpart
        obtain ⟨input, hinput, rfl⟩ := guardedParts_plain hfits hpart
        exact Expr.kind_handled (hinputs input hinput).bare
      · intro part hpart
        exact (hinputs part (bareParts_plain hfits hpart)).bare
      · intro child hchild
        rcases Expr.mem_parts_of_mem_children hchild with hpart | hpart
        · obtain ⟨input, hinput, rfl⟩ := guardedParts_plain hfits hpart
          exact (hinputs input hinput).conforms_handled
        · exact (hinputs child (bareParts_plain hfits hpart)).conforms
  | some e =>
      obtain ⟨input, specs, n, source, keys, others, rfl, rfl, hn, rfl⟩ := fused?_eq_some hfused
      obtain ⟨hsort, hparts⟩ :=
        TreeNode.forall_mem_nodes_iff.mp (hinputs _ List.mem_cons_self).conforms
      refine ⟨ExprKind.noConfusion, TreeNode.forall_mem_nodes_iff.mpr
        ⟨⟨trivial, List.forall_mem_nil _, hsort.bare, hsort.wellFormed, ?_⟩, hparts⟩⟩
      exact toInt_nonneg_iff.mp hn

/-- Every sound plan is lowered to a physical expression. -/
theorem physical_lowered (mode : Mode) {plan : Operator} (hplan : TreeNode.Sound plan) :
    (lowered true mode plan).Physical mode := by
  induction hplan with
  | @intro node hnode hchildren ih =>
      rw [lowered_eq]
      apply physical_combine (fits_lowered hnode true mode) hnode
      · rw [List.map_map]
        exact (List.map_congr_left fun child hchild =>
          raise_lowered true mode (hchildren child hchild)).trans (List.map_id _)
      · exact List.forall_mem_map.mpr ih

section Raised

variable {e : Expr}

theorem children_raise (hbare : e.kind ≠ .permissive) (hplain : e.kind ≠ .topN) :
    e.raise.children = e.children.map Expr.raise := by
  cases e with
  | topN => exact absurd rfl hplain
  | permissive => exact absurd rfl hbare
  | case branches default =>
      rw [Expr.raise, Operator.children, Expr.children, List.map_append, inPairs_map]
      rfl
  | struct fields =>
      rw [Expr.raise, Operator.children, Expr.children, inPairs_map]
      rfl
  | sort input specs =>
      rw [Expr.raise, Operator.children, Expr.children, map_fst_mapFst, List.map_cons]
  | _ => simp [Expr.raise, Operator.children, Expr.children]

/-- What a conforming node raises to has no defect. -/
theorem defect?_raise (hwell : e.WellFormed) (hbare : e.kind ≠ .permissive) :
    e.raise.defect? = none := by
  cases e with
  | permissive => exact absurd rfl hbare
  | project input projections =>
      cases projections with
      | nil => exact absurd rfl hwell
      | cons => rw [Expr.raise]; rfl
  | sort input specs =>
      cases specs with
      | nil => exact absurd rfl hwell
      | cons => rw [Expr.raise]; rfl
  | case branches default =>
      cases branches with
      | nil => exact absurd rfl hwell
      | cons => rw [Expr.raise]; rfl
  | exclude input paths =>
      cases paths with
      | nil => exact absurd rfl hwell
      | cons => rw [Expr.raise]; rfl
  | call function args =>
      obtain ⟨c, hc, hblank⟩ := hwell
      have hname : Text.isBlankText function = false := by
        simpa [Text.isBlankText] using ⟨c, hc, hblank⟩
      rw [Expr.raise, Operator.defect?, hname]
      rfl
  | _ =>
      rw [Expr.raise]
      rfl

/-- The step of its kind gives a conforming node back, if its parts are taken out of their
wrappers. -/
theorem plain_raise (hnode : e.Conforms mode)
    (hchildren : ∀ child ∈ e.children, child.Conforms mode)
    (hbare : e.kind ≠ .permissive) (hplain : e.kind ≠ .topN) :
    plain mode e.raise (e.children.map Expr.unwrapped) = e := by
  have hguarded : ∀ part ∈ e.guardedParts, part.unwrapped.handled mode = part := by
    intro part hpart
    have hconforms := hchildren part (Expr.mem_children_of_mem_guardedParts hpart)
    exact Expr.handled_unwrapped (hnode.guarded part hpart) hconforms.bare
  have hparts : ∀ part ∈ e.bareParts, part.unwrapped = part :=
    fun part hpart => Expr.unwrapped_eq_self (hnode.bare part hpart)
  have hflagged := hnode.flagged
  have hwell := hnode.wellFormed
  cases e with
  | topN => exact absurd rfl hplain
  | permissive => exact absurd rfl hbare
  | scan rex isPermissive | scanIndexed rex isPermissive | unpivot rex isPermissive =>
      obtain rfl : isPermissive = mode.isPermissive := hflagged
      rw [Expr.children, List.map_singleton, hparts rex List.mem_cons_self, Expr.raise, plain]
  | pivot rel key value isPermissive =>
      obtain rfl : isPermissive = mode.isPermissive := hflagged
      have hmap : [rel, key, value].map Expr.unwrapped = [rel, key, value] :=
        (List.map_congr_left hparts).trans (List.map_id _)
      rw [Expr.children, hmap, Expr.raise, plain]
  | project input projections =>
      have hmap : (projections.map Expr.unwrapped).map (Expr.handled mode) = projections := by
        rw [List.map_map]
        exact (List.map_congr_left hguarded).trans (List.map_id _)
      rw [Expr.children, List.map_cons, hparts input List.mem_cons_self, Expr.raise, plain, hmap]
  | collection kind values =>
      have hmap : (values.map Expr.unwrapped).map (Expr.handled mode) = values := by
        rw [List.map_map]
        exact (List.map_congr_left hguarded).trans (List.map_id _)
      rw [Expr.children, Expr.raise, plain, hmap]
  | struct fields =>
      have hmap : fields.map (fun field => (field.1.unwrapped, field.2.unwrapped.handled mode)) =
          fields := by
        refine (List.map_congr_left fun field hfield => ?_).trans (List.map_id _)
        rw [hparts _ (List.mem_map_of_mem hfield), hguarded _ (List.mem_map_of_mem hfield), id]
      rw [Expr.children, Expr.raise, plain_struct_map, hmap]
  | case branches default =>
      have hmap : (inPairs branches ++ [default]).map Expr.unwrapped =
          inPairs branches ++ [default] :=
        (List.map_congr_left hparts).trans (List.map_id _)
      rw [List.map_append, inPairs_map] at hmap
      obtain ⟨hbranches, hdefault⟩ := List.append_inj' hmap rfl
      rw [Expr.children, Expr.raise, plain_case_map, inPairs_injective hbranches,
        List.head_eq_of_cons_eq hdefault]
  | sort input specs =>
      have hspecs : specs.map (fun spec => (spec.1.unwrapped, spec.2)) = specs := by
        refine (List.map_congr_left fun spec hspec => ?_).trans (List.map_id _)
        rw [hparts _ (List.mem_cons_of_mem _ (List.mem_map_of_mem hspec)), id]
      rw [Expr.children, Expr.raise, plain_sort_map, hspecs, hparts input List.mem_cons_self]
      exact (map_snd_mapFst Expr.raise specs).symm
  | select rel constructor ordered =>
      have hordered : decide (rel.raise.kind = .sort) = ordered := by
        have hrel : rel.kind ≠ .permissive := hnode.bare rel List.mem_cons_self
        rw [Bool.eq_iff_iff, decide_eq_true_eq]
        exact (Expr.kind_raise_eq_sort_iff hrel).trans hwell.symm
      rw [Expr.children, List.map_cons, List.map_singleton, hparts rel List.mem_cons_self,
        Expr.raise, plain, hguarded constructor List.mem_cons_self, hordered]
  | setOp kind isDistinct lhs rhs =>
      have hmap : [lhs, rhs].map Expr.unwrapped = [lhs, rhs] :=
        (List.map_congr_left hparts).trans (List.map_id _)
      rw [Expr.children, hmap, Expr.raise, plain, SetQuantifier.isDistinct_ofDistinct]
  | projectAll input isDistinct =>
      rw [Expr.children, List.map_singleton, hparts input List.mem_cons_self, Expr.raise, plain,
        SetQuantifier.isDistinct_ofDistinct]
  | varLocal slot =>
      rw [Expr.raise, plain, if_pos rfl]
  | varOuter depth slot =>
      have hdepth : depth ≠ 0 := by
        rintro rfl
        exact Nat.not_succ_le_zero 0 hwell
      rw [Expr.raise, plain, if_neg hdepth]
  | _ =>
      have hmap := (List.map_congr_left hparts).trans (List.map_id _)
      rw [Expr.raise]
      simp only [Expr.bareParts, Expr.children] at hmap ⊢
      rw [hmap]
      rfl

/-- Nothing is left to be fused in a conforming node that is no fused limit itself. -/
theorem fused?_raise (hnode : e.Conforms mode) (hplain : e.kind ≠ .topN)
    (hbare : e.kind ≠ .permissive) : fused? e.raise (e.children.map Expr.unwrapped) = none := by
  cases e with
  | topN => exact absurd rfl hplain
  | permissive => exact absurd rfl hbare
  | limit input bound =>
      have hinput : input.kind ≠ .permissive := hnode.bare input List.mem_cons_self
      have hbound : bound.kind ≠ .permissive :=
        hnode.bare bound (List.mem_cons_of_mem _ List.mem_cons_self)
      apply fused?_eq_none
      apply Bool.eq_false_iff.mpr
      intro haccepts
      obtain ⟨source, specs, n, hlimit, hn⟩ := topN_accepts_iff.mp haccepts
      rw [Expr.raise] at hlimit
      obtain ⟨hsort, hliteral⟩ := Operator.limit.inj hlimit
      have hsort' : ∃ source keys, input = .sort source keys := by
        apply (Expr.kind_raise_eq_sort_iff hinput).mp
        rw [hsort]
        rfl
      exact hnode.wellFormed ⟨hsort', n, hn, Expr.eq_literal_of_raise hbound hliteral⟩
  | _ =>
      rw [Expr.raise]
      rfl

/-- A node comes back from what it raises to if its parts do. -/
theorem lowered_raise_plain (hnode : e.Conforms mode)
    (hchildren : ∀ child ∈ e.children, child.Conforms mode)
    (hbare : e.kind ≠ .permissive) (hplain : e.kind ≠ .topN)
    (hlowered : ∀ child ∈ e.children,
      TreeNode.Sound child.raise ∧ lowered true mode child.raise = child.unwrapped) :
    TreeNode.Sound e.raise ∧ lowered true mode e.raise = e := by
  have hraise := children_raise hbare hplain
  constructor
  · refine .intro (defect?_raise hnode.wellFormed hbare) ?_
    change ∀ child ∈ e.raise.children, TreeNode.Sound child
    rw [hraise, List.forall_mem_map]
    exact fun child hchild => (hlowered child hchild).1
  · have hinputs : e.raise.children.map (lowered true mode) = e.children.map Expr.unwrapped := by
      rw [hraise, List.map_map]
      exact List.map_congr_left fun child hchild => (hlowered child hchild).2
    rw [lowered_eq, hinputs, combine, if_pos rfl, fused?_raise hnode hplain hbare]
    exact plain_raise hnode hchildren hbare hplain

/-- A fused limit comes back from the limit above a sort that it raises to. -/
theorem lowered_raise_topN {input : Expr} {specs : List (Expr × SortOrder)} {n : UInt64}
    (hbound : n.toNat ≤ 2 ^ 63 - 1)
    (hsort : TreeNode.Sound (Expr.sort input specs).raise ∧
      lowered true mode (Expr.sort input specs).raise = .sort input specs) :
    TreeNode.Sound (Expr.topN input specs n).raise ∧
      lowered true mode (Expr.topN input specs n).raise = .topN input specs n := by
  have hn : 0 ≤ n.toInt64.toInt := by
    rw [toInt_nonneg_iff, UInt64.toUInt64_toInt64]
    exact hbound
  have hlit : TreeNode.Sound (Operator.lit (.int n.toInt64)) := .intro rfl nofun
  have hraise : (Expr.topN input specs n).raise =
      .limit (Expr.sort input specs).raise (.lit (.int n.toInt64)) := by
    rw [Expr.raise, Expr.raise]
  rw [hraise]
  constructor
  · refine .intro rfl ?_
    intro child hchild
    rcases List.mem_pair.mp hchild with rfl | rfl
    · exact hsort.1
    · exact hlit
  · rw [lowered_eq, Operator.children, List.map_cons, hsort.2, Expr.raise, combine, if_pos rfl,
      fused?, if_pos hn, Option.getD_some, UInt64.toUInt64_toInt64]

/-- Every physical expression comes back from a sound plan, the one it raises to. -/
theorem lowered_raise {e : Expr} (he : ∀ node ∈ TreeNode.nodes e, node.Conforms mode) :
    TreeNode.Sound e.raise ∧ lowered true mode e.raise = e.unwrapped := by
  induction e using TreeNode.induction with
  | step e ih =>
      obtain ⟨hnode, hbelow⟩ := TreeNode.forall_mem_nodes_iff.mp he
      have hchildren : ∀ child ∈ e.children, child.Conforms mode :=
        fun child hchild => (TreeNode.forall_mem_nodes_iff.mp (hbelow child hchild)).1
      have hlowered : ∀ child ∈ e.children,
          TreeNode.Sound child.raise ∧ lowered true mode child.raise = child.unwrapped :=
        fun child hchild => ih child hchild (hbelow child hchild)
      cases e with
      | permissive value =>
          rw [Expr.raise, Expr.unwrapped]
          exact hlowered value List.mem_cons_self
      | topN input specs n =>
          -- the sort below the limit has the parts of the fused limit
          have hsort : (Expr.sort input specs).Conforms mode :=
            ⟨trivial, List.forall_mem_nil _, hnode.bare, hnode.wellFormed.1⟩
          exact lowered_raise_topN hnode.wellFormed.2
            (lowered_raise_plain hsort hchildren ExprKind.noConfusion ExprKind.noConfusion hlowered)
      | _ =>
          exact lowered_raise_plain hnode hchildren ExprKind.noConfusion ExprKind.noConfusion
            hlowered

end Raised

/-- The physical expressions of a mode are the roots of its statements, the depth limit left aside:
each is lowered from the plan that it raises to, as soon as the limit is not below the depth of that
plan. -/
theorem exists_prepare_eq_iff_physical :
    ∀ (options : CompilerOptions) (mode : Mode) (e : Expr),
      (∃ plan, (Compiler.standard.withOptions options).prepare plan mode = .ok ⟨e, mode⟩) ↔
        e.Physical mode ∧ ∀ place ∈ TreeNode.located e.raise,
          place.1.depth ≤ options.maxPlanDepth.toNat := by
  intro options mode e
  constructor
  · rintro ⟨plan, hprepare⟩
    obtain rfl : e.raise = plan := (raise_of_prepare hprepare).1
    rw [prepare_standard] at hprepare
    cases hvalid : (Compiler.standard.withOptions options).validator.validate e.raise with
    | error failure =>
        rw [hvalid] at hprepare
        cases hprepare
    | ok _ =>
        rw [hvalid] at hprepare
        have hlowered : lowered true mode e.raise = e :=
          congrArg Statement.root (Except.ok.inj hprepare)
        have hphysical := physical_lowered mode (PlanValidator.sound_of_validate hvalid)
        rw [hlowered] at hphysical
        exact ⟨hphysical, fun place hplace =>
          (PlanValidator.validate_eq_ok_iff.mp hvalid place hplace).1⟩
  · rintro ⟨hphysical, hdepth⟩
    obtain ⟨hsound, hlowered⟩ := lowered_raise hphysical.conforms
    refine ⟨e.raise, ?_⟩
    have hvalid : (Compiler.standard.withOptions options).validator.validate e.raise = .ok () :=
      PlanValidator.validate_of_sound hsound hdepth
    rw [prepare_standard, hvalid, hlowered, Expr.unwrapped_eq_self hphysical.bare]
    rfl

end Standard

end PlanLowering
