import PlanLowering.Plan.Json
import PlanLowering.Proofs.Json.RoundTrip
import PlanLowering.Proofs.Json.Scalars
import PlanLowering.Proofs.Strategy.Pairs
import PlanLowering.Proofs.Tree.PreOrder

/-!
Plans and their texts. Each level of the reader takes the two brackets of a node, so a plan without
floats comes back from its text as long as the text does not nest deeper than may be read; otherwise
the text is refused as no JSON. A plan with a float that is not finite never comes back.
-/

namespace PlanLowering

open Decoder

namespace Operator

/-- The float literals of a plan all have a property. -/
def floats (plan : Operator) : Floats :=
  fun p => ∀ x, lit (.float x) ∈ TreeNode.nodes plan → p x

theorem floats_lit (value : Value) (p : Binary64 → Prop) :
    (lit value).floats p ↔ value.floats p := by
  have hnodes : TreeNode.nodes (lit value) = [lit value] := TreeNode.nodes_eq _
  rw [floats, hnodes]
  cases value <;> simp [Value.floats]

/-- The floats of a node that is no literal are those of its children. -/
theorem floats_of_children {plan : Operator} (h : plan.kind ≠ .lit) (p : Binary64 → Prop) :
    plan.floats p ↔ ∀ child ∈ plan.children, child.floats p := by
  apply TreeNode.forall_leaf_iff
  rintro x rfl
  exact h rfl

theorem listToJson_eq_map (plans : List Operator) : listToJson plans = plans.map toJson := by
  induction plans with
  | nil => rfl
  | cons plan plans ih => rw [listToJson, ih, List.map_cons]

theorem specsToJson_eq_map (specs : List (Operator × SortOrder)) :
    specsToJson specs = specs.map fun spec =>
      .object [("rex", spec.1.toJson), ("order", .named spec.2)] := by
  induction specs with
  | nil => rfl
  | cons spec specs ih => rw [specsToJson, ih, List.map_cons]

theorem branchesToJson_eq_map (branches : List (Operator × Operator)) :
    branchesToJson branches = branches.map fun branch =>
      .object [("condition", branch.1.toJson), ("result", branch.2.toJson)] := by
  induction branches with
  | nil => rfl
  | cons branch branches ih => rw [branchesToJson, ih, List.map_cons]

theorem fieldsToJson_eq_map (fields : List (Operator × Operator)) :
    fieldsToJson fields = fields.map fun field =>
      .object [("key", field.1.toJson), ("value", field.2.toJson)] := by
  induction fields with
  | nil => rfl
  | cons field fields ih => rw [fieldsToJson, ih, List.map_cons]

section Step

variable {n : Nat} {self : Decoder Operator}

/-- A node is recovered if its fields are, and the floats of its fields are those of its children. -/
theorem recovers_node {α : Type} {name label : String} {build : α → Operator} {fields : Fields α}
    {entries : List (String × Json)} {value : α} {floats : Floats} {plan : Operator}
    (hfind : (variants self).find? (fun variant => variant.name == name) =
      some ⟨name, .single (build <$> record label fields)⟩)
    (hrow : Row n fields entries value floats) (hplan : build value = plan)
    (hnames : (entries.map Prod.fst).Nodup) (hkind : plan.kind ≠ .lit)
    (hfloats : ∀ p, (∀ child ∈ plan.children, child.floats p) ↔ floats p) :
    Recovers (n + 2) (Decoder.variant (variants self))
      (Json.variant name (.object entries)).tokens (Json.variant name (.object entries)).depth
      plan plan.floats := by
  subst hplan
  have hrecord := (Recovers.record label hrow hnames).map build
  refine (Recovers.variant hfind hrecord).congr ?_
  exact fun p => (floats_of_children hkind p).trans (hfloats p)

variable (hself : RecoversAll n self toJson floats)

include hself

theorem recovers_list (plans : List Operator) :
    Recovers n (list self) (Json.array (listToJson plans)).tokens
      (Json.array (listToJson plans)).depth plans fun p => ∀ plan ∈ plans, plan.floats p := by
  rw [listToJson_eq_map]
  exact (Recovers.list fun plan _ => hself plan).mono (Nat.le_succ n)

theorem recovers_specs (specs : List (Operator × SortOrder)) :
    Recovers n (list (variants.sortSpec self)) (Json.array (specsToJson specs)).tokens
      (Json.array (specsToJson specs)).depth specs fun p => ∀ spec ∈ specs, spec.1.floats p := by
  have hspec : ∀ spec : Operator × SortOrder, Recovers (n + 1) (variants.sortSpec self)
      (Json.object [("rex", spec.1.toJson), ("order", .named spec.2)]).tokens
      (Json.object [("rex", spec.1.toJson), ("order", .named spec.2)]).depth spec
      spec.1.floats := by
    intro spec
    refine (Recovers.twoFields "struct SortSpec" none (some default) (by simp) (hself spec.1)
      (recovers_vocabulary n spec.2)).congr ?_
    simp
  rw [specsToJson_eq_map]
  exact (Recovers.list fun spec _ => hspec spec).mono (by omega)

/-- Pairs of plans, each of them a record with two fields. -/
theorem recovers_pairs (label : String) {first second : String} (hne : first ≠ second)
    (pairs : List (Operator × Operator)) :
    Recovers n (list ((fun (a, b, ()) => (a, b)) <$>
        record label (.needed first self <| .needed second self .done)))
      (Json.array (pairs.map fun pair =>
        .object [(first, pair.1.toJson), (second, pair.2.toJson)])).tokens
      (Json.array (pairs.map fun pair =>
        .object [(first, pair.1.toJson), (second, pair.2.toJson)])).depth
      pairs fun p => ∀ child ∈ inPairs pairs, child.floats p := by
  have hpair := fun pair : Operator × Operator =>
    Recovers.twoFields label none none hne (hself pair.1) (hself pair.2)
  refine ((Recovers.list fun pair _ => hpair pair).mono (by omega)).congr ?_
  exact fun p => forall_mem_inPairs

theorem recovers_branches (branches : List (Operator × Operator)) :
    Recovers n (list (variants.caseBranch self)) (Json.array (branchesToJson branches)).tokens
      (Json.array (branchesToJson branches)).depth branches
      fun p => ∀ child ∈ inPairs branches, child.floats p := by
  rw [branchesToJson_eq_map]
  exact recovers_pairs hself "struct CaseBranch" (by simp) branches

theorem recovers_fields (fields : List (Operator × Operator)) :
    Recovers n (list (variants.structField self)) (Json.array (fieldsToJson fields)).tokens
      (Json.array (fieldsToJson fields)).depth fields
      fun p => ∀ child ∈ inPairs fields, child.floats p := by
  rw [fieldsToJson_eq_map]
  exact recovers_pairs hself "struct StructField" (by simp) fields

/-- One level of the reader recovers a plan if the next one recovers its children. Every case names
the fields of the node; that they are all its children is left to the last argument. -/
theorem recovers_step (plan : Operator) :
    Recovers (n + 2) (Decoder.variant (variants self)) plan.toJson.tokens plan.toJson.depth plan
      plan.floats := by
  have hvalue := fun value => (recovers_value n value).mono (Nat.le_succ n)
  have hplans := recovers_list hself
  rw [toJson.eq_def]
  cases plan with
  | lit value =>
      have hrow : Row n (.needed "value" Value.decoder .done) [("value", value.toJson)] (value, ())
          _ := .field (hvalue value) .done
      have hrecord := (Recovers.record "struct Lit" hrow (by simp)).map fun row => lit row.1
      exact (Recovers.variant rfl hrecord).congr fun p => by simp [floats_lit]
  | scan rex | scanIndexed rex | unpivot rex | distinct rex =>
      exact recovers_node rfl (.field (hself rex) .done) rfl (by simp) OperatorKind.noConfusion
        fun p => by simp [children]
  | filter a b | limit a b | offset a b | pathKey a b | pathIndex a b | select a b =>
      exact recovers_node rfl (.field (hself a) (.field (hself b) .done)) rfl (by simp)
        OperatorKind.noConfusion fun p => by simp [children]
  | pivot rel key value =>
      exact recovers_node rfl
        (.field (hself rel) (.field (hself key) (.field (hself value) .done)))
        rfl (by simp) OperatorKind.noConfusion fun p => by simp [children]
  | project input projections =>
      exact recovers_node rfl (.field (hself input) (.field (hplans projections) .done))
        rfl (by simp) OperatorKind.noConfusion fun p => by simp [children]
  | projectAll input quantifier =>
      exact recovers_node rfl
        (.field (hself input) (.field (recovers_vocabulary n quantifier) .done))
        rfl (by simp) OperatorKind.noConfusion fun p => by simp [children]
  | sort input specs =>
      exact recovers_node rfl
        (.field (hself input) (.field (recovers_specs hself specs) .done))
        rfl (by simp) OperatorKind.noConfusion fun p => by simp [children]
  | join lhs rhs condition joinType =>
      exact recovers_node rfl
        (.field (hself lhs) (.field (hself rhs) (.field (hself condition)
          (.field (recovers_vocabulary n joinType) .done))))
        rfl (by simp) OperatorKind.noConfusion fun p => by simp [children]
  | exclude input paths =>
      have hpaths := (Recovers.list fun path (_ : path ∈ paths) =>
        recovers_excludePath n path).mono (Nat.le_add_right n 4)
      exact recovers_node rfl (.field (hself input) (.field hpaths .done))
        rfl (by simp) OperatorKind.noConfusion fun p => by simp [children]
  | setOp kind quantifier lhs rhs =>
      exact recovers_node rfl
        (.field (recovers_vocabulary n kind) (.field (recovers_vocabulary n quantifier)
          (.field (hself lhs) (.field (hself rhs) .done))))
        rfl (by simp) OperatorKind.noConfusion fun p => by simp [children]
  | var depth place =>
      exact recovers_node rfl
        (.field (recovers_uint64 depth) (.field (recovers_uint64 place) .done))
        rfl (by simp) OperatorKind.noConfusion fun p => by simp [children]
  | global text | err text =>
      exact recovers_node rfl (.field (recovers_string "a string" text) .done)
        rfl (by simp) OperatorKind.noConfusion fun p => by simp [children]
  | pathSymbol root text | cast root text =>
      exact recovers_node rfl
        (.field (hself root) (.field (recovers_string "a string" text) .done))
        rfl (by simp) OperatorKind.noConfusion fun p => by simp [children]
  | call function args =>
      exact recovers_node rfl
        (.field (recovers_string "a string" function) (.field (hplans args) .done))
        rfl (by simp) OperatorKind.noConfusion fun p => by simp [children]
  | case branches default =>
      exact recovers_node rfl
        (.field (recovers_branches hself branches) (.field (hself default) .done))
        rfl (by simp) OperatorKind.noConfusion fun p => by simp [children, or_imp, forall_and]
  | collection kind values =>
      exact recovers_node rfl
        (.field (recovers_vocabulary n kind) (.field (hplans values) .done))
        rfl (by simp) OperatorKind.noConfusion fun p => by simp [children]
  | struct fields =>
      exact recovers_node rfl (.field (recovers_fields hself fields) .done) rfl (by simp)
        OperatorKind.noConfusion fun p => by simp [children]
  | tupleUnion args =>
      exact recovers_node rfl (.field (hplans args) .done) rfl (by simp) OperatorKind.noConfusion
        fun p => by simp [children]
  | subquery rel constructor coercion =>
      exact recovers_node rfl
        (.field (hself rel) (.field (hself constructor)
          (.field (recovers_vocabulary n coercion) .done)))
        rfl (by simp) OperatorKind.noConfusion fun p => by simp [children]

end Step

@[simp]
theorem proper_specs {specs : List (Operator × SortOrder)} :
    (∀ json ∈ specsToJson specs, json.Proper) ↔ ∀ child ∈ specs.map (·.1), child.toJson.Proper := by
  rw [specsToJson_eq_map, List.forall_mem_map, List.forall_mem_map]
  simp

@[simp]
theorem proper_branches {branches : List (Operator × Operator)} :
    (∀ json ∈ branchesToJson branches, json.Proper) ↔
      ∀ child ∈ inPairs branches, child.toJson.Proper := by
  rw [branchesToJson_eq_map, List.forall_mem_map, forall_mem_inPairs]
  simp

@[simp]
theorem proper_fields {fields : List (Operator × Operator)} :
    (∀ json ∈ fieldsToJson fields, json.Proper) ↔
      ∀ child ∈ inPairs fields, child.toJson.Proper := by
  rw [fieldsToJson_eq_map, List.forall_mem_map, forall_mem_inPairs]
  simp

/-- A node adds nothing but proper numerals to those of its children. -/
theorem proper_toJson_iff (plan : Operator) :
    plan.toJson.Proper ↔ ∀ child ∈ plan.children, child.toJson.Proper := by
  cases plan <;> simp [toJson, children, listToJson_eq_map, or_imp, forall_and]

theorem proper_toJson (plan : Operator) : plan.toJson.Proper := by
  induction plan using TreeNode.induction with
  | step plan ih => exact (proper_toJson_iff plan).mpr ih

/-- What comes out of the text of a plan. A node takes one level of the reader, but two brackets of the
room. -/
theorem ofJsonText_jsonText (plan : Operator) : ∃ outcome,
    ofJsonText plan.jsonText = outcome maxNesting ∧
      Faithful (maxNesting + 1) plan.toJson.depth plan plan.floats outcome :=
  ofText_text (fun n _ hself plan => (recovers_step hself plan).mono (Nat.le_succ (n + 1))) plan
    plan.proper_toJson

theorem nesting_jsonText (plan : Operator) :
    Json.nesting (JsonLexer.lex plan.jsonText.toList) = plan.toJson.depth :=
  Json.nesting_text plan.proper_toJson

/-- A plan without floats comes back from its text exactly if this nests no deeper than may be read;
otherwise the text is refused as no JSON. A plan with a float that is no number or infinite never
comes back. -/
theorem jsonText_roundTrip (plan : Operator) :
    ((∀ x, lit (.float x) ∉ TreeNode.nodes plan) →
      (Json.nesting (JsonLexer.lex plan.jsonText.toList) ≤ 127 →
        ofJsonText plan.jsonText = .ok plan) ∧
      (127 < Json.nesting (JsonLexer.lex plan.jsonText.toList) →
        ∃ failure, ofJsonText plan.jsonText = .error failure ∧ failure.category = "Syntax")) ∧
    ∀ x, lit (.float x) ∈ TreeNode.nodes plan → x.isNaN ∨ x.isInfinite →
      ∃ failure, ofJsonText plan.jsonText = .error failure := by
  obtain ⟨outcome, hread, hfaithful⟩ := ofJsonText_jsonText plan
  have hroom : maxNesting < maxNesting + 1 := Nat.lt_succ_self maxNesting
  rw [nesting_jsonText, hread]
  constructor
  · intro hnone
    rw [hfaithful.exact hnone maxNesting hroom]
    constructor
    · intro hfits
      exact if_pos hfits
    · intro hdeep
      exact ⟨.text .grammar, if_neg (Nat.not_le_of_lt hdeep), rfl⟩
  · intro x hx hspecial
    cases houtcome : outcome maxNesting with
    | error failure => exact ⟨failure, rfl⟩
    | ok result =>
        have hfinite : x.isFinite := hfaithful.finite maxNesting hroom result houtcome x hx
        simp_all [Binary64.isNaN, Binary64.isInfinite, Binary64.isFinite]

/-- A plan with a quoted name and a negative number, one with a node too many for its text, and an
infinite float. -/
theorem jsonText_roundTrip_filter_deep_infinite :
    let plain := filter (scan (global "a\"b\\c\n")) (lit (.int (-1)))
    let deep := Nat.repeat distinct 63 (global "t")
    let infinite := distinct (lit (.float ⟨0x7ff0000000000000⟩))
    ofJsonText plain.jsonText = .ok plain ∧
      (∃ failure, ofJsonText deep.jsonText = .error failure ∧ failure.category = "Syntax") ∧
      ∃ failure, ofJsonText infinite.jsonText = .error failure := by
  intro plain deep infinite
  have hplain : ∀ x, lit (.float x) ∉ TreeNode.nodes plain := by
    simp [plain, TreeNode.nodes_eq, TreeNode.children, children]
  have hdeep : ∀ x, lit (.float x) ∉ TreeNode.nodes deep := by
    simp [deep, Nat.repeat, TreeNode.nodes_eq, TreeNode.children, children]
  have hinfinite : lit (.float ⟨0x7ff0000000000000⟩) ∈ TreeNode.nodes infinite := by
    simp [infinite, TreeNode.nodes_eq, TreeNode.children, children]
  refine ⟨((jsonText_roundTrip plain).1 hplain).1 ?_, ((jsonText_roundTrip deep).1 hdeep).2 ?_,
    (jsonText_roundTrip infinite).2 _ hinfinite (by decide)⟩
  · rw [nesting_jsonText]
    decide
  · rw [nesting_jsonText]
    decide +kernel

end Operator

end PlanLowering
