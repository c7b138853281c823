import PlanLowering.Proofs.Json.Trimming
import PlanLowering.Proofs.Plan.RoundTrip

/-!
Plans whose texts have lost fields. Eight fields may be absent, and each of them then stands for
what a plan has there by default; without any other field the text of a plan is refused for what it
says, wherever the field was.
-/

namespace PlanLowering

open Decoder

namespace Operator

/-- Where the records of a written plan lie, and the eight of their fields that may be absent. -/
def layout : Json.Layout where
  recordUnder
    | "specs" => some "SortSpec"
    | "branches" => some "CaseBranch"
    | "fields" => some "StructField"
    | "paths" => some "ExcludePath"
    | _ => none
  default?
    | "ProjectAll", "quantifier" | "SetOp", "quantifier" => some (.string "All")
    | "SortSpec", "order" => some (.string "AscNullsLast")
    | "Var", "depth" => some (.nat 0)
    | "Call", "args" | "Collection", "values" | "Struct", "fields" | "TupleUnion", "args" =>
      some (.array [])
    | _, _ => none

section Scalars

variable (n : Nat) (record : Option String)

theorem survives_text (expected text : String) :
    Survives layout n (string expected) record (.string text) text :=
  .scalar rfl (recovers_string expected text) trivial

theorem survives_uint64 (expected : String) (number : UInt64) :
    Survives layout n (uint64 expected) record (.uint64 number) number :=
  .scalar rfl (recovers_uint64 number) trivial

theorem survives_vocabulary {α : Type} [Named α] (member : α) :
    Survives layout n (vocabulary α) record (.named member) member :=
  .scalar rfl (recovers_vocabulary n member) trivial

/-- Nothing can be taken out of a literal value. -/
theorem survives_value {value : Value} (hnone : value.floats fun _ => False) :
    Survives layout (n + 1) Value.decoder none value.toJson value := by
  refine .whole (fun json' lost htrims => ?_) (recovers_value n value) hnone
  cases value with
  | null | missing => exact Json.Layout.trims_scalar rfl htrims
  | float x =>
      rw [Value.floats] at hnone
      exact hnone.elim
  | _ => exact Json.Layout.trims_carrying rfl htrims

theorem survives_excludeStep (step : ExcludeStep) :
    Survives layout (n + 1) ExcludeStep.decoder none step.toJson step := by
  refine .whole (fun json' lost htrims => ?_) (recovers_excludeStep n step) trivial
  cases step with
  | structWildcard | collWildcard => exact Json.Layout.trims_scalar rfl htrims
  | _ => exact Json.Layout.trims_carrying rfl htrims

theorem survives_excludePath (path : ExcludePath) :
    Survives layout (n + 3) ExcludePath.decoder (some "ExcludePath") path.toJson path := by
  have hsteps : Survives layout (n + 2) (list ExcludeStep.decoder) none
      (.array (path.steps.map ExcludeStep.toJson)) path.steps :=
    .list fun step _ => survives_excludeStep n step
  have hrow : Trimmable layout (n + 2) "ExcludePath"
      (.needed "root" (uint64 "usize") <| .needed "steps" (list ExcludeStep.decoder) .done)
      [("root", .uint64 path.root), ("steps", .array (path.steps.map ExcludeStep.toJson))]
      (path.root, path.steps, ()) :=
    .field (survives_uint64 _ _ "usize" path.root) (.needed rfl)
      (.field hsteps (.needed rfl) .done)
  exact (Survives.record "struct ExcludePath" hrow (by simp)).map
    fun row => ExcludePath.mk row.1 row.2.1

end Scalars

/-! ### What stands for absent fields -/

section Defaults

theorem restores_quantifier {record : String}
    (hlayout : layout.default? record "quantifier" = some (.string "All"))
    (quantifier : SetQuantifier) :
    Restores layout record "quantifier" (.named quantifier) quantifier (some default) :=
  .optional hlayout fun h => Named.name_injective (Json.string.inj h)

theorem restores_order (order : SortOrder) :
    Restores layout "SortSpec" "order" (.named order) order (some default) :=
  .optional rfl fun h => Named.name_injective (Json.string.inj h)

theorem restores_depth (depth : UInt64) :
    Restores layout "Var" "depth" (.uint64 depth) depth (some 0) := by
  refine .optional rfl fun h => ?_
  have hnumeral : Numeral.ofNat (0 : UInt64).toNat = Numeral.ofNat depth.toNat := Json.number.inj h
  have hread := congrArg JsonNumber.ofNumeral? hnumeral
  rw [JsonNumber.ofNumeral?_ofNat, JsonNumber.ofNumeral?_ofNat] at hread
  exact JsonNumber.unsigned.inj (Option.some.inj hread)

theorem restores_list {α : Type} {record name : String} {write : α → Json}
    (hlayout : layout.default? record name = some (.array [])) (values : List α) :
    Restores layout record name (.array (values.map write)) values (some []) :=
  .optional hlayout fun h => (List.map_eq_nil_iff.mp (Json.array.inj h).symm).symm

theorem restores_plans {record name : String}
    (hlayout : layout.default? record name = some (.array [])) (plans : List Operator) :
    Restores layout record name (.array (listToJson plans)) plans (some []) := by
  rw [listToJson_eq_map]
  exact restores_list hlayout plans

end Defaults

section Step

variable {n : Nat} {self : Decoder Operator}

theorem survives_node {α : Type} {name label : String} {build : α → Operator} {fields : Fields α}
    {entries : List (String × Json)} {value : α} {plan : Operator}
    (hfind : (variants self).find? (fun variant => variant.name == name) =
      some ⟨name, .single (build <$> record label fields)⟩)
    (h : Trimmable layout n name fields entries value) (hplan : build value = plan)
    (hnames : (entries.map Prod.fst).Nodup) :
    Survives layout (n + 2) (Decoder.variant (variants self)) none
      (Json.variant name (.object entries)) plan := by
  subst hplan
  exact .variant hfind ((Survives.record label h hnames).map build)

theorem survives_list {plans : List Operator}
    (hplans : ∀ plan ∈ plans, Survives layout n self none plan.toJson plan) :
    Survives layout n (list self) none (.array (listToJson plans)) plans := by
  rw [listToJson_eq_map]
  exact (Survives.list hplans).mono (Nat.le_succ n)

theorem survives_specs {specs : List (Operator × SortOrder)}
    (hspecs : ∀ plan ∈ specs.map (·.1), Survives layout n self none plan.toJson plan) :
    Survives layout n (list (variants.sortSpec self)) (some "SortSpec")
      (.array (specsToJson specs)) specs := by
  have hspec : ∀ spec ∈ specs, Survives layout (n + 1) (variants.sortSpec self) (some "SortSpec")
      (.object [("rex", spec.1.toJson), ("order", .named spec.2)]) spec := by
    intro spec hmem
    exact Survives.twoFields "struct SortSpec" (by simp)
      (hspecs spec.1 (List.mem_map_of_mem hmem)) (.needed rfl)
      (survives_vocabulary n _ spec.2) (restores_order spec.2)
  rw [specsToJson_eq_map]
  exact (Survives.list hspec).mono (by omega)

/-- Pairs of plans, each of them a record with two fields that are needed. -/
theorem survives_pairs {record first second : String} (label : String) (hne : first ≠ second)
    (hfirst : layout.recordUnder first = none ∧ layout.default? record first = none)
    (hsecond : layout.recordUnder second = none ∧ layout.default? record second = none)
    {pairs : List (Operator × Operator)}
    (hpairs : ∀ plan ∈ inPairs pairs, Survives layout n self none plan.toJson plan) :
    Survives layout n
      (list ((fun (a, b, ()) => (a, b)) <$>
        Decoder.record label (.needed first self <| .needed second self .done)))
      (some record) (.array (pairs.map fun pair =>
        .object [(first, pair.1.toJson), (second, pair.2.toJson)])) pairs := by
  refine (Survives.list fun pair hmem => ?_).mono (Nat.le_add_right n 2)
  refine Survives.twoFields label hne ?_ (.needed hfirst.2) ?_ (.needed hsecond.2)
  · rw [hfirst.1]
    exact hpairs pair.1 (fst_mem_inPairs hmem)
  · rw [hsecond.1]
    exact hpairs pair.2 (snd_mem_inPairs hmem)

theorem survives_branches {branches : List (Operator × Operator)}
    (hbranches : ∀ plan ∈ inPairs branches, Survives layout n self none plan.toJson plan) :
    Survives layout n (list (variants.caseBranch self)) (some "CaseBranch")
      (.array (branchesToJson branches)) branches := by
  rw [branchesToJson_eq_map]
  exact survives_pairs "struct CaseBranch" (by simp) ⟨rfl, rfl⟩ ⟨rfl, rfl⟩ hbranches

theorem survives_fields {fields : List (Operator × Operator)}
    (hfields : ∀ plan ∈ inPairs fields, Survives layout n self none plan.toJson plan) :
    Survives layout n (list (variants.structField self)) (some "StructField")
      (.array (fieldsToJson fields)) fields := by
  rw [fieldsToJson_eq_map]
  exact survives_pairs "struct StructField" (by simp) ⟨rfl, rfl⟩ ⟨rfl, rfl⟩ hfields

/-- One level of the reader judges what is left of a plan if the next one does so with its
children. -/
theorem survives_step {plan : Operator} (hnone : plan.floats fun _ => False)
    (hchildren : ∀ child ∈ plan.children, Survives layout n self none child.toJson child) :
    Survives layout (n + 2) (Decoder.variant (variants self)) none plan.toJson plan := by
  rw [toJson.eq_def]
  cases plan with
  | lit value =>
      have hvalue := (survives_value n ((floats_lit value _).mp hnone)).mono (Nat.le_succ n)
      exact survives_node rfl (.field hvalue (.needed rfl) .done) rfl (by simp)
  | scan rex | scanIndexed rex | unpivot rex | distinct rex =>
      have hrex := hchildren rex (by simp [children])
      exact survives_node rfl (.field hrex (.needed rfl) .done) rfl (by simp)
  | filter a b | limit a b | offset a b | pathKey a b | pathIndex a b | select a b =>
      have ha := hchildren a (by simp [children])
      have hb := hchildren b (by simp [children])
      exact survives_node rfl (.field ha (.needed rfl) (.field hb (.needed rfl) .done)) rfl
        (by simp)
  | pivot rel key value =>
      have hrel := hchildren rel (by simp [children])
      have hkey := hchildren key (by simp [children])
      have hvalue := hchildren value (by simp [children])
      exact survives_node rfl
        (.field hrel (.needed rfl) (.field hkey (.needed rfl) (.field hvalue (.needed rfl) .done)))
        rfl (by simp)
  | project input projections =>
      have hinput := hchildren input (by simp [children])
      have hprojections := survives_list fun plan hplan =>
        hchildren plan (List.mem_cons_of_mem input hplan)
      exact survives_node rfl
        (.field hinput (.needed rfl) (.field hprojections (.needed rfl) .done)) rfl (by simp)
  | projectAll input quantifier =>
      have hinput := hchildren input (by simp [children])
      exact survives_node rfl
        (.field hinput (.needed rfl) (.field (survives_vocabulary n _ quantifier)
          (restores_quantifier rfl quantifier) .done)) rfl (by simp)
  | sort input specs =>
      have hinput := hchildren input (by simp [children])
      have hspecs : Survives layout n (list (variants.sortSpec self)) (some "SortSpec")
          (.array (specsToJson specs)) specs :=
        survives_specs fun plan hplan => hchildren plan (List.mem_cons_of_mem input hplan)
      exact survives_node rfl
        (.field hinput (.needed rfl) (.field hspecs (.needed rfl) .done)) rfl (by simp)
  | join lhs rhs condition joinType =>
      have hlhs := hchildren lhs (by simp [children])
      have hrhs := hchildren rhs (by simp [children])
      have hcondition := hchildren condition (by simp [children])
      exact survives_node rfl
        (.field hlhs (.needed rfl) (.field hrhs (.needed rfl) (.field hcondition (.needed rfl)
          (.field (survives_vocabulary n _ joinType) (.needed rfl) .done)))) rfl (by simp)
  | exclude input paths =>
      have hinput := hchildren input (by simp [children])
      have hpaths : Survives layout n (list ExcludePath.decoder) (some "ExcludePath")
          (.array (paths.map ExcludePath.toJson)) paths :=
        (Survives.list fun path _ => survives_excludePath n path).mono (Nat.le_add_right n 4)
      exact survives_node rfl
        (.field hinput (.needed rfl) (.field hpaths (.needed rfl) .done)) rfl (by simp)
  | setOp kind quantifier lhs rhs =>
      have hlhs := hchildren lhs (by simp [children])
      have hrhs := hchildren rhs (by simp [children])
      exact survives_node rfl
        (.field (survives_vocabulary n _ kind) (.needed rfl)
          (.field (survives_vocabulary n _ quantifier) (restores_quantifier rfl quantifier)
            (.field hlhs (.needed rfl) (.field hrhs (.needed rfl) .done)))) rfl (by simp)
  | var depth place =>
      exact survives_node rfl
        (.field (survives_uint64 n _ "usize" depth) (restores_depth depth)
          (.field (survives_uint64 n _ "usize" place) (.needed rfl) .done)) rfl (by simp)
  | global text | err text =>
      exact survives_node rfl
        (.field (survives_text n _ "a string" text) (.needed rfl) .done) rfl (by simp)
  | pathSymbol root text | cast root text =>
      have hroot := hchildren root (by simp [children])
      exact survives_node rfl
        (.field hroot (.needed rfl)
          (.field (survives_text n _ "a string" text) (.needed rfl) .done)) rfl (by simp)
  | call function args =>
      have hargs := survives_list hchildren
      exact survives_node rfl
        (.field (survives_text n _ "a string" function) (.needed rfl)
          (.field hargs (restores_plans rfl args) .done)) rfl (by simp)
  | collection kind values =>
      have hvalues := survives_list hchildren
      exact survives_node rfl
        (.field (survives_vocabulary n _ kind) (.needed rfl)
          (.field hvalues (restores_plans rfl values) .done)) rfl (by simp)
  | tupleUnion args =>
      have hargs := survives_list hchildren
      exact survives_node rfl (.field hargs (restores_plans rfl args) .done) rfl (by simp)
  | case branches default =>
      have hbranches : Survives layout n (list (variants.caseBranch self)) (some "CaseBranch")
          (.array (branchesToJson branches)) branches :=
        survives_branches fun plan hplan => hchildren plan (List.mem_append_left _ hplan)
      have hdefault := hchildren default (by simp [children])
      exact survives_node rfl
        (.field hbranches (.needed rfl) (.field hdefault (.needed rfl) .done)) rfl (by simp)
  | struct fields =>
      have hfields : Survives layout n (list (variants.structField self)) (some "StructField")
          (.array (fieldsToJson fields)) fields :=
        survives_fields hchildren
      have habsent : Restores layout "Struct" "fields" (.array (fieldsToJson fields)) fields
          (some []) := by
        rw [fieldsToJson_eq_map]
        exact restores_list rfl fields
      exact survives_node rfl (.field hfields habsent .done) rfl (by simp)
  | subquery rel constructor coercion =>
      have hrel := hchildren rel (by simp [children])
      have hconstructor := hchildren constructor (by simp [children])
      exact survives_node rfl
        (.field hrel (.needed rfl) (.field hconstructor (.needed rfl)
          (.field (survives_vocabulary n _ coercion) (.needed rfl) .done))) rfl (by simp)

end Step

theorem floats_child {plan child : Operator} (hchild : child ∈ plan.children)
    {p : Binary64 → Prop} (hplan : plan.floats p) : child.floats p := by
  intro x hx
  apply hplan x
  rw [TreeNode.nodes_eq]
  exact List.mem_cons_of_mem plan (List.mem_flatMap.mpr ⟨child, hchild, hx⟩)

/-- Every level of the reader judges what is left of a plan: a node takes one of them, but two
brackets. -/
theorem survives_level (n : Nat) {plan : Operator} (hnone : plan.floats fun _ => False) :
    Survives layout n (recursive.level (fun self => Decoder.variant (variants self)) n) none
      plan.toJson plan := by
  induction n generalizing plan with
  | zero => exact .zero
  | succ n ih =>
      have hchildren := fun child (hchild : child ∈ plan.children) =>
        ih (floats_child hchild hnone)
      exact (survives_step hnone hchildren).mono (Nat.le_succ (n + 1))

/-- Take fields out of the text of a plan without floats that nests no deeper than may be read. If
each of them may be absent and held what then stands for it, the text is read as the same plan; if
one of them was needed, the text is refused for what it says. -/
theorem optional_fields_restored {plan : Operator}
    (hnone : ∀ x, lit (.float x) ∉ TreeNode.nodes plan)
    (hfits : Json.nesting (JsonLexer.lex plan.jsonText.toList) ≤ 127) {json : Json}
    {lost : List Json.LostField} (htrims : layout.Trims none plan.toJson json lost) :
    ((∀ field ∈ lost, layout.HeldDefault field) → ofJsonText json.text = .ok plan) ∧
      ((∃ field ∈ lost, ¬ layout.IsOptional field) →
        ∃ failure, ofJsonText json.text = .error failure ∧ failure.category = "Data") := by
  obtain ⟨outcome, hreads, hverdict⟩ := survives_level (maxNesting + 1) hnone json lost htrims
  have hread : ofJsonText json.text = outcome maxNesting :=
    ofText_of_reads (htrims.proper plan.proper_toJson) hreads
  rw [nesting_jsonText] at hfits
  have hjudged := hverdict maxNesting (Nat.lt_succ_self maxNesting) hfits
  rw [hread]
  refine ⟨hjudged.restored, fun hneeded => ?_⟩
  obtain ⟨misfit, hmisfit⟩ := hjudged.refused hneeded
  exact ⟨.data misfit, hmisfit, rfl⟩

/-- A sort whose text loses the order and the depth of its key, and then the name of its table
too. -/
theorem optional_fields_restored_sort :
    let plan := sort (global "t") [(var 0 1, .ascNullsLast)]
    let sortOf := fun table : List (String × Json) => Json.variant "Sort" (.object
      [("input", .variant "Global" (.object table)),
        ("specs", .array [.object [("rex", .variant "Var" (.object [("offset", .uint64 1)]))]])])
    ofJsonText (sortOf [("name", .string "t")]).text = .ok plan ∧
      ∃ failure, ofJsonText (sortOf []).text = .error failure ∧ failure.category = "Data" := by
  intro plan sortOf
  have hnone : ∀ x, lit (.float x) ∉ TreeNode.nodes plan := by
    simp [plan, TreeNode.nodes_eq, TreeNode.children, children]
  have hfits : Json.nesting (JsonLexer.lex plan.jsonText.toList) ≤ 127 := by
    rw [nesting_jsonText]
    decide
  have hspecs : layout.Trims (some "SortSpec") (.array (specsToJson [(var 0 1, .ascNullsLast)]))
      (.array [.object [("rex", .variant "Var" (.object [("offset", .uint64 1)]))]]) _ :=
    .array (.cons (.record (.keep (.variant (.record (.lose (.keep (.scalar rfl) .nil))))
      (.lose .nil))) .nil)
  have hkept : layout.Trims none plan.toJson (sortOf [("name", .string "t")]) _ :=
    .variant (.record (.keep (.variant (.record (.keep (.scalar rfl) .nil)))
      (.keep hspecs .nil)))
  have hlost : layout.Trims none plan.toJson (sortOf []) _ :=
    .variant (.record (.keep (.variant (.record (.lose .nil))) (.keep hspecs .nil)))
  refine ⟨(optional_fields_restored hnone hfits hkept).1 ?_,
    (optional_fields_restored hnone hfits hlost).2 ⟨⟨"Global", "name", .string "t"⟩, ?_, ?_⟩⟩
  · simp [Json.Layout.HeldDefault, layout, Json.uint64, Json.named, Named.name]
  · simp
  · simp [Json.Layout.IsOptional, layout]

end Operator

end PlanLowering
