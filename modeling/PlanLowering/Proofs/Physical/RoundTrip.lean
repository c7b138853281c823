import PlanLowering.Physical.Json
import PlanLowering.Proofs.Json.RoundTrip
import PlanLowering.Proofs.Json.Scalars
import PlanLowering.Proofs.Strategy.Pairs
import PlanLowering.Proofs.Tree.PreOrder

/-!
Physical expressions and their texts. Any expression without floats, whether or not a plan is lowered
to it, comes back from its text as long as the text does not nest deeper than may be read. A node has
two brackets as a rule, but a wrapper only one.
-/

namespace PlanLowering

open Decoder

namespace Expr

/-- The float literals of an expression all have a property. -/
def floats (e : Expr) : Floats :=
  fun p => ∀ x, literal (.float x) ∈ TreeNode.nodes e → p x

theorem floats_literal (value : Value) (p : Binary64 → Prop) :
    (literal value).floats p ↔ value.floats p := by
  have hnodes : TreeNode.nodes (literal value) = [literal value] := TreeNode.nodes_eq _
  rw [floats, hnodes]
  cases value <;> simp [Value.floats]

/-- The floats of a node that is no literal are those of its children. -/
theorem floats_of_children {e : Expr} (h : e.kind ≠ .literal) (p : Binary64 → Prop) :
    e.floats p ↔ ∀ child ∈ e.children, child.floats p := by
  apply TreeNode.forall_leaf_iff
  rintro x rfl
  exact h rfl

theorem listToJson_eq_map (es : List Expr) : listToJson es = es.map toJson := by
  induction es with
  | nil => rfl
  | cons e es ih => rw [listToJson, ih, List.map_cons]

theorem keysToJson_eq_map (keys : List (Expr × SortOrder)) :
    keysToJson keys = keys.map fun key =>
      .object [("expr", key.1.toJson), ("order", .named key.2)] := by
  induction keys with
  | nil => rfl
  | cons key keys ih => rw [keysToJson, ih, List.map_cons]

theorem pairsToJson_eq_map (pairs : List (Expr × Expr)) :
    pairsToJson pairs = pairs.map fun pair => .array [pair.1.toJson, pair.2.toJson] := by
  induction pairs with
  | nil => rfl
  | cons pair pairs ih => rw [pairsToJson, ih, List.map_cons]

section Step

variable {n : Nat} {self : Decoder Expr}

/-- A node is recovered if its fields are, and the floats of its fields are those of its children. -/
theorem recovers_node {α : Type} {name label : String} {build : α → Expr} {fields : Fields α}
    {entries : List (String × Json)} {value : α} {floats : Floats} {e : Expr}
    (hfind : (variants self).find? (fun variant => variant.name == name) =
      some ⟨name, .fields (build <$> record label fields)⟩)
    (hrow : Row n fields entries value floats) (he : build value = e)
    (hnames : (entries.map Prod.fst).Nodup) (hkind : e.kind ≠ .literal)
    (hfloats : ∀ p, (∀ child ∈ e.children, child.floats p) ↔ floats p) :
    Recovers (n + 2) (Decoder.variant (variants self))
      (Json.variant name (.object entries)).tokens (Json.variant name (.object entries)).depth
      e e.floats := by
  subst he
  have hrecord := (Recovers.record label hrow hnames).map build
  refine (Recovers.carrying (.inr rfl) hfind hrecord).congr ?_
  exact fun p => (floats_of_children hkind p).trans (hfloats p)

variable (hself : RecoversAll n self toJson floats)

include hself

theorem recovers_list (es : List Expr) :
    Recovers n (list self) (Json.array (listToJson es)).tokens (Json.array (listToJson es)).depth
      es fun p => ∀ e ∈ es, e.floats p := by
  rw [listToJson_eq_map]
  exact (Recovers.list fun e _ => hself e).mono (Nat.le_succ n)

theorem recovers_keys (keys : List (Expr × SortOrder)) :
    Recovers n (list (keyDecoder self)) (Json.array (keysToJson keys)).tokens
      (Json.array (keysToJson keys)).depth keys fun p => ∀ key ∈ keys, key.1.floats p := by
  have hkey : ∀ key : Expr × SortOrder, Recovers (n + 1) (keyDecoder self)
      (Json.object [("expr", key.1.toJson), ("order", .named key.2)]).tokens
      (Json.object [("expr", key.1.toJson), ("order", .named key.2)]).depth key
      key.1.floats := by
    intro key
    refine (Recovers.twoFields "struct SortKey" none none (by simp) (hself key.1)
      (recovers_vocabulary n key.2)).congr ?_
    simp
  rw [keysToJson_eq_map]
  exact (Recovers.list fun key _ => hkey key).mono (by omega)

theorem recovers_pairs (pairs : List (Expr × Expr)) :
    Recovers n (list (pair self self)) (Json.array (pairsToJson pairs)).tokens
      (Json.array (pairsToJson pairs)).depth pairs
      fun p => ∀ child ∈ inPairs pairs, child.floats p := by
  have hpair := fun pair : Expr × Expr => (hself pair.1).pair (hself pair.2)
  rw [pairsToJson_eq_map]
  refine ((Recovers.list fun pair _ => hpair pair).mono (by omega)).congr ?_
  exact fun p => forall_mem_inPairs

/-- A wrapper takes one bracket of the room, for it carries its value and no record. -/
theorem recovers_permissive (value : Expr) :
    Recovers (n + 1) (Decoder.variant (variants self)) (permissive value).toJson.tokens
      (permissive value).toJson.depth (permissive value) (permissive value).floats := by
  rw [toJson]
  refine (Recovers.variant rfl ((hself value).map permissive)).congr fun p => ?_
  rw [floats_of_children ExprKind.noConfusion]
  simp [children]

/-- Every case names the fields of the node; that they are all its children is left to the last
argument. -/
theorem recovers_unwrapped {e : Expr} (h : e.kind ≠ .permissive) :
    Recovers (n + 2) (Decoder.variant (variants self)) e.toJson.tokens e.toJson.depth e
      e.floats := by
  have hexprs := recovers_list hself
  rw [toJson.eq_def]
  cases e with
  | permissive value => exact absurd rfl h
  | literal value =>
      have hvalue := (recovers_value n value).map literal
      exact (Recovers.variant rfl hvalue).congr fun p => floats_literal value p
  | scan rex marked | scanIndexed rex marked | unpivot rex marked =>
      exact recovers_node rfl (.field (hself rex) (.field (recovers_bool marked) .done)) rfl
        (by simp) ExprKind.noConfusion fun p => by simp [children]
  | filter a b | limit a b | offset a b | pathKey a b | pathIndex a b =>
      exact recovers_node rfl (.field (hself a) (.field (hself b) .done)) rfl (by simp)
        ExprKind.noConfusion fun p => by simp [children]
  | distinct input =>
      exact recovers_node rfl (.field (hself input) .done) rfl (by simp) ExprKind.noConfusion
        fun p => by simp [children]
  | project input projections =>
      exact recovers_node rfl (.field (hself input) (.field (hexprs projections) .done)) rfl
        (by simp) ExprKind.noConfusion fun p => by simp [children]
  | projectAll input unique =>
      exact recovers_node rfl (.field (hself input) (.field (recovers_bool unique) .done)) rfl
        (by simp) ExprKind.noConfusion fun p => by simp [children]
  | topN input specs size =>
      exact recovers_node rfl
        (.field (hself input) (.field (recovers_keys hself specs)
          (.field (recovers_uint64 size) .done)))
        rfl (by simp) ExprKind.noConfusion fun p => by simp [children]
  | sort input specs =>
      exact recovers_node rfl (.field (hself input) (.field (recovers_keys hself specs) .done)) rfl
        (by simp) ExprKind.noConfusion fun p => by simp [children]
  | join lhs rhs condition joinType =>
      exact recovers_node rfl
        (.field (hself lhs) (.field (hself rhs) (.field (hself condition)
          (.field (recovers_vocabulary n joinType) .done))))
        rfl (by simp) ExprKind.noConfusion fun p => by simp [children]
  | exclude input paths =>
      have hpaths := (Recovers.list fun path (_ : path ∈ paths) =>
        recovers_excludePath n path).mono (Nat.le_add_right n 4)
      exact recovers_node rfl (.field (hself input) (.field hpaths .done)) rfl (by simp)
        ExprKind.noConfusion fun p => by simp [children]
  | setOp kind unique lhs rhs =>
      exact recovers_node rfl
        (.field (recovers_vocabulary n kind) (.field (recovers_bool unique)
          (.field (hself lhs) (.field (hself rhs) .done))))
        rfl (by simp) ExprKind.noConfusion fun p => by simp [children]
  | varLocal place =>
      exact recovers_node rfl (.field (recovers_uint64 place) .done) rfl (by simp)
        ExprKind.noConfusion fun p => by simp [children]
  | varOuter depth place =>
      exact recovers_node rfl
        (.field (recovers_uint64 depth) (.field (recovers_uint64 place) .done)) rfl (by simp)
        ExprKind.noConfusion fun p => by simp [children]
  | global text =>
      exact recovers_node rfl (.field (recovers_string "a string" text) .done) rfl (by simp)
        ExprKind.noConfusion fun p => by simp [children]
  | pathSymbol root text | cast root text =>
      exact recovers_node rfl
        (.field (hself root) (.field (recovers_string "a string" text) .done)) rfl (by simp)
        ExprKind.noConfusion fun p => by simp [children]
  | call function args =>
      exact recovers_node rfl
        (.field (recovers_string "a string" function) (.field (hexprs args) .done)) rfl (by simp)
        ExprKind.noConfusion fun p => by simp [children]
  | case branches default =>
      exact recovers_node rfl
        (.field (recovers_pairs hself branches) (.field (hself default) .done)) rfl (by simp)
        ExprKind.noConfusion fun p => by simp [children, or_imp, forall_and]
  | collection kind values =>
      exact recovers_node rfl
        (.field (recovers_vocabulary n kind) (.field (hexprs values) .done)) rfl (by simp)
        ExprKind.noConfusion fun p => by simp [children]
  | struct fields =>
      exact recovers_node rfl (.field (recovers_pairs hself fields) .done) rfl (by simp)
        ExprKind.noConfusion fun p => by simp [children]
  | tupleUnion args =>
      exact recovers_node rfl (.field (hexprs args) .done) rfl (by simp) ExprKind.noConfusion
        fun p => by simp [children]
  | select rel constructor ordered =>
      exact recovers_node rfl
        (.field (hself rel) (.field (hself constructor) (.field (recovers_bool ordered) .done)))
        rfl (by simp) ExprKind.noConfusion fun p => by simp [children]
  | subquery rel constructor coercion =>
      exact recovers_node rfl
        (.field (hself rel) (.field (hself constructor)
          (.field (recovers_vocabulary n coercion) .done)))
        rfl (by simp) ExprKind.noConfusion fun p => by simp [children]
  | pivot rel key value marked =>
      exact recovers_node rfl
        (.field (hself rel) (.field (hself key) (.field (hself value)
          (.field (recovers_bool marked) .done))))
        rfl (by simp) ExprKind.noConfusion fun p => by simp [children]

/-- One level of the reader recovers an expression if the next one recovers its children. -/
theorem recovers_step (e : Expr) :
    Recovers (n + 1) (Decoder.variant (variants self)) e.toJson.tokens e.toJson.depth e
      e.floats := by
  by_cases h : e.kind = .permissive
  · cases e with
    | permissive value => exact recovers_permissive hself value
    | _ => cases h
  · exact (recovers_unwrapped hself h).mono (Nat.le_succ (n + 1))

end Step

@[simp]
theorem proper_keys {keys : List (Expr × SortOrder)} :
    (∀ json ∈ keysToJson keys, json.Proper) ↔ ∀ child ∈ keys.map (·.1), child.toJson.Proper := by
  rw [keysToJson_eq_map, List.forall_mem_map, List.forall_mem_map]
  simp

@[simp]
theorem proper_pairs {pairs : List (Expr × Expr)} :
    (∀ json ∈ pairsToJson pairs, json.Proper) ↔
      ∀ child ∈ inPairs pairs, child.toJson.Proper := by
  rw [pairsToJson_eq_map, List.forall_mem_map, forall_mem_inPairs]
  simp

/-- A node adds nothing but proper numerals to those of its children. -/
theorem proper_toJson_iff (e : Expr) :
    e.toJson.Proper ↔ ∀ child ∈ e.children, child.toJson.Proper := by
  cases e <;> simp [toJson, children, listToJson_eq_map, or_imp, forall_and]

theorem proper_toJson (e : Expr) : e.toJson.Proper := by
  induction e using TreeNode.induction with
  | step e ih => exact (proper_toJson_iff e).mpr ih

/-- An expression without floats comes back from its text exactly if this nests no deeper than may be
read; otherwise the text is refused as no JSON. -/
theorem jsonText_recovered_within_limit (e : Expr)
    (hfloats : ∀ x, literal (.float x) ∉ TreeNode.nodes e) :
    (Json.nesting (JsonLexer.lex e.jsonText.toList) ≤ 127 → ofJsonText e.jsonText = .ok e) ∧
      (127 < Json.nesting (JsonLexer.lex e.jsonText.toList) →
        ∃ failure, ofJsonText e.jsonText = .error failure ∧ failure.category = "Syntax") := by
  obtain ⟨outcome, hread, hfaithful⟩ :=
    ofText_text (fun _ _ hself e => recovers_step hself e) e e.proper_toJson
  have houtcome : ofJsonText e.jsonText = outcome maxNesting := hread
  rw [houtcome, jsonText, Json.nesting_text e.proper_toJson]
  exact hfaithful.ok_or_syntax hfloats

/-- Wrappers in each other around an expression with no sort key, the largest limit and a quoted name:
as many as the text can hold, and one more. -/
theorem jsonText_recovered_within_limit_wrapped :
    let wrapped (n : Nat) :=
      Nat.repeat permissive n (topN (global "a\"b\\c\n") [] 18446744073709551615)
    ofJsonText (wrapped 123).jsonText = .ok (wrapped 123) ∧
      ∃ failure, ofJsonText (wrapped 124).jsonText = .error failure ∧
        failure.category = "Syntax" := by
  intro wrapped
  have hfloats : ∀ n x, literal (.float x) ∉ TreeNode.nodes (wrapped n) := by
    intro n x
    induction n with
    | zero => simp [wrapped, Nat.repeat, TreeNode.nodes_eq, TreeNode.children, children]
    | succ n ih =>
        have hchild : TreeNode.children (wrapped (n + 1)) = [wrapped n] := rfl
        rw [TreeNode.nodes_eq, hchild]
        simpa [wrapped, Nat.repeat] using ih
  have hnesting : ∀ n, Json.nesting (JsonLexer.lex (wrapped n).jsonText.toList) =
      (wrapped n).toJson.depth :=
    fun n => Json.nesting_text (wrapped n).proper_toJson
  refine ⟨(jsonText_recovered_within_limit (wrapped 123) (hfloats 123)).1 ?_,
    (jsonText_recovered_within_limit (wrapped 124) (hfloats 124)).2 ?_⟩
  · rw [hnesting]
    decide +kernel
  · rw [hnesting]
    decide +kernel

end Expr

end PlanLowering
