import PlanLowering.Json.Basic

/-!
How deep a value is: the arrays and objects that lie in each other at most. The nesting counted
along its tokens is its depth.
-/

namespace PlanLowering.Json

mutual

/-- How many arrays and objects lie in each other at most, the value itself included. -/
def depth : Json → Nat
  | array items => itemsDepth items + 1
  | object fields => fieldsDepth fields + 1
  | _ => 0

def itemsDepth : List Json → Nat
  | [] => 0
  | item :: items => max item.depth (itemsDepth items)

def fieldsDepth : List (String × Json) → Nat
  | [] => 0
  | (_, value) :: fields => max value.depth (fieldsDepth fields)

end

/-- Along the tokens the nesting rises by so much at most and comes back. -/
def Climbs (tokens : List JsonToken) (height : Nat) : Prop :=
  ∀ current deepest, current ≤ deepest →
    tokens.foldl nesting.step (current, deepest) = (current, max deepest (current + height))

theorem climbs_nil : Climbs [] 0 := by
  intro current deepest h
  rw [List.foldl_nil, Nat.add_zero, Nat.max_eq_left h]

theorem Climbs.append {first second : List JsonToken} {height height' : Nat}
    (h : Climbs first height) (h' : Climbs second height') :
    Climbs (first ++ second) (max height height') := by
  intro current deepest hle
  have hle' : current ≤ max deepest (current + height) := Nat.le_trans hle (Nat.le_max_left _ _)
  rw [List.foldl_append, h current deepest hle, h' current _ hle', Nat.max_assoc,
    ← Nat.add_max_add_left]

/-- A token that is no bracket does not count. -/
theorem Climbs.cons {token : JsonToken} {tokens : List JsonToken} {height : Nat}
    (htoken : ∀ state, nesting.step state token = state) (h : Climbs tokens height) :
    Climbs (token :: tokens) height := by
  intro current deepest hle
  rw [List.foldl_cons, htoken, h current deepest hle]

theorem Climbs.bracketed {opening closing : JsonToken} {tokens : List JsonToken} {height : Nat}
    (hopening : ∀ state, nesting.step state opening = (state.1 + 1, max state.2 (state.1 + 1)))
    (hclosing : ∀ state, nesting.step state closing = (state.1 - 1, state.2))
    (h : Climbs tokens height) : Climbs (opening :: (tokens ++ [closing])) (height + 1) := by
  intro current deepest hle
  rw [List.foldl_cons, hopening, List.foldl_append, h _ _ (Nat.le_max_right _ _), List.foldl_cons,
    hclosing, List.foldl_nil]
  refine Prod.ext (Nat.add_sub_cancel current 1) ?_
  dsimp only
  omega

mutual

theorem climbs_tokens : ∀ json : Json, Climbs json.tokens json.depth
  | .null | .bool _ | .number _ | .string _ => climbs_nil.cons fun _ => rfl
  | .array [] => climbs_nil.bracketed (fun _ => rfl) fun _ => rfl
  | .array (item :: items) => by
      simp only [tokens, depth, itemsDepth, List.cons_append]
      exact ((climbs_tokens item).append (climbs_itemTokens items)).bracketed
        (fun _ => rfl) fun _ => rfl
  | .object [] => climbs_nil.bracketed (fun _ => rfl) fun _ => rfl
  | .object ((key, value) :: fields) => by
      simp only [tokens, depth, fieldsDepth, List.cons_append]
      have hinside : Climbs (.string key :: .colon :: (value.tokens ++ fieldTokens fields))
          (max value.depth (fieldsDepth fields)) :=
        (((climbs_tokens value).append (climbs_fieldTokens fields)).cons fun _ => rfl).cons
          fun _ => rfl
      exact hinside.bracketed (fun _ => rfl) fun _ => rfl

theorem climbs_itemTokens : ∀ items : List Json, Climbs (itemTokens items) (itemsDepth items)
  | [] => climbs_nil
  | item :: items => by
      simp only [itemTokens, itemsDepth, List.cons_append]
      exact ((climbs_tokens item).append (climbs_itemTokens items)).cons fun _ => rfl

theorem climbs_fieldTokens : ∀ fields : List (String × Json),
    Climbs (fieldTokens fields) (fieldsDepth fields)
  | [] => climbs_nil
  | (_, value) :: fields => by
      simp only [fieldTokens, fieldsDepth, List.cons_append]
      exact ((((climbs_tokens value).append (climbs_fieldTokens fields)).cons
        fun _ => rfl).cons fun _ => rfl).cons fun _ => rfl

end

/-- The nesting that is counted along the tokens of a value is its depth. -/
theorem nesting_tokens (json : Json) : nesting json.tokens = json.depth := by
  rw [nesting, climbs_tokens json 0 0 (Nat.le_refl 0), Nat.zero_add, Nat.zero_max]

end PlanLowering.Json
