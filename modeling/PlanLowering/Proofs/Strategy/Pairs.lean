import PlanLowering.Tree.Fields
import Mathlib.Data.List.Basic

/-!
Members of a list taken two by two, as the fields of a node hold pairs of children.
-/

namespace PlanLowering

/-- The pairs that lie in a list one after the other; a single last member is left out. -/
def pairsOf {α : Type} : List α → List (α × α)
  | left :: right :: others => (left, right) :: pairsOf others
  | _ => []

variable {α β γ : Type}

@[simp] theorem inPairs_cons (pair : α × α) (pairs : List (α × α)) :
    inPairs (pair :: pairs) = pair.1 :: pair.2 :: inPairs pairs :=
  rfl

@[simp] theorem length_inPairs (pairs : List (α × α)) :
    (inPairs pairs).length = 2 * pairs.length := by
  induction pairs with
  | nil => rfl
  | cons pair pairs ih =>
      simp only [inPairs_cons, List.length_cons, ih]
      omega

@[simp] theorem pairsOf_inPairs (pairs : List (α × α)) : pairsOf (inPairs pairs) = pairs := by
  induction pairs with
  | nil => rfl
  | cons pair pairs ih => rw [inPairs_cons, pairsOf, ih]

@[simp] theorem pairsOf_inPairs_append_singleton (pairs : List (α × α)) (last : α) :
    pairsOf (inPairs pairs ++ [last]) = pairs := by
  induction pairs with
  | nil => rfl
  | cons pair pairs ih => rw [inPairs_cons, List.cons_append, List.cons_append, pairsOf, ih]

theorem fst_mem_inPairs {pairs : List (α × α)} {pair : α × α} (h : pair ∈ pairs) :
    pair.1 ∈ inPairs pairs :=
  List.mem_flatMap.mpr ⟨pair, h, List.mem_cons_self⟩

theorem snd_mem_inPairs {pairs : List (α × α)} {pair : α × α} (h : pair ∈ pairs) :
    pair.2 ∈ inPairs pairs :=
  List.mem_flatMap.mpr ⟨pair, h, List.mem_cons_of_mem _ List.mem_cons_self⟩

theorem forall_mem_inPairs {property : α → Prop} {pairs : List (α × α)} :
    (∀ member ∈ inPairs pairs, property member) ↔
      ∀ pair ∈ pairs, property pair.1 ∧ property pair.2 := by
  induction pairs with
  | nil => exact ⟨nofun, nofun⟩
  | cons pair pairs ih =>
      rw [inPairs_cons, List.forall_mem_cons, List.forall_mem_cons, ih, List.forall_mem_cons,
        and_assoc]

theorem inPairs_map (f : α → β) (pairs : List (α × α)) :
    (inPairs pairs).map f = inPairs (pairs.map (Prod.map f f)) := by
  induction pairs with
  | nil => rfl
  | cons pair pairs ih => rw [inPairs_cons, List.map_cons, List.map_cons, List.map_cons,
      inPairs_cons, ih, Prod.map_fst, Prod.map_snd]

/-- A list of pairs is determined by its first and its second members. -/
theorem eq_of_map_fst_of_map_snd {pairs others : List (α × β)}
    (hfst : pairs.map (·.1) = others.map (·.1)) (hsnd : pairs.map (·.2) = others.map (·.2)) :
    pairs = others := by
  rw [← List.zip_unzip pairs, ← List.zip_unzip others, List.unzip_eq_map, List.unzip_eq_map]
  exact congrArg₂ List.zip hfst hsnd

theorem map_fst_mapFst (f : α → β) (pairs : List (α × γ)) :
    (pairs.map fun pair => (f pair.1, pair.2)).map (·.1) = (pairs.map (·.1)).map f := by
  rw [List.map_map, List.map_map]
  rfl

theorem map_snd_mapFst (f : α → β) (pairs : List (α × γ)) :
    (pairs.map fun pair => (f pair.1, pair.2)).map (·.2) = pairs.map (·.2) := by
  rw [List.map_map]
  rfl

/-- Pairs are determined by their members. -/
theorem inPairs_injective : Function.Injective (@inPairs α) := by
  intro pairs others h
  rw [← pairsOf_inPairs pairs, h, pairsOf_inPairs]

/-- A list that is long enough begins with a given number of pairs. -/
theorem exists_inPairs_append {count left : Nat} {members : List α}
    (h : members.length = 2 * count + left) :
    ∃ pairs others, pairs.length = count ∧ others.length = left ∧
      members = inPairs pairs ++ others := by
  induction count generalizing members with
  | zero => exact ⟨[], members, rfl, by omega, rfl⟩
  | succ count ih =>
      match members, h with
      | [], h | [_], h =>
          simp only [List.length_cons, List.length_nil] at h
          omega
      | first :: second :: others, h =>
          have hothers : others.length = 2 * count + left := by
            simp only [List.length_cons] at h
            omega
          obtain ⟨pairs, rest, hpairs, hrest, rfl⟩ := ih hothers
          exact ⟨(first, second) :: pairs, rest, by rw [List.length_cons, hpairs], hrest, rfl⟩

end PlanLowering
