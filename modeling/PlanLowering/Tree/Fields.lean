/-!
How the children of a node sit in its fields: alone, in optional fields, in lists, and in lists of
pairs. A child is smaller than the field that holds it.
-/

namespace PlanLowering

/-- The members of pairs, in order. -/
def inPairs {α : Type} (pairs : List (α × α)) : List α :=
  pairs.flatMap fun pair => [pair.1, pair.2]

variable {α β : Type} [SizeOf α] [SizeOf β]

theorem sizeOf_fst_lt {pairs : List (α × β)} {pair : α × β} (h : pair ∈ pairs) :
    sizeOf pair.1 < sizeOf pairs := by
  have := List.sizeOf_lt_of_mem h
  cases pair
  simp only [Prod.mk.sizeOf_spec] at this ⊢
  omega

theorem sizeOf_snd_lt {pairs : List (α × β)} {pair : α × β} (h : pair ∈ pairs) :
    sizeOf pair.2 < sizeOf pairs := by
  have := List.sizeOf_lt_of_mem h
  cases pair
  simp only [Prod.mk.sizeOf_spec] at this ⊢
  omega

theorem sizeOf_lt_of_mem_inPairs {pairs : List (α × α)} {child : α} (h : child ∈ inPairs pairs) :
    sizeOf child < sizeOf pairs := by
  obtain ⟨pair, hpair, hchild⟩ := List.mem_flatMap.mp h
  simp only [List.mem_cons, List.not_mem_nil, or_false] at hchild
  rcases hchild with rfl | rfl
  · exact sizeOf_fst_lt hpair
  · exact sizeOf_snd_lt hpair

theorem sizeOf_lt_of_mem_toList {field : Option α} {child : α} (h : child ∈ field.toList) :
    sizeOf child < sizeOf field := by
  cases field with
  | none => simp at h
  | some node =>
    obtain rfl : child = node := by simpa using h
    simp

end PlanLowering
