/-!
Finite vocabularies: types whose members are listed in order and known by name.
-/

namespace PlanLowering

/-- A vocabulary. Looking a member up by its name finds that member, so no two share a name and none
is missing from the list. -/
class Named (α : Type) where
  all : List α
  name : α → String
  find_name : ∀ member, all.find? (fun other => name other == name member) = some member

namespace Named

variable {α : Type} [Named α]

def ofName? (s : String) : Option α :=
  all.find? fun member => name member == s

@[simp] theorem ofName?_name (member : α) : ofName? (name member) = some member :=
  find_name member

theorem name_injective {a b : α} (h : name a = name b) : a = b := by
  have ha := ofName?_name a
  rw [h, ofName?_name] at ha
  exact (Option.some.inj ha).symm

end Named

end PlanLowering
