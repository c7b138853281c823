import PlanLowering.Named

/-!
Scalar attributes that query trees, plans and physical expressions share.
-/

namespace PlanLowering

/-- `ALL` or `DISTINCT`, of a selection or a set operation. -/
inductive SetQuantifier where
  | all
  | distinct
deriving DecidableEq, Repr

namespace SetQuantifier

instance : Inhabited SetQuantifier := ⟨all⟩

def isDistinct : SetQuantifier → Bool
  | all => false
  | distinct => true

instance : Named SetQuantifier where
  all := [all, distinct]
  name
    | all => "All"
    | distinct => "Distinct"
  find_name member := by cases member <;> decide

end SetQuantifier

inductive SetOpKind where
  | union
  | intersect
  | except
deriving DecidableEq, Repr, Inhabited

namespace SetOpKind

instance : Named SetOpKind where
  all := [union, intersect, except]
  name
    | union => "Union"
    | intersect => "Intersect"
    | except => "Except"
  find_name member := by cases member <;> decide

/-- The operator as a query spells it. -/
def display : SetOpKind → String
  | union => "UNION"
  | intersect => "INTERSECT"
  | except => "EXCEPT"

end SetOpKind

inductive JoinType where
  | inner
  | left
  | right
  | full
deriving DecidableEq, Repr, Inhabited

namespace JoinType

instance : Named JoinType where
  all := [inner, left, right, full]
  name
    | inner => "Inner"
    | left => "Left"
    | right => "Right"
    | full => "Full"
  find_name member := by cases member <;> decide

end JoinType

/-- The direction of a sort key and the place of absent values. -/
inductive SortOrder where
  | ascNullsLast
  | ascNullsFirst
  | descNullsLast
  | descNullsFirst
deriving DecidableEq, Repr

namespace SortOrder

instance : Inhabited SortOrder := ⟨ascNullsLast⟩

instance : Named SortOrder where
  all := [ascNullsLast, ascNullsFirst, descNullsLast, descNullsFirst]
  name
    | ascNullsLast => "AscNullsLast"
    | ascNullsFirst => "AscNullsFirst"
    | descNullsLast => "DescNullsLast"
    | descNullsFirst => "DescNullsFirst"
  find_name member := by cases member <;> decide

end SortOrder

inductive CollectionKind where
  | array
  | bag
deriving DecidableEq, Repr, Inhabited

namespace CollectionKind

instance : Named CollectionKind where
  all := [array, bag]
  name
    | array => "Array"
    | bag => "Bag"
  find_name member := by cases member <;> decide

end CollectionKind

/-- What a subquery is turned into where a value is expected. -/
inductive Coercion where
  | scalar
  | row
deriving DecidableEq, Repr, Inhabited

namespace Coercion

instance : Named Coercion where
  all := [scalar, row]
  name
    | scalar => "Scalar"
    | row => "Row"
  find_name member := by cases member <;> decide

end Coercion

/-- One step of an excluded path. -/
inductive ExcludeStep where
  | structField (name : String)
  | collIndex (index : UInt64)
  | structWildcard
  | collWildcard
deriving DecidableEq, Repr, Inhabited

/-- A path that `EXCLUDE` removes: the offset of its root variable, then its steps. -/
structure ExcludePath where
  root : UInt64
  steps : List ExcludeStep
deriving DecidableEq, Repr, Inhabited

end PlanLowering
