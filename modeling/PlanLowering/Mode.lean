import PlanLowering.Named
import PlanLowering.Text.Blank

/-!
The compilation mode. It is a plain value that goes with every compilation and ends up on the
statement; what it means is up to the strategies and to whoever evaluates the statement.
-/

namespace PlanLowering

inductive Mode where
  /-- Type errors and missing data are reported by the evaluation. -/
  | strict
  /-- Type errors turn into missing values. -/
  | permissive
deriving DecidableEq, Repr

/-- A text that names no mode, trimmed and in lower case. -/
structure UnknownMode where
  name : String
deriving DecidableEq, Repr

def UnknownMode.message (e : UnknownMode) : String :=
  "未知的编译模式: " ++ e.name

namespace Mode

instance : Inhabited Mode := ⟨strict⟩

def name : Mode → String
  | strict => "strict"
  | permissive => "permissive"

instance : Named Mode where
  all := [strict, permissive]
  name := name
  find_name mode := by cases mode <;> decide

/-- The name in a debug text. -/
def debugName : Mode → String
  | strict => "Strict"
  | permissive => "Permissive"

def isPermissive : Mode → Bool
  | strict => false
  | permissive => true

/-- Reads a mode from what a user typed: blanks around it and the case of its letters are ignored. -/
def ofText (s : String) : Except UnknownMode Mode :=
  let key := Text.asciiLower (Text.trim s)
  match Named.ofName? key with
  | some mode => .ok mode
  | none => .error ⟨key⟩

end Mode

end PlanLowering
