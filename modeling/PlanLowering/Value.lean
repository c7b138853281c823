import PlanLowering.Number.Shortest

/-!
Literal values: the data that a literal node of a plan or of a query carries.
-/

namespace PlanLowering

inductive Value where
  | null
  | missing
  | bool (value : Bool)
  | int (value : Int64)
  | float (value : Binary64)
  | string (value : String)
  | symbol (value : String)
deriving DecidableEq, Repr, Inhabited

namespace Value

def typeName : Value → String
  | null => "null"
  | missing => "missing"
  | bool _ => "bool"
  | int _ => "int"
  | float _ => "float"
  | string _ => "string"
  | symbol _ => "symbol"

def asInt? : Value → Option Int64
  | int n => some n
  | _ => none

/-- An integer from zero up, as a literal bound of `LIMIT` and `OFFSET` has to be. -/
def isNonNegativeInt : Value → Bool
  | int n => 0 ≤ n.toInt
  | _ => false

def isAbsent : Value → Bool
  | null | missing => true
  | _ => false

/-- Equality of values as the language sees it: floats by what they stand for, all else by form. -/
def matchesValue : Value → Value → Bool
  | float x, float y => x.numEq y
  | a, b => a = b

/-- A float in a displayed value is never written with a power of ten, shows no point when it is
whole, and takes the upper of two equally near decimals. -/
def displayedFloat : FloatFormat where
  tie := .up
  positional := fun _ => true
  keepsPoint := false
  plusSign := .bare

def displayFloat (x : Binary64) : String :=
  if x.isNaN then "NaN"
  else if x.isInfinite then (if x.isNegative then "-inf" else "inf")
  else (displayedFloat.numeral x).text

def display : Value → String
  | null => "NULL"
  | missing => "MISSING"
  | bool b => if b then "true" else "false"
  | int n => (Numeral.ofInt n.toInt).text
  | float x => displayFloat x
  | string s => "'" ++ s ++ "'"
  | symbol s => "`" ++ s ++ "`"

end Value

end PlanLowering
