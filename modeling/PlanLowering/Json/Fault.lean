import PlanLowering.Json.Number
import PlanLowering.Text.Quoted

/-!
Why a JSON text cannot be read as a value of a type: it is no JSON, or what it says does not fit. The
second kind of failure has a message.
-/

namespace PlanLowering

/-- What stands in a text where something else was expected. -/
inductive Found where
  | null
  | bool (value : Bool)
  | integer (value : Int)
  | float (value : Binary64)
  | string (text : String)
  | sequence
  | map
  /-- A bare name where a variant with a payload was meant. -/
  | unitVariant
deriving DecidableEq, Repr

def Found.display : Found → String
  | null => "null"
  | bool value => if value then "boolean `true`" else "boolean `false`"
  | integer value => "integer `" ++ (Numeral.ofInt value).text ++ "`"
  | float value => "floating point `" ++ (JsonNumber.floatFormat.numeral value).text ++ "`"
  | string text => "string " ++ Text.quoted text
  | sequence => "sequence"
  | map => "map"
  | unitVariant => "unit variant"

/-- What a text says that does not fit the type. -/
inductive Misfit where
  | invalidType (found : Found) (expected : String)
  /-- A number of the right sort outside the range. -/
  | invalidValue (found : Found) (expected : String)
  | invalidLength (length : Nat) (expected : String)
  | unknownVariant (name : String) (known : List String)
  | missingField (name : String)
  | duplicateField (name : String)
deriving DecidableEq, Repr

namespace Misfit

def inBackticks (name : String) : String :=
  "`" ++ name ++ "`"

/-- The names that would have been right. -/
def oneOf : List String → String
  | [] => "there are no variants"
  | [name] => "expected " ++ inBackticks name
  | [first, second] => "expected " ++ inBackticks first ++ " or " ++ inBackticks second
  | names => "expected one of " ++ ", ".intercalate (names.map inBackticks)

def message : Misfit → String
  | invalidType found expected => "invalid type: " ++ found.display ++ ", expected " ++ expected
  | invalidValue found expected => "invalid value: " ++ found.display ++ ", expected " ++ expected
  | invalidLength length expected =>
    "invalid length " ++ (Numeral.ofNat length).text ++ ", expected " ++ expected
  | unknownVariant name known => "unknown variant " ++ inBackticks name ++ ", " ++ oneOf known
  | missingField name => "missing field " ++ inBackticks name
  | duplicateField name => "duplicate field " ++ inBackticks name

end Misfit

inductive ReadError where
  | text (fault : JsonFault)
  | data (misfit : Misfit)
deriving DecidableEq, Repr

namespace ReadError

def category : ReadError → String
  | text .cutOff => "Eof"
  | text .grammar => "Syntax"
  | data _ => "Data"

/-- The message of a misfit. -/
def message? : ReadError → Option String
  | text _ => none
  | data misfit => some misfit.message

end ReadError

end PlanLowering
