import PlanLowering.Json.Decoder
import PlanLowering.Mode
import PlanLowering.Scalar
import PlanLowering.Value

/-!
JSON of literal values and of the scalar attributes. A member of a vocabulary is written as its name,
and a variant that carries something as an object with its name as the only key.
-/

namespace PlanLowering

namespace Json

def named {α : Type} [Named α] (member : α) : Json :=
  string (Named.name member)

/-- A variant and what it carries. -/
def variant (name : String) (payload : Json) : Json :=
  object [(name, payload)]

def uint64 (n : UInt64) : Json :=
  nat n.toNat

def int64 (n : Int64) : Json :=
  int n.toInt

end Json

open Decoder

namespace Value

def toJson : Value → Json
  | null => .string "Null"
  | missing => .string "Missing"
  | bool value => .variant "Bool" (.bool value)
  | int value => .variant "Int" (.int64 value)
  | float value => .variant "Float" (.float value)
  | string value => .variant "String" (.string value)
  | symbol value => .variant "Symbol" (.string value)

def decoder : Decoder Value :=
  Decoder.variant
    [⟨"Null", .none null⟩,
      ⟨"Missing", .none missing⟩,
      ⟨"Bool", .single (bool <$> Decoder.bool)⟩,
      ⟨"Int", .single (int <$> Decoder.int64)⟩,
      ⟨"Float", .single (float <$> Decoder.binary64)⟩,
      ⟨"String", .single (string <$> Decoder.string "a string")⟩,
      ⟨"Symbol", .single (symbol <$> Decoder.string "a string")⟩]

end Value

namespace ExcludeStep

def toJson : ExcludeStep → Json
  | structField name => .variant "StructField" (.string name)
  | collIndex index => .variant "CollIndex" (.uint64 index)
  | structWildcard => .string "StructWildcard"
  | collWildcard => .string "CollWildcard"

def decoder : Decoder ExcludeStep :=
  Decoder.variant
    [⟨"StructField", .single (structField <$> Decoder.string "a string")⟩,
      ⟨"CollIndex", .single (collIndex <$> Decoder.uint64 "usize")⟩,
      ⟨"StructWildcard", .none structWildcard⟩,
      ⟨"CollWildcard", .none collWildcard⟩]

end ExcludeStep

namespace ExcludePath

def toJson (path : ExcludePath) : Json :=
  .object [("root", .uint64 path.root), ("steps", .array (path.steps.map ExcludeStep.toJson))]

def decoder : Decoder ExcludePath :=
  (fun (root, steps, ()) => ⟨root, steps⟩) <$>
    record "struct ExcludePath"
      (.needed "root" (uint64 "usize") <|
        .needed "steps" (list ExcludeStep.decoder) .done)

end ExcludePath

end PlanLowering
