import PlanLowering.Json.Scalar
import PlanLowering.Physical.Expr

/-!
JSON of physical expressions: an object with the operator's name as the only key and its fields below
it, all of them written and all of them needed.
-/

namespace PlanLowering.Expr

mutual

def toJson : Expr → Json
  | scan rex marked =>
    .variant "Scan" (.object [("rex", rex.toJson), ("permissive", .bool marked)])
  | scanIndexed rex marked =>
    .variant "ScanIndexed" (.object [("rex", rex.toJson), ("permissive", .bool marked)])
  | unpivot rex marked =>
    .variant "Unpivot" (.object [("rex", rex.toJson), ("permissive", .bool marked)])
  | filter input predicate =>
    .variant "Filter" (.object [("input", input.toJson), ("predicate", predicate.toJson)])
  | project input projections =>
    .variant "Project"
      (.object [("input", input.toJson), ("projections", .array (listToJson projections))])
  | projectAll input unique =>
    .variant "ProjectAll" (.object [("input", input.toJson), ("distinct", .bool unique)])
  | limit input bound =>
    .variant "Limit" (.object [("input", input.toJson), ("limit", bound.toJson)])
  | offset input count =>
    .variant "Offset" (.object [("input", input.toJson), ("offset", count.toJson)])
  | topN input specs size =>
    .variant "TopN"
      (.object
        [("input", input.toJson), ("specs", .array (keysToJson specs)), ("limit", .uint64 size)])
  | distinct input => .variant "Distinct" (.object [("input", input.toJson)])
  | sort input specs =>
    .variant "Sort" (.object [("input", input.toJson), ("specs", .array (keysToJson specs))])
  | join lhs rhs condition joinType =>
    .variant "Join"
      (.object
        [("lhs", lhs.toJson), ("rhs", rhs.toJson), ("condition", condition.toJson),
          ("join_type", .named joinType)])
  | exclude input paths =>
    .variant "Exclude"
      (.object [("input", input.toJson), ("paths", .array (paths.map ExcludePath.toJson))])
  | setOp kind unique lhs rhs =>
    .variant "SetOp"
      (.object
        [("kind", .named kind), ("distinct", .bool unique), ("lhs", lhs.toJson),
          ("rhs", rhs.toJson)])
  | literal value => .variant "Literal" value.toJson
  | varLocal place => .variant "VarLocal" (.object [("offset", .uint64 place)])
  | varOuter depth place =>
    .variant "VarOuter" (.object [("depth", .uint64 depth), ("offset", .uint64 place)])
  | global name => .variant "Global" (.object [("name", .string name)])
  | pathKey root key =>
    .variant "PathKey" (.object [("root", root.toJson), ("key", key.toJson)])
  | pathSymbol root symbol =>
    .variant "PathSymbol" (.object [("root", root.toJson), ("symbol", .string symbol)])
  | pathIndex root index =>
    .variant "PathIndex" (.object [("root", root.toJson), ("index", index.toJson)])
  | call function args =>
    .variant "Call" (.object [("function", .string function), ("args", .array (listToJson args))])
  | case branches default =>
    .variant "Case"
      (.object [("branches", .array (pairsToJson branches)), ("default", default.toJson)])
  | cast arg target =>
    .variant "Cast" (.object [("arg", arg.toJson), ("target", .string target)])
  | collection kind values =>
    .variant "Collection"
      (.object [("kind", .named kind), ("values", .array (listToJson values))])
  | struct fields => .variant "Struct" (.object [("fields", .array (pairsToJson fields))])
  | tupleUnion args => .variant "TupleUnion" (.object [("args", .array (listToJson args))])
  | select rel constructor ordered =>
    .variant "Select"
      (.object
        [("rel", rel.toJson), ("constructor", constructor.toJson), ("ordered", .bool ordered)])
  | subquery rel constructor coercion =>
    .variant "Subquery"
      (.object
        [("rel", rel.toJson), ("constructor", constructor.toJson), ("coercion", .named coercion)])
  | pivot rel key value marked =>
    .variant "Pivot"
      (.object
        [("rel", rel.toJson), ("key", key.toJson), ("value", value.toJson),
          ("permissive", .bool marked)])
  | permissive value => .variant "Permissive" value.toJson

def listToJson : List Expr → List Json
  | [] => []
  | e :: es => e.toJson :: listToJson es

def keysToJson : List (Expr × SortOrder) → List Json
  | [] => []
  | (e, order) :: keys =>
    .object [("expr", e.toJson), ("order", .named order)] :: keysToJson keys

def pairsToJson : List (Expr × Expr) → List Json
  | [] => []
  | (left, right) :: pairs => .array [left.toJson, right.toJson] :: pairsToJson pairs

end

/-- The text of an expression. -/
def jsonText (e : Expr) : String :=
  e.toJson.text

open Decoder Fields

/-- A sort key, where `self` reads expressions. -/
def keyDecoder (self : Decoder Expr) : Decoder (Expr × SortOrder) :=
  (fun (e, order, ()) => (e, order)) <$>
    record "struct SortKey"
      (needed "expr" self <| needed "order" (vocabulary SortOrder) done)

/-- The variants of an expression, where `self` reads its parts. -/
def variants (self : Decoder Expr) : List (Variant Expr) :=
  [of "Scan" (fun (rex, marked, ()) => scan rex marked)
      (needed "rex" self <| needed "permissive" Decoder.bool done),
    of "ScanIndexed" (fun (rex, marked, ()) => scanIndexed rex marked)
      (needed "rex" self <| needed "permissive" Decoder.bool done),
    of "Unpivot" (fun (rex, marked, ()) => unpivot rex marked)
      (needed "rex" self <| needed "permissive" Decoder.bool done),
    of "Filter" (fun (input, predicate, ()) => filter input predicate)
      (needed "input" self <| needed "predicate" self done),
    of "Project" (fun (input, projections, ()) => project input projections)
      (needed "input" self <| needed "projections" (list self) done),
    of "ProjectAll" (fun (input, unique, ()) => projectAll input unique)
      (needed "input" self <| needed "distinct" Decoder.bool done),
    of "Limit" (fun (input, bound, ()) => limit input bound)
      (needed "input" self <| needed "limit" self done),
    of "Offset" (fun (input, count, ()) => offset input count)
      (needed "input" self <| needed "offset" self done),
    of "TopN" (fun (input, specs, size, ()) => topN input specs size)
      (needed "input" self <| needed "specs" (list (keyDecoder self)) <|
        needed "limit" (uint64 "u64") done),
    of "Distinct" (fun (input, ()) => distinct input) (needed "input" self done),
    of "Sort" (fun (input, specs, ()) => sort input specs)
      (needed "input" self <| needed "specs" (list (keyDecoder self)) done),
    of "Join" (fun (lhs, rhs, condition, joinType, ()) => join lhs rhs condition joinType)
      (needed "lhs" self <| needed "rhs" self <| needed "condition" self <|
        needed "join_type" (vocabulary JoinType) done),
    of "Exclude" (fun (input, paths, ()) => exclude input paths)
      (needed "input" self <| needed "paths" (list ExcludePath.decoder) done),
    of "SetOp" (fun (kind, unique, lhs, rhs, ()) => setOp kind unique lhs rhs)
      (needed "kind" (vocabulary SetOpKind) <| needed "distinct" Decoder.bool <|
        needed "lhs" self <| needed "rhs" self done),
    ⟨"Literal", .single (literal <$> Value.decoder)⟩,
    of "VarLocal" (fun (place, ()) => varLocal place) (needed "offset" (uint64 "usize") done),
    of "VarOuter" (fun (depth, place, ()) => varOuter depth place)
      (needed "depth" (uint64 "usize") <| needed "offset" (uint64 "usize") done),
    of "Global" (fun (name, ()) => global name) (needed "name" text done),
    of "PathKey" (fun (root, key, ()) => pathKey root key)
      (needed "root" self <| needed "key" self done),
    of "PathSymbol" (fun (root, symbol, ()) => pathSymbol root symbol)
      (needed "root" self <| needed "symbol" text done),
    of "PathIndex" (fun (root, index, ()) => pathIndex root index)
      (needed "root" self <| needed "index" self done),
    of "Call" (fun (function, args, ()) => call function args)
      (needed "function" text <| needed "args" (list self) done),
    of "Case" (fun (branches, default, ()) => case branches default)
      (needed "branches" (list (pair self self)) <| needed "default" self done),
    of "Cast" (fun (arg, target, ()) => cast arg target)
      (needed "arg" self <| needed "target" text done),
    of "Collection" (fun (kind, values, ()) => collection kind values)
      (needed "kind" (vocabulary CollectionKind) <| needed "values" (list self) done),
    of "Struct" (fun (fields, ()) => struct fields)
      (needed "fields" (list (pair self self)) done),
    of "TupleUnion" (fun (args, ()) => tupleUnion args) (needed "args" (list self) done),
    of "Select" (fun (rel, constructor, ordered, ()) => select rel constructor ordered)
      (needed "rel" self <| needed "constructor" self <| needed "ordered" Decoder.bool done),
    of "Subquery" (fun (rel, constructor, coercion, ()) => subquery rel constructor coercion)
      (needed "rel" self <| needed "constructor" self <|
        needed "coercion" (vocabulary Coercion) done),
    of "Pivot" (fun (rel, key, value, marked, ()) => pivot rel key value marked)
      (needed "rel" self <| needed "key" self <| needed "value" self <|
        needed "permissive" Decoder.bool done),
    ⟨"Permissive", .single (permissive <$> self)⟩]
where
  text : Decoder String := Decoder.string "a string"
  /-- A variant with fields of its own. -/
  of {α : Type} (name : String) (build : α → Expr) (fields : Fields α) : Variant Expr :=
    ⟨name, .fields (build <$> record ("struct variant Expr::" ++ name) fields)⟩

def decoder : Decoder Expr :=
  Decoder.recursive fun self => Decoder.variant (variants self)

/-- Reads an expression from its text. -/
def ofJsonText (text : String) : Except ReadError Expr :=
  decoder.ofText text

end PlanLowering.Expr
