import PlanLowering.Json.Scalar
import PlanLowering.Plan.Operator

/-!
JSON of plans: a node is an object with its kind as the only key and its fields below it, all of them
written, in declaration order. On reading, eight fields may be absent and have a default.
-/

namespace PlanLowering.Operator

mutual

def toJson : Operator → Json
  | scan rex => .variant "Scan" (.object [("rex", rex.toJson)])
  | scanIndexed rex => .variant "ScanIndexed" (.object [("rex", rex.toJson)])
  | unpivot rex => .variant "Unpivot" (.object [("rex", rex.toJson)])
  | filter input predicate =>
    .variant "Filter" (.object [("input", input.toJson), ("predicate", predicate.toJson)])
  | project input projections =>
    .variant "Project"
      (.object [("input", input.toJson), ("projections", .array (listToJson projections))])
  | projectAll input quantifier =>
    .variant "ProjectAll" (.object [("input", input.toJson), ("quantifier", .named quantifier)])
  | limit input bound =>
    .variant "Limit" (.object [("input", input.toJson), ("limit", bound.toJson)])
  | offset input count =>
    .variant "Offset" (.object [("input", input.toJson), ("offset", count.toJson)])
  | distinct input => .variant "Distinct" (.object [("input", input.toJson)])
  | sort input specs =>
    .variant "Sort" (.object [("input", input.toJson), ("specs", .array (specsToJson specs))])
  | join lhs rhs condition joinType =>
    .variant "Join"
      (.object
        [("lhs", lhs.toJson), ("rhs", rhs.toJson), ("condition", condition.toJson),
          ("join_type", .named joinType)])
  | exclude input paths =>
    .variant "Exclude"
      (.object [("input", input.toJson), ("paths", .array (paths.map ExcludePath.toJson))])
  | setOp kind quantifier lhs rhs =>
    .variant "SetOp"
      (.object
        [("kind", .named kind), ("quantifier", .named quantifier), ("lhs", lhs.toJson),
          ("rhs", rhs.toJson)])
  | lit value => .variant "Lit" (.object [("value", value.toJson)])
  | var depth place =>
    .variant "Var" (.object [("depth", .uint64 depth), ("offset", .uint64 place)])
  | global name => .variant "Global" (.object [("name", .string name)])
  | pathKey root key =>
    .variant "PathKey" (.object [("root", root.toJson), ("key", key.toJson)])
  | pathSymbol root symbol =>
    .variant "PathSymbol" (.object [("root", root.toJson), ("symbol", .string symbol)])
  | pathIndex root index =>
    .variant "PathIndex" (.object [("root", root.toJson), ("index", index.toJson)])
  | call function args =>
    .variant "Call" (.object [("function", .string function), ("args", .array (listToJson args))])
  | case branches default =>
    .variant "Case"
      (.object [("branches", .array (branchesToJson branches)), ("default", default.toJson)])
  | cast arg target =>
    .variant "Cast" (.object [("arg", arg.toJson), ("target", .string target)])
  | collection kind values =>
    .variant "Collection"
      (.object [("kind", .named kind), ("values", .array (listToJson values))])
  | struct fields => .variant "Struct" (.object [("fields", .array (fieldsToJson fields))])
  | tupleUnion args => .variant "TupleUnion" (.object [("args", .array (listToJson args))])
  | select rel constructor =>
    .variant "Select" (.object [("rel", rel.toJson), ("constructor", constructor.toJson)])
  | subquery rel constructor coercion =>
    .variant "Subquery"
      (.object
        [("rel", rel.toJson), ("constructor", constructor.toJson), ("coercion", .named coercion)])
  | pivot rel key value =>
    .variant "Pivot"
      (.object [("rel", rel.toJson), ("key", key.toJson), ("value", value.toJson)])
  | err message => .variant "Err" (.object [("message", .string message)])

def listToJson : List Operator → List Json
  | [] => []
  | op :: ops => op.toJson :: listToJson ops

def specsToJson : List (Operator × SortOrder) → List Json
  | [] => []
  | (rex, order) :: specs =>
    .object [("rex", rex.toJson), ("order", .named order)] :: specsToJson specs

def branchesToJson : List (Operator × Operator) → List Json
  | [] => []
  | (condition, result) :: branches =>
    .object [("condition", condition.toJson), ("result", result.toJson)] :: branchesToJson branches

def fieldsToJson : List (Operator × Operator) → List Json
  | [] => []
  | (key, value) :: fields =>
    .object [("key", key.toJson), ("value", value.toJson)] :: fieldsToJson fields

end

/-- The text of a plan. -/
def jsonText (plan : Operator) : String :=
  plan.toJson.text

open Decoder Fields

/-- The variants of a node, where `self` reads its children. -/
def variants (self : Decoder Operator) : List (Variant Operator) :=
  [of "Scan" (fun (rex, ()) => scan rex) (needed "rex" self done),
    of "ScanIndexed" (fun (rex, ()) => scanIndexed rex) (needed "rex" self done),
    of "Unpivot" (fun (rex, ()) => unpivot rex) (needed "rex" self done),
    of "Filter" (fun (input, predicate, ()) => filter input predicate)
      (needed "input" self <| needed "predicate" self done),
    of "Project" (fun (input, projections, ()) => project input projections)
      (needed "input" self <| needed "projections" (list self) done),
    of "ProjectAll" (fun (input, quantifier, ()) => projectAll input quantifier)
      (needed "input" self <| Fields.optional "quantifier" (vocabulary SetQuantifier) default done),
    of "Limit" (fun (input, bound, ()) => limit input bound)
      (needed "input" self <| needed "limit" self done),
    of "Offset" (fun (input, count, ()) => offset input count)
      (needed "input" self <| needed "offset" self done),
    of "Distinct" (fun (input, ()) => distinct input) (needed "input" self done),
    of "Sort" (fun (input, specs, ()) => sort input specs)
      (needed "input" self <| needed "specs" (list sortSpec) done),
    of "Join" (fun (lhs, rhs, condition, joinType, ()) => join lhs rhs condition joinType)
      (needed "lhs" self <| needed "rhs" self <| needed "condition" self <|
        needed "join_type" (vocabulary JoinType) done),
    of "Exclude" (fun (input, paths, ()) => exclude input paths)
      (needed "input" self <| needed "paths" (list ExcludePath.decoder) done),
    of "SetOp" (fun (kind, quantifier, lhs, rhs, ()) => setOp kind quantifier lhs rhs)
      (needed "kind" (vocabulary SetOpKind) <|
        Fields.optional "quantifier" (vocabulary SetQuantifier) default <|
        needed "lhs" self <| needed "rhs" self done),
    of "Lit" (fun (value, ()) => lit value) (needed "value" Value.decoder done),
    of "Var" (fun (depth, place, ()) => var depth place)
      (Fields.optional "depth" (uint64 "usize") 0 <| needed "offset" (uint64 "usize") done),
    of "Global" (fun (name, ()) => global name) (needed "name" text done),
    of "PathKey" (fun (root, key, ()) => pathKey root key)
      (needed "root" self <| needed "key" self done),
    of "PathSymbol" (fun (root, symbol, ()) => pathSymbol root symbol)
      (needed "root" self <| needed "symbol" text done),
    of "PathIndex" (fun (root, index, ()) => pathIndex root index)
      (needed "root" self <| needed "index" self done),
    of "Call" (fun (function, args, ()) => call function args)
      (needed "function" text <| Fields.optional "args" (list self) [] done),
    of "Case" (fun (branches, default, ()) => case branches default)
      (needed "branches" (list caseBranch) <| needed "default" self done),
    of "Cast" (fun (arg, target, ()) => cast arg target)
      (needed "arg" self <| needed "target" text done),
    of "Collection" (fun (kind, values, ()) => collection kind values)
      (needed "kind" (vocabulary CollectionKind) <| Fields.optional "values" (list self) [] done),
    of "Struct" (fun (fields, ()) => struct fields)
      (Fields.optional "fields" (list structField) [] done),
    of "TupleUnion" (fun (args, ()) => tupleUnion args)
      (Fields.optional "args" (list self) [] done),
    of "Select" (fun (rel, constructor, ()) => select rel constructor)
      (needed "rel" self <| needed "constructor" self done),
    of "Subquery" (fun (rel, constructor, coercion, ()) => subquery rel constructor coercion)
      (needed "rel" self <| needed "constructor" self <|
        needed "coercion" (vocabulary Coercion) done),
    of "Pivot" (fun (rel, key, value, ()) => pivot rel key value)
      (needed "rel" self <| needed "key" self <| needed "value" self done),
    ⟨"Err", .single ((fun (message, ()) => err message) <$>
      record "struct ErrOp" (needed "message" text done))⟩]
where
  text : Decoder String := Decoder.string "a string"
  /-- A variant that carries a record of the same name. -/
  of {α : Type} (name : String) (build : α → Operator) (fields : Fields α) : Variant Operator :=
    ⟨name, .single (build <$> record ("struct " ++ name) fields)⟩
  sortSpec : Decoder (Operator × SortOrder) :=
    (fun (rex, order, ()) => (rex, order)) <$>
      record "struct SortSpec"
        (needed "rex" self <| Fields.optional "order" (vocabulary SortOrder) default done)
  caseBranch : Decoder (Operator × Operator) :=
    (fun (condition, result, ()) => (condition, result)) <$>
      record "struct CaseBranch" (needed "condition" self <| needed "result" self done)
  structField : Decoder (Operator × Operator) :=
    (fun (key, value, ()) => (key, value)) <$>
      record "struct StructField" (needed "key" self <| needed "value" self done)

def decoder : Decoder Operator :=
  Decoder.recursive fun self => Decoder.variant (variants self)

/-- Reads a plan from its text. -/
def ofJsonText (text : String) : Except ReadError Operator :=
  decoder.ofText text

end PlanLowering.Operator
