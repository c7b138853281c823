import PlanLowering.Toml.Quoted
import PlanLowering.Toml.Scalar

/-!
Reading a TOML document: the statements in its text, and the table that they make. Arrays and tables
between braces may lie in each other to a certain depth, and so deep may a key lead. What is wrong with
a text that is no document is not told.
-/

namespace PlanLowering.TomlReader

open TomlBlank

/-- Arrays and tables between braces lie in each other at most so deep. -/
def nestingLimit : Nat := 80

/-! ### Keys -/

/-- A character of a key without quotes. -/
def isKeyChar (c : Char) : Bool :=
  c.isAlphanum || c = '_' || c = '-'

/-- A part of a key: a string on one line, or a word. -/
def keyPart? (cs : List Char) : Option (String × List Char) :=
  match cs with
  | '"' :: _ | '\'' :: _ => TomlQuotes.line? cs
  | _ =>
    let name := cs.takeWhile isKeyChar
    if name.isEmpty then none else some (String.ofList name, cs.dropWhile isKeyChar)

/-- A key with its dots, and what follows the blanks behind it. -/
def dottedKey? (cs : List Char) : Option (TomlKey × List Char) :=
  match keyPart? (skipSpace cs) with
  | none => none
  | some (first, rest) =>
    match skipSpace rest with
    | '.' :: others =>
      if others.length < cs.length then
        match dottedKey? others with
        | none => none
        | some (key, following) => some (⟨first :: key.way, key.name⟩, following)
      else none
    | following => some (⟨[], first⟩, following)
termination_by cs.length

/-- A key that leads through fewer tables than the limit. -/
def key? (cs : List Char) : Option (TomlKey × List Char) := do
  let (key, rest) ← dottedKey? cs
  if key.way.length < nestingLimit then some (key, rest) else none

/-! ### Values -/

/-- What is listed between brackets whose opening one was just passed: commas between the items, and
possibly one more behind the last. -/
def listed? {α : Type} (close : Char) (item? : List Char → Option (α × List Char)) (cs : List Char) :
    Option (List α × List Char) :=
  match skipGaps false cs with
  | [] => none
  | c :: start =>
    if c = close then some ([], start)
    else
      match item? (c :: start) with
      | none => none
      | some (item, rest) =>
        match skipGaps false rest with
        | [] => none
        | c :: rest =>
          if c = close then some ([item], rest)
          else if c = ',' then
            if rest.length < cs.length then
              match listed? close item? rest with
              | none => none
              | some (items, following) => some (item :: items, following)
            else none
          else none
termination_by cs.length

/-- A key, an equals sign, and a value; `skip` passes what may stand around the sign. -/
def pair? (skip : List Char → List Char) (value? : List Char → Option (Toml × List Char))
    (cs : List Char) : Option ((TomlKey × Toml) × List Char) := do
  let (key, rest) ← key? cs
  match skip rest with
  | '=' :: rest =>
    let (value, rest) ← value? (skip rest)
    return ((key, value), rest)
  | _ => none

/-- A value that holds no other. -/
def plainValue? (cs : List Char) : Option (Toml × List Char) :=
  match cs with
  | '"' :: _ | '\'' :: _ => (TomlQuotes.string? cs).map fun (text, rest) => (.string text, rest)
  | _ => TomlScalar.scalar? cs

/-- A value with at most `depth` arrays and tables in each other. -/
def value? : Nat → List Char → Option (Toml × List Char)
  | 0, cs => plainValue? cs
  | depth + 1, cs =>
    match cs with
    | '[' :: rest => do
      let (items, rest) ← listed? ']' (value? depth) rest
      return (.array items, rest)
    | '\x7b' :: rest => do
      let (entries, rest) ← listed? '\x7d' (pair? (skipGaps false) (value? depth)) rest
      let table ← TomlTable.ofEntries? entries
      return (table.toValue, rest)
    | _ => plainValue? cs

/-! ### Documents -/

/-- A statement, up to the blanks behind it. -/
def statement? (cs : List Char) : Option (TomlStatement × List Char) :=
  match cs with
  | '[' :: '[' :: rest => do
    match ← key? rest with
    | (key, ']' :: ']' :: rest) => return (.repeatedHeader key, rest)
    | _ => none
  | '[' :: rest => do
    match ← key? rest with
    | (key, ']' :: rest) => return (.header key, rest)
    | _ => none
  | _ => do
    let ((key, value), rest) ← pair? skipSpace (value? nestingLimit) cs
    return (.entry key value, rest)

/-- The statements of a text, each on lines of its own. -/
def statements? (cs : List Char) : Option (List TomlStatement) :=
  match skipGaps false cs with
  | [] => some []
  | start =>
    match statement? start with
    | none => none
    | some (statement, rest) =>
      match lineRest? rest with
      | none => none
      | some rest =>
        if rest.length < cs.length then (statements? rest).map (statement :: ·) else none
termination_by cs.length

/-- The text without a byte order mark at its start. -/
def dropMark : List Char → List Char
  | '\ufeff' :: cs => cs
  | cs => cs

/-- The table that a text describes. -/
def read? (text : String) : Option TomlTable := do
  TomlDocument.ofStatements? (← statements? (dropMark text.toList))

end PlanLowering.TomlReader
