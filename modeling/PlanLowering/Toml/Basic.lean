import PlanLowering.Number.Numeral

/-!
TOML documents: the values in a document, the statements it is made of, and the table that they build
up together. A table remembers how it came to be, because that decides what may be added to it later.
-/

namespace PlanLowering

/-- How a table came to be. -/
inductive TomlOrigin where
  /-- A header gives its name. -/
  | header
  /-- Its name stands on the way to that of a header. -/
  | implied
  /-- Its name stands on the way to the name of an entry. -/
  | dotted
  /-- It is written between braces, and complete. -/
  | inline
deriving DecidableEq, Repr

/-- A value in a document. Numbers can be of any size, and dates are kept as they are spelled. -/
inductive Toml where
  | string (text : String)
  | integer (value : Int)
  | float (numeral : Numeral)
  /-- Infinity or what is no number, possibly with a sign. -/
  | special (spelling : String)
  | boolean (value : Bool)
  | dateTime (spelling : String)
  | array (items : List Toml)
  | table (origin : TomlOrigin) (entries : List (String × Toml))
  /-- Tables under one repeated header: those that are complete, and the entries of the latest. -/
  | tables (complete : List Toml) (latest : List (String × Toml))
deriving Inhabited

/-- A table under construction. -/
structure TomlTable where
  origin : TomlOrigin
  entries : List (String × Toml)

/-- A dotted key: the names of the tables on the way, and the name at its end. -/
structure TomlKey where
  way : List String
  name : String
deriving DecidableEq, Repr

inductive TomlStatement where
  /-- Opens the table with this key. -/
  | header (key : TomlKey)
  /-- Opens one more of the tables with this key. -/
  | repeatedHeader (key : TomlKey)
  /-- Gives a value to a key of the table that is open. -/
  | entry (key : TomlKey) (value : Toml)

namespace TomlKey

def path (key : TomlKey) : List String :=
  key.way ++ [key.name]

end TomlKey

namespace TomlTable

/-- The table of a document before its first statement. -/
def root : TomlTable :=
  ⟨.header, []⟩

def toValue (table : TomlTable) : Toml :=
  .table table.origin table.entries

def value? (table : TomlTable) (name : String) : Option Toml :=
  table.entries.lookup name

/-- Gives a name another value, or adds the name behind all others. -/
def put (table : TomlTable) (name : String) (value : Toml) : TomlTable :=
  { table with entries := putEntry table.entries }
where
  putEntry : List (String × Toml) → List (String × Toml)
    | [] => [(name, value)]
    | entry :: entries =>
      if entry.1 = name then (name, value) :: entries else entry :: putEntry entries

theorem lookup_putEntry (name other : String) (value : Toml) (entries : List (String × Toml)) :
    (put.putEntry name value entries).lookup other =
      if other = name then some value else entries.lookup other := by
  induction entries with
  | nil => by_cases h : other = name <;> simp [put.putEntry, List.lookup_cons, h, beq_false_of_ne]
  | cons entry entries ih =>
    obtain ⟨key, old⟩ := entry
    by_cases hkey : key = name
    · by_cases h : other = name <;>
        simp [put.putEntry, List.lookup_cons, hkey, h, beq_false_of_ne]
    · by_cases h : other = key
      · subst h
        simp [put.putEntry, hkey]
      · simp [put.putEntry, List.lookup_cons, hkey, beq_false_of_ne h, ih]

/-- A name that was given a value has it, and all others keep theirs. -/
theorem value?_put (table : TomlTable) (name other : String) (value : Toml) :
    (table.put name value).value? other = if other = name then some value else table.value? other :=
  lookup_putEntry name other value table.entries

/-- Changes the table at the end of a path. A table that is missing on the way is made, with the given
origin; one that is there has to be open; of repeated tables the latest is meant. -/
def change (isOpen : TomlOrigin → Bool) (origin : TomlOrigin)
    (f : TomlTable → Option TomlTable) : List String → TomlTable → Option TomlTable
  | [], table => f table
  | name :: path, table =>
    match table.value? name with
    | none => do
      let below ← change isOpen origin f path ⟨origin, []⟩
      return table.put name below.toValue
    | some (.table origin' entries) =>
      if isOpen origin' then do
        let below ← change isOpen origin f path ⟨origin', entries⟩
        return table.put name below.toValue
      else none
    | some (.tables complete latest) => do
      let below ← change isOpen origin f path ⟨.header, latest⟩
      return table.put name (.tables complete below.entries)
    | some _ => none

/-- Changes the table on the way to a header: all but tables between braces are open. -/
def changeBelowHeaders (f : TomlTable → Option TomlTable) (path : List String)
    (table : TomlTable) : Option TomlTable :=
  change (fun origin => origin ≠ .inline) .implied f path table

/-- Changes the table on the way to an entry: only tables without a header of their own are open. -/
def changeBelowKeys (f : TomlTable → Option TomlTable) (path : List String)
    (table : TomlTable) : Option TomlTable :=
  change (fun origin => origin = .implied ∨ origin = .dotted) .dotted f path table

/-- Adds an entry. Its name has to be new, and the table that a dotted key leads to has to be one that
only such keys have made. -/
def assign (table : TomlTable) (key : TomlKey) (value : Toml) : Option TomlTable :=
  changeBelowKeys add key.way table
where
  add (table : TomlTable) : Option TomlTable :=
    if (key.way = [] ∨ table.origin = .dotted) ∧ (table.value? key.name).isNone then
      some (table.put key.name value)
    else none

/-- Opens the table of a name. It may hold tables with longer headers already, but not a header or
entries of its own. -/
def openTable (name : String) (table : TomlTable) : Option TomlTable :=
  match table.value? name with
  | none => some (table.put name (.table .header []))
  | some (.table .implied entries) => some (table.put name (.table .header entries))
  | some _ => none

/-- Opens one more of the tables with a name. -/
def openRepeated (name : String) (table : TomlTable) : Option TomlTable :=
  match table.value? name with
  | none => some (table.put name (.tables [] []))
  | some (.tables complete latest) =>
    some (table.put name (.tables (complete ++ [.table .header latest]) []))
  | some _ => none

/-- The table that entries between braces make. -/
def ofEntries? (entries : List (TomlKey × Toml)) : Option TomlTable := do
  let table ← entries.foldlM (fun table (key, value) => table.assign key value) root
  return { table with origin := .inline }

end TomlTable

/-- A document up to some statement: all that was said, and the table that is open. -/
structure TomlDocument where
  table : TomlTable
  current : List String

namespace TomlDocument

def empty : TomlDocument :=
  ⟨.root, []⟩

/-- Carries out one more statement; none if it is at odds with an earlier one. -/
def step (document : TomlDocument) : TomlStatement → Option TomlDocument
  | .header key => do
    let table ← document.table.changeBelowHeaders (TomlTable.openTable key.name) key.way
    return ⟨table, key.path⟩
  | .repeatedHeader key => do
    let table ← document.table.changeBelowHeaders (TomlTable.openRepeated key.name) key.way
    return ⟨table, key.path⟩
  | .entry key value => do
    let table ← document.table.changeBelowHeaders (fun table => table.assign key value)
      document.current
    return ⟨table, document.current⟩

/-- The table that a row of statements makes. -/
def ofStatements? (statements : List TomlStatement) : Option TomlTable := do
  let document ← statements.foldlM step empty
  return document.table

end TomlDocument

end PlanLowering
