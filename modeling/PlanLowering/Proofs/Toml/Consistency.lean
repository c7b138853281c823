import PlanLowering.Proofs.Toml.Statements
import Mathlib.Data.List.Infix

/-!
Which statements fit together in a TOML document. Each path of names stands for something, and a
statement may only give it a meaning that it does not have yet: a table has one header at most, a key
one value, and what a value holds is complete. This is said of paths and not of the table that the
statements make; that a table can be made of statements that fit together is proved from it.
-/

namespace PlanLowering

/-- What a path of names stands for in a document. -/
inductive TomlRole where
  /-- Nothing yet. -/
  | free
  /-- A table on the way to that of a header. -/
  | implied
  /-- A table with a header of its own. -/
  | header
  /-- A table on the way to the name of an entry. -/
  | dotted
  /-- The value of an entry. -/
  | value
  /-- Tables with a repeated header; below them the roles are those in the latest. -/
  | repeated
deriving DecidableEq

/-- What the paths of a document stand for. -/
abbrev TomlRoles := List String → TomlRole

namespace TomlRoles

/-- Before the first statement there is the table of the document, and nothing in it. -/
def start : TomlRoles :=
  fun path => if path = [] then .header else .free

/-- A path comes to stand for something, and what was nothing on the way to it becomes a table. A
further table under a repeated header starts empty. -/
def define (roles : TomlRoles) (path : List String) (way role : TomlRole) : TomlRoles := fun other =>
  if other = path then role
  else if other <+: path ∧ roles other = .free then way
  else if role = .repeated ∧ path <+: other then .free
  else roles other

/-- The roles behind one more statement, made where the table at the path `current` is open. -/
def next (roles : TomlRoles) (current : List String) : TomlStatement → TomlRoles
  | .header key => roles.define key.path .implied .header
  | .repeatedHeader key => roles.define key.path .implied .repeated
  | .entry key _ => roles.define (current ++ key.path) .dotted .value

/-- A statement is not at odds with those before it. A header leads through tables to one that has no
header yet, neither of its own nor a repeated one, and that no entries have made; a repeated header
leads to nothing, or to tables of its own. An entry gives a value to a new name, and leads to it
through tables that have no header: the last of these holds nothing but what entries have put there. -/
def Fits (roles : TomlRoles) (current : List String) : TomlStatement → Prop
  | .header key => (∀ way ∈ key.way.inits, roles way ≠ .value) ∧
      roles key.path ∈ [.free, .implied]
  | .repeatedHeader key => (∀ way ∈ key.way.inits, roles way ≠ .value) ∧
      roles key.path ∈ [.free, .repeated]
  | .entry key _ =>
      (∀ way ∈ key.way.inits, way ≠ [] → roles (current ++ way) ∈ [.free, .implied, .dotted]) ∧
        (key.way ≠ [] → roles (current ++ key.way) ∈ [.free, .dotted]) ∧
          roles (current ++ key.path) = .free

instance (roles : TomlRoles) (current : List String) :
    DecidablePred (roles.Fits current)
  | .header _ => inferInstanceAs (Decidable (_ ∧ _))
  | .repeatedHeader _ => inferInstanceAs (Decidable (_ ∧ _))
  | .entry _ _ => inferInstanceAs (Decidable (_ ∧ _))

/-- Each of the statements fits those before it. -/
def AllFit (roles : TomlRoles) (current : List String) : List TomlStatement → Prop
  | [] => True
  | statement :: statements => roles.Fits current statement ∧
      (roles.next current statement).AllFit (TomlDocument.openNext current statement) statements

instance decidableAllFit (roles : TomlRoles) (current : List String) :
    DecidablePred (roles.AllFit current)
  | [] => inferInstanceAs (Decidable True)
  | statement :: statements =>
    have := decidableAllFit (roles.next current statement)
      (TomlDocument.openNext current statement) statements
    inferInstanceAs (Decidable (_ ∧ _))

end TomlRoles

/-- The statements of a document fit together. -/
def TomlDocument.Consistent (statements : List TomlStatement) : Prop :=
  TomlRoles.start.AllFit [] statements

instance : DecidablePred TomlDocument.Consistent :=
  fun statements => inferInstanceAs (Decidable (TomlRoles.start.AllFit [] statements))

namespace TomlTable

/-- What is entered under a name that leads on: the table that is there, or a new one. -/
def inside (table : TomlTable) (name : String) : TomlTable :=
  match table.value? name with
  | some (.table origin entries) => ⟨origin, entries⟩
  | _ => ⟨.dotted, []⟩

/-- The table with a value at the end of a path, and with tables on the way to it. -/
def insert : List String → Toml → TomlTable → TomlTable
  | [], _, table => table
  | [name], value, table => table.put name value
  | name :: path, value, table => table.put name (insert path value (table.inside name)).toValue

/-- The table of these entries, as it stands between braces. -/
def ofEntries (entries : List (TomlKey × Toml)) : TomlTable :=
  { entries.foldl (fun table entry => insert entry.1.path entry.2 table) root with origin := .inline }

end TomlTable

end PlanLowering
