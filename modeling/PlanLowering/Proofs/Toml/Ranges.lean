import PlanLowering.Proofs.Toml.Statements
import PlanLowering.Toml.Range

/-!
The numbers of a TOML document are within their range if those of its statements are: a table holds no
other values. What a table has to hold to stand for a document is said here as well, so that it can be
asked of any reader.
-/

namespace PlanLowering

namespace Toml

theorem allInRange_iff {items : List Toml} :
    allInRange items = true ↔ ∀ item ∈ items, item.inRange = true := by
  induction items with
  | nil => simp [allInRange]
  | cons item items ih => rw [allInRange, Bool.and_eq_true, ih, List.forall_mem_cons]

theorem entriesInRange_iff {entries : List (String × Toml)} :
    entriesInRange entries = true ↔ ∀ entry ∈ entries, entry.2.inRange = true := by
  induction entries with
  | nil => simp [entriesInRange]
  | cons entry entries ih => rw [entriesInRange, Bool.and_eq_true, ih, List.forall_mem_cons]

end Toml

namespace TomlTable

open Toml

variable {table table' : TomlTable} {name : String} {value : Toml}

def InRange (table : TomlTable) : Prop :=
  entriesInRange table.entries = true

theorem InRange.of_value? (h : table.InRange) (hvalue : table.value? name = some value) :
    value.inRange = true := by
  obtain ⟨before, after, hentries, -⟩ := List.lookup_eq_some_iff.mp hvalue
  exact entriesInRange_iff.mp h (name, value) (by simp [hentries])

theorem InRange.put (h : table.InRange) (hvalue : value.inRange = true) :
    (table.put name value).InRange := by
  obtain ⟨origin, entries⟩ := table
  change entriesInRange (put.putEntry name value entries) = true
  change entriesInRange entries = true at h
  induction entries with
  | nil => simp [put.putEntry, entriesInRange, hvalue]
  | cons entry entries ih =>
      obtain ⟨other, first⟩ := entry
      rw [entriesInRange, Bool.and_eq_true] at h
      rw [put.putEntry]
      split
      · simp [entriesInRange, hvalue, h.2]
      · simp [entriesInRange, h.1, ih h.2]

theorem Enters.inRange {origin : TomlOrigin} {old : Option Toml} {below : TomlTable}
    {wrap : TomlTable → Toml} (h : Enters origin old below wrap)
    (hold : ∀ before ∈ old, before.inRange = true) :
    below.InRange ∧ ∀ below' : TomlTable, below'.InRange → (wrap below').inRange = true := by
  cases h with
  | new => exact ⟨rfl, fun _ => id⟩
  | table _ _ => exact ⟨hold _ rfl, fun _ => id⟩
  | repeated complete latest =>
      have hrange := hold _ rfl
      rw [Toml.inRange, Bool.and_eq_true] at hrange
      refine ⟨hrange.2, fun below' hbelow => ?_⟩
      rw [Toml.inRange, Bool.and_eq_true]
      exact ⟨hrange.1, hbelow⟩

theorem InRange.change {isOpen : TomlOrigin → Bool} {origin : TomlOrigin}
    {f : TomlTable → Option TomlTable} {path : List String}
    (hf : ∀ table table', table.InRange → f table = some table' → table'.InRange)
    (h : table.InRange) (hchange : change isOpen origin f path table = some table') :
    table'.InRange := by
  induction path generalizing table table' with
  | nil => exact hf _ _ h hchange
  | cons first path ih =>
      obtain ⟨below, below', wrap, henters, hbelow, rfl⟩ := change_cons hchange
      obtain ⟨hinside, hwrap⟩ := henters.inRange fun _ => h.of_value?
      exact h.put (hwrap below' (ih hinside hbelow))

theorem InRange.assign {key : TomlKey} (hvalue : value.inRange = true) (h : table.InRange)
    (hassign : table.assign key value = some table') : table'.InRange := by
  refine InRange.change (fun below below' hbelow hadd => ?_) h hassign
  obtain ⟨-, rfl⟩ := add_eq hadd
  exact hbelow.put hvalue

theorem InRange.openTable (h : table.InRange) (hopen : openTable name table = some table') :
    table'.InRange := by
  rw [TomlTable.openTable] at hopen
  split at hopen
  · cases hopen
    exact h.put rfl
  · next entries hvalue =>
      cases hopen
      exact h.put (h.of_value? hvalue : (Toml.table .implied entries).inRange = true)
  · cases hopen

theorem InRange.openRepeated (h : table.InRange) (hopen : openRepeated name table = some table') :
    table'.InRange := by
  rw [TomlTable.openRepeated] at hopen
  split at hopen
  · cases hopen
    exact h.put rfl
  · next complete latest hvalue =>
      cases hopen
      have hrange := h.of_value? hvalue
      rw [Toml.inRange, Bool.and_eq_true, allInRange_iff] at hrange
      apply h.put
      rw [Toml.inRange, Bool.and_eq_true, allInRange_iff]
      refine ⟨List.forall_mem_append.mpr ⟨hrange.1, ?_⟩, rfl⟩
      exact List.forall_mem_singleton.mpr hrange.2
  · cases hopen

end TomlTable

namespace TomlDocument

open TomlTable

variable {document document' : TomlDocument} {statements : List TomlStatement} {table : TomlTable}

/-- All values in the statements are within their range. -/
def StatementsInRange (statements : List TomlStatement) : Prop :=
  ∀ key value, .entry key value ∈ statements → value.inRange = true

theorem inRange_step {statement : TomlStatement}
    (hvalue : ∀ key value, statement = .entry key value → value.inRange = true)
    (h : document.table.InRange) (hstep : document.step statement = some document') :
    document'.table.InRange := by
  obtain ⟨-, hchange⟩ := change_of_step hstep
  refine h.change (fun below below' hbelow heffect => ?_) hchange
  cases statement with
  | header key => exact hbelow.openTable heffect
  | repeatedHeader key => exact hbelow.openRepeated heffect
  | entry key value => exact hbelow.assign (hvalue key value rfl) heffect

theorem inRange_run (hstatements : StatementsInRange statements) (h : document.table.InRange)
    (hrun : statements.foldlM step document = some document') : document'.table.InRange := by
  induction statements generalizing document with
  | nil =>
      cases hrun
      exact h
  | cons statement statements ih =>
      obtain ⟨next, hstep, hrest⟩ := Option.bind_eq_some_iff.mp hrun
      refine ih (fun key value hmem => hstatements key value (List.mem_cons_of_mem _ hmem)) ?_ hrest
      refine inRange_step ?_ h hstep
      rintro key value rfl
      exact hstatements key value List.mem_cons_self

theorem inRange_of_ofStatements? (hstatements : StatementsInRange statements)
    (h : ofStatements? statements = some table) : table.InRange := by
  obtain ⟨document, hrun, heq⟩ := Option.bind_eq_some_iff.mp h
  obtain rfl := Option.some.inj heq
  exact inRange_run hstatements (rfl : empty.table.InRange) hrun

end TomlDocument

/-- What a reader makes of a value: the value itself, unless there is a number in it that is out of range,
and then another value that is no table. -/
def Toml.ReadAs (said found : Toml) : Prop :=
  found = said ∨ said.inRange = false ∧ said.IsLeaf ∧ found.IsLeaf

namespace TomlTable

open Toml TomlDocument

/-- The table holds what the statements of a document say, and nothing else. As in `Agrees`, what is said
below repeated tables need not be found. -/
structure Represents (table : TomlTable) (statements : List TomlStatement) : Prop where
  kept : ∀ path value, value.IsLeaf → value.inRange = true → Says statements path value →
    ¬ InRepeated statements path → table.toValue.reach? path = some value
  justified : ∀ name path found, table.toValue.reach? (name :: path) = some found →
    ∃ said, Justified statements (name :: path) said ∧ said.ReadAs found
  inRange : table.InRange

variable {table : TomlTable} {statements : List TomlStatement}

theorem represents_of_ofStatements? (hstatements : StatementsInRange statements)
    (h : ofStatements? statements = some table) : table.Represents statements := by
  obtain ⟨current, hagrees⟩ := agrees_of_ofStatements? h
  constructor
  · exact fun path value hleaf _ hsays hrepeated => hagrees.kept path value hleaf hsays hrepeated
  · exact fun name path found hfound =>
      ⟨found, hagrees.justified name path found hfound, Or.inl rfl⟩
  · exact inRange_of_ofStatements? hstatements h

end TomlTable

end PlanLowering
