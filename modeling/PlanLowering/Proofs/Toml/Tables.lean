import PlanLowering.Toml.Basic

/-!
Documents that are made of groups: headers of one name, each with its entries below it. Such a document
stands for a table of tables, as long as no name is given twice.
-/

namespace PlanLowering.TomlDocument

/-- A name, and the entries of its table. -/
abbrev Group := String × List (String × Toml)

def entryStatement (entry : String × Toml) : TomlStatement :=
  .entry ⟨[], entry.1⟩ entry.2

/-- The header of a group, and its entries in their order. -/
def groupStatements (group : Group) : List TomlStatement :=
  .header ⟨[], group.1⟩ :: group.2.map entryStatement

/-- The table that a group stands for, under its name. -/
def groupTable (group : Group) : String × Toml :=
  (group.1, .table .header group.2)

/-- The groups before, and the one that is open. -/
def inGroup (before : List Group) (group : Group) : TomlDocument :=
  ⟨⟨.header, before.map groupTable ++ [groupTable group]⟩, [group.1]⟩

section Entries

variable {name : String} {before : List (String × Toml)}

theorem lookup_of_notMem (hnew : name ∉ before.map Prod.fst) : before.lookup name = none := by
  rw [List.lookup_eq_none_iff]
  intro entry hentry
  have hne : name ≠ entry.1 := fun heq => hnew (heq ▸ List.mem_map_of_mem hentry)
  simpa using hne

theorem notMem_of_nodup {α : Type} {before after : List (String × α)} {entry : String × α}
    (hnodup : ((before ++ entry :: after).map Prod.fst).Nodup) : entry.1 ∉ before.map Prod.fst := by
  rw [List.map_append, List.map_cons, List.nodup_append] at hnodup
  exact fun hmem => hnodup.2.2 _ hmem _ List.mem_cons_self rfl

theorem putEntry_append (value : Toml) (hnew : name ∉ before.map Prod.fst)
    (rest : List (String × Toml)) :
    TomlTable.put.putEntry name value (before ++ rest) =
      before ++ TomlTable.put.putEntry name value rest := by
  induction before with
  | nil => rfl
  | cons entry before ih =>
      rw [List.map_cons, List.mem_cons, not_or] at hnew
      rw [List.cons_append, TomlTable.put.putEntry, if_neg (Ne.symm hnew.1), ih hnew.2,
        List.cons_append]

/-- A new name stands behind all others. -/
theorem putEntry_new (value : Toml) (hnew : name ∉ before.map Prod.fst) :
    TomlTable.put.putEntry name value before = before ++ [(name, value)] := by
  have hput := putEntry_append value hnew []
  rwa [List.append_nil, TomlTable.put.putEntry] at hput

end Entries

variable {name key : String} {value : Toml} {entries : List (String × Toml)}
variable {before groups : List Group} {group : Group}

theorem map_fst_groupTable (groups : List Group) :
    (groups.map groupTable).map Prod.fst = groups.map Prod.fst := by
  rw [List.map_map]
  rfl

theorem lookup_groupTable (hnew : name ∉ before.map Prod.fst) :
    (before.map groupTable ++ [groupTable (name, entries)]).lookup name =
      some (.table .header entries) := by
  rw [List.lookup_append, lookup_of_notMem (by rwa [map_fst_groupTable])]
  simp [groupTable]

theorem putEntry_groupTable (hnew : name ∉ before.map Prod.fst) (more : List (String × Toml)) :
    TomlTable.put.putEntry name (.table .header more)
        (before.map groupTable ++ [groupTable (name, entries)]) =
      before.map groupTable ++ [groupTable (name, more)] := by
  rw [putEntry_append _ (by rwa [map_fst_groupTable])]
  simp [TomlTable.put.putEntry, groupTable]

/-- A header with a new name opens a group without entries. -/
theorem step_header (hnew : name ∉ before.map Prod.fst) (current : List String) :
    step ⟨⟨.header, before.map groupTable⟩, current⟩ (.header ⟨[], name⟩) =
      some (inGroup before (name, [])) := by
  have hnew' : name ∉ (before.map groupTable).map Prod.fst := by
    rwa [map_fst_groupTable]
  simp [step, TomlTable.changeBelowHeaders, TomlTable.change, TomlTable.openTable, TomlTable.value?,
    lookup_of_notMem hnew', TomlTable.put, putEntry_new _ hnew', inGroup, groupTable, TomlKey.path]

/-- An entry with a new name stands behind those of the open group. -/
theorem step_entry (hgroup : name ∉ before.map Prod.fst) (hnew : key ∉ entries.map Prod.fst) :
    step (inGroup before (name, entries)) (.entry ⟨[], key⟩ value) =
      some (inGroup before (name, entries ++ [(key, value)])) := by
  simp [step, inGroup, TomlTable.changeBelowHeaders, TomlTable.change, TomlTable.value?,
    lookup_groupTable hgroup, TomlTable.assign, TomlTable.assign.add, TomlTable.changeBelowKeys,
    lookup_of_notMem hnew, TomlTable.put, putEntry_new _ hnew, TomlTable.toValue,
    putEntry_groupTable hgroup]

theorem foldlM_step_entries (entries : List (String × Toml)) {more : List (String × Toml)}
    (hgroup : name ∉ before.map Prod.fst) (hnew : ((entries ++ more).map Prod.fst).Nodup) :
    (more.map entryStatement).foldlM step (inGroup before (name, entries)) =
      some (inGroup before (name, entries ++ more)) := by
  induction more generalizing entries with
  | nil => simp
  | cons entry more ih =>
      have hentry : entry.1 ∉ entries.map Prod.fst := notMem_of_nodup hnew
      have hmore : ((entries ++ [entry] ++ more).map Prod.fst).Nodup := by simpa using hnew
      rw [List.map_cons, List.foldlM_cons, entryStatement, step_entry hgroup hentry,
        Option.bind_eq_bind, Option.bind_some, ih _ hmore, List.append_assoc]
      rfl

theorem foldlM_step_group (hgroup : group.1 ∉ before.map Prod.fst)
    (hnew : (group.2.map Prod.fst).Nodup) (current : List String) :
    (groupStatements group).foldlM step ⟨⟨.header, before.map groupTable⟩, current⟩ =
      some ⟨⟨.header, (before ++ [group]).map groupTable⟩, [group.1]⟩ := by
  rw [groupStatements, List.foldlM_cons, step_header hgroup, Option.bind_eq_bind, Option.bind_some,
    foldlM_step_entries [] hgroup hnew, List.map_append]
  rfl

theorem foldlM_step_groups (before : List Group)
    (hgroups : ((before ++ groups).map Prod.fst).Nodup)
    (hnew : ∀ group ∈ groups, (group.2.map Prod.fst).Nodup) (current : List String) :
    ∃ current', (groups.flatMap groupStatements).foldlM step
        ⟨⟨.header, before.map groupTable⟩, current⟩ =
      some ⟨⟨.header, (before ++ groups).map groupTable⟩, current'⟩ := by
  induction groups generalizing before current with
  | nil => exact ⟨current, by simp⟩
  | cons group groups ih =>
      have hgroup : group.1 ∉ before.map Prod.fst := notMem_of_nodup hgroups
      obtain ⟨current', hrest⟩ := ih (before ++ [group]) (by simpa using hgroups)
        (fun group hmem => hnew group (List.mem_cons_of_mem _ hmem)) [group.1]
      refine ⟨current', ?_⟩
      rw [List.flatMap_cons, List.foldlM_append,
        foldlM_step_group hgroup (hnew group List.mem_cons_self), Option.bind_eq_bind,
        Option.bind_some, hrest, List.append_assoc]
      rfl

/-- A document of groups whose names are all different, and so are those in each group, stands for the
table of their tables. -/
theorem ofStatements?_groups (hgroups : (groups.map Prod.fst).Nodup)
    (hnew : ∀ group ∈ groups, (group.2.map Prod.fst).Nodup) :
    ofStatements? (groups.flatMap groupStatements) = some ⟨.header, groups.map groupTable⟩ := by
  obtain ⟨current, hrun⟩ := foldlM_step_groups [] hgroups hnew []
  rw [List.map_nil, List.nil_append] at hrun
  rw [ofStatements?, empty, TomlTable.root, hrun]
  rfl

end PlanLowering.TomlDocument
