import PlanLowering.Toml.Basic

/-!
What is found below a TOML value by a row of names, and what becomes of it when a table changes: what
was there stays there, and nothing comes to be there but on the way to the change and below it.
-/

namespace PlanLowering

namespace Toml

/-- What a name stands for in a table; of repeated tables the latest is meant. -/
def child? (name : String) : Toml → Option Toml
  | table _ entries => entries.lookup name
  | tables _ latest => latest.lookup name
  | _ => none

def reach? (value : Toml) : List String → Option Toml
  | [] => some value
  | name :: path => (value.child? name).bind (·.reach? path)

def IsTable : Toml → Prop
  | table _ _ => True
  | _ => False

def IsRepeated : Toml → Prop
  | tables _ _ => True
  | _ => False

/-- Names lead nowhere from the value. -/
def IsLeaf (value : Toml) : Prop :=
  ¬ value.IsTable ∧ ¬ value.IsRepeated

/-- A table that has changed is still a table, and repeated tables are still repeated. -/
def Became (before after : Toml) : Prop :=
  after = before ∨ before.IsTable ∧ after.IsTable ∨ before.IsRepeated ∧ after.IsRepeated

end Toml

theorem TomlKey.path_ne_nil (key : TomlKey) : key.path ≠ [] :=
  List.append_ne_nil_of_right_ne_nil key.way (List.cons_ne_nil key.name [])

namespace TomlTable

open Toml

variable {table table' : TomlTable} {name : String} {value : Toml} {path : List String}

theorem reach?_cons (table : TomlTable) (name : String) (path : List String) :
    table.toValue.reach? (name :: path) = (table.value? name).bind (·.reach? path) :=
  rfl

theorem reach?_put (table : TomlTable) (name other : String) (value : Toml) (path : List String) :
    (table.put name value).toValue.reach? (other :: path) =
      if other = name then value.reach? path else table.toValue.reach? (other :: path) := by
  rw [reach?_cons, value?_put]
  split <;> rfl

/-- Whatever the later table has at the end of a path was there before, or is one of the additions. -/
def Adds (added : List String → Toml → Prop) (table table' : TomlTable) : Prop :=
  ∀ name path value, table'.toValue.reach? (name :: path) = some value →
    (∃ before, table.toValue.reach? (name :: path) = some before ∧ before.Became value) ∨
      added (name :: path) value

/-- What is no table stays where it is, but for some paths. -/
def Keeps (lost : List String → Prop) (table table' : TomlTable) : Prop :=
  ∀ name path value, value.IsLeaf → ¬ lost (name :: path) →
    table.toValue.reach? (name :: path) = some value →
      table'.toValue.reach? (name :: path) = some value

/-- How the table under a name is entered: the table that is changed there, and what a changed one
becomes. -/
inductive Enters (origin : TomlOrigin) : Option Toml → TomlTable → (TomlTable → Toml) → Prop where
  | new : Enters origin none ⟨origin, []⟩ toValue
  | table (origin' : TomlOrigin) (entries : List (String × Toml)) :
      Enters origin (some (.table origin' entries)) ⟨origin', entries⟩ toValue
  | repeated (complete : List Toml) (latest : List (String × Toml)) :
      Enters origin (some (.tables complete latest)) ⟨.header, latest⟩
        fun below => .tables complete below.entries

section Change

variable {isOpen : TomlOrigin → Bool} {origin : TomlOrigin} {f : TomlTable → Option TomlTable}

/-- A change at the end of a path is one below its first name. -/
theorem change_cons (h : change isOpen origin f (name :: path) table = some table') :
    ∃ below below' wrap, Enters origin (table.value? name) below wrap ∧
      change isOpen origin f path below = some below' ∧ table' = table.put name (wrap below') := by
  rw [change] at h
  split at h
  · next hvalue =>
      obtain ⟨below', hbelow, heq⟩ := Option.bind_eq_some_iff.mp h
      rw [hvalue]
      exact ⟨_, below', _, .new, hbelow, (Option.some.inj heq).symm⟩
  · next origin' entries hvalue =>
      split at h
      · obtain ⟨below', hbelow, heq⟩ := Option.bind_eq_some_iff.mp h
        rw [hvalue]
        exact ⟨_, below', _, .table origin' entries, hbelow, (Option.some.inj heq).symm⟩
      · cases h
  · next complete latest hvalue =>
      obtain ⟨below', hbelow, heq⟩ := Option.bind_eq_some_iff.mp h
      rw [hvalue]
      exact ⟨_, below', _, .repeated complete latest, hbelow, (Option.some.inj heq).symm⟩
  · cases h

variable {old : Option Toml} {below below' : TomlTable} {wrap : TomlTable → Toml}

theorem Enters.reach?_old (h : Enters origin old below wrap) (name : String) (path : List String) :
    (old.bind (·.reach? (name :: path))) = below.toValue.reach? (name :: path) := by
  cases h <;> rfl

theorem Enters.reach?_wrap (h : Enters origin old below wrap) (below' : TomlTable) (name : String)
    (path : List String) :
    (wrap below').reach? (name :: path) = below'.toValue.reach? (name :: path) := by
  cases h <;> rfl

/-- What is under the name was no leaf, and is a table of the same kind, or a new one. -/
theorem Enters.became (h : Enters origin old below wrap) (below' : TomlTable) :
    (∃ before, old = some before ∧ before.Became (wrap below')) ∨ (wrap below').IsTable := by
  cases h with
  | new => exact Or.inr trivial
  | table _ _ => exact Or.inr trivial
  | repeated _ _ => exact Or.inl ⟨_, rfl, .inr (.inr ⟨trivial, trivial⟩)⟩

theorem Enters.not_isLeaf (h : Enters origin old below wrap) : ∀ before ∈ old, ¬ before.IsLeaf := by
  cases h with
  | new => rintro _ ⟨⟩
  | table _ _ =>
      rintro _ ⟨⟩ hleaf
      exact hleaf.1 trivial
  | repeated _ _ =>
      rintro _ ⟨⟩ hleaf
      exact hleaf.2 trivial

/-- On the way to a change there are tables. -/
theorem change_adds {added : List String → Toml → Prop}
    (hf : ∀ table table', f table = some table' → Adds added table table')
    (h : change isOpen origin f path table = some table') :
    Adds (fun place value => (place <+: path ∧ value.IsTable) ∨
      ∃ rest, place = path ++ rest ∧ added rest value) table table' := by
  induction path generalizing table table' with
  | nil =>
      intro name path value hvalue
      exact (hf _ _ h name path value hvalue).imp_right fun hadded => Or.inr ⟨_, rfl, hadded⟩
  | cons first path ih =>
      obtain ⟨below, below', wrap, henters, hbelow, rfl⟩ := change_cons h
      intro name place value hvalue
      rw [reach?_put] at hvalue
      -- Whatever is not below the first name of the path is as it was.
      by_cases hname : name = first
      · subst hname
        rw [if_pos rfl] at hvalue
        cases place with
        | nil =>
            cases hvalue
            rcases henters.became below' with ⟨before, hold, hbecame⟩ | htable
            · exact Or.inl ⟨before, by rw [reach?_cons, hold]; rfl, hbecame⟩
            · exact Or.inr (Or.inl ⟨by simp, htable⟩)
        | cons second place =>
            rw [henters.reach?_wrap] at hvalue
            rw [reach?_cons, henters.reach?_old]
            refine (ih hbelow second place value hvalue).imp_right ?_
            rintro (⟨hplace, htable⟩ | ⟨rest, hplace, hadded⟩)
            · exact Or.inl ⟨by simpa using hplace, htable⟩
            · exact Or.inr ⟨rest, by rw [hplace, List.cons_append], hadded⟩
      · rw [if_neg hname] at hvalue
        exact Or.inl ⟨value, hvalue, .inl rfl⟩

theorem change_keeps {lost : List String → Prop}
    (hf : ∀ table table', f table = some table' → Keeps lost table table')
    (h : change isOpen origin f path table = some table') :
    Keeps (fun place => ∃ rest, place = path ++ rest ∧ lost rest) table table' := by
  induction path generalizing table table' with
  | nil =>
      intro name path value hleaf hlost
      exact hf _ _ h name path value hleaf fun hrest => hlost ⟨_, rfl, hrest⟩
  | cons first path ih =>
      obtain ⟨below, below', wrap, henters, hbelow, rfl⟩ := change_cons h
      intro name place value hleaf hlost hvalue
      rw [reach?_put]
      by_cases hname : name = first
      · subst hname
        rw [if_pos rfl]
        rw [reach?_cons] at hvalue
        cases place with
        | nil =>
            obtain ⟨before, hold, hbefore⟩ := Option.bind_eq_some_iff.mp hvalue
            cases hbefore
            exact absurd hleaf (henters.not_isLeaf _ hold)
        | cons second place =>
            rw [henters.reach?_old] at hvalue
            rw [henters.reach?_wrap]
            refine ih hbelow second place value hleaf ?_ hvalue
            rintro ⟨rest, hplace, hrest⟩
            exact hlost ⟨rest, by rw [hplace, List.cons_append], hrest⟩
      · rwa [if_neg hname]

/-- At the end of the path stands the changed table. -/
theorem change_reach? (h : change isOpen origin f path table = some table') :
    ∃ below below', f below = some below' ∧ ∀ name rest,
      table'.toValue.reach? (path ++ name :: rest) = below'.toValue.reach? (name :: rest) := by
  induction path generalizing table table' with
  | nil => exact ⟨table, table', h, fun _ _ => rfl⟩
  | cons first path ih =>
      obtain ⟨below, below', wrap, henters, hbelow, rfl⟩ := change_cons h
      obtain ⟨last, last', hlast, hreach⟩ := ih hbelow
      refine ⟨last, last', hlast, fun name rest => ?_⟩
      rw [List.cons_append, reach?_put, if_pos rfl, ← hreach]
      cases path with
      | nil => exact henters.reach?_wrap below' name rest
      | cons second path => exact henters.reach?_wrap below' second _

end Change

theorem Adds.mono {added added' : List String → Toml → Prop} (h : Adds added table table')
    (hadded : ∀ path value, added path value → added' path value) : Adds added' table table' :=
  fun name path value hvalue => (h name path value hvalue).imp_right (hadded _ _)

theorem Keeps.mono {lost lost' : List String → Prop} (h : Keeps lost table table')
    (hlost : ∀ path, lost path → lost' path) : Keeps lost' table table' :=
  fun name path value hleaf hkept => h name path value hleaf fun h => hkept (hlost _ h)

section Assigning

variable {key : TomlKey}

theorem add_eq (h : assign.add key value table = some table') :
    table.value? key.name = none ∧ table' = table.put key.name value := by
  rw [assign.add] at h
  split at h
  · next hnew => exact ⟨Option.isNone_iff_eq_none.mp hnew.2, (Option.some.inj h).symm⟩
  · cases h

theorem add_adds (h : assign.add key value table = some table') :
    Adds (fun place found => ∃ rest, place = key.name :: rest ∧ value.reach? rest = some found)
      table table' := by
  obtain ⟨-, rfl⟩ := add_eq h
  intro name path found hfound
  rw [reach?_put] at hfound
  split at hfound
  · next hname => exact Or.inr ⟨path, by rw [hname], hfound⟩
  · exact Or.inl ⟨found, hfound, .inl rfl⟩

theorem add_keeps (h : assign.add key value table = some table') :
    Keeps (fun _ => False) table table' := by
  obtain ⟨hnew, rfl⟩ := add_eq h
  intro name path found _ _ hfound
  rw [reach?_put]
  split
  · next hname =>
      rw [hname, reach?_cons, hnew] at hfound
      cases hfound
  · exact hfound

theorem assign_adds (h : table.assign key value = some table') :
    Adds (fun place found => (place <+: key.way ∧ found.IsTable) ∨
      ∃ rest, place = key.path ++ rest ∧ value.reach? rest = some found) table table' := by
  refine (change_adds (fun _ _ => add_adds) h).mono ?_
  rintro place found (htable | ⟨rest, rfl, rest', rfl, hfound⟩)
  · exact Or.inl htable
  · exact Or.inr ⟨rest', by rw [TomlKey.path, List.append_assoc]; rfl, hfound⟩

theorem assign_keeps (h : table.assign key value = some table') :
    Keeps (fun _ => False) table table' := by
  refine (change_keeps (fun _ _ => add_keeps) h).mono ?_
  rintro place ⟨_, _, hlost⟩
  exact hlost

/-- The key leads to its value, and on from there. -/
theorem assign_reach? (h : table.assign key value = some table') (rest : List String) :
    table'.toValue.reach? (key.path ++ rest) = value.reach? rest := by
  obtain ⟨below, below', hadd, hreach⟩ := change_reach? h
  obtain ⟨-, rfl⟩ := add_eq hadd
  rw [TomlKey.path, List.append_assoc, List.singleton_append, hreach, reach?_put, if_pos rfl]

end Assigning

section Opening

/-- Below the name everything stays as it was. -/
theorem openTable_eq (h : openTable name table = some table') :
    ∃ entries, table' = table.put name (.table .header entries) ∧
      (∀ before ∈ table.value? name, ¬ before.IsLeaf) ∧ ∀ second path,
        (Toml.table .header entries).reach? (second :: path) =
          table.toValue.reach? (name :: second :: path) := by
  rw [openTable] at h
  split at h
  · next hvalue =>
      cases h
      refine ⟨_, rfl, ?_, fun second path => ?_⟩
      · rw [hvalue]
        rintro _ ⟨⟩
      · rw [reach?_cons, hvalue]
        rfl
  · next entries hvalue =>
      cases h
      refine ⟨_, rfl, ?_, fun second path => ?_⟩
      · rw [hvalue]
        rintro _ ⟨⟩ hleaf
        exact hleaf.1 trivial
      · rw [reach?_cons, hvalue]
        rfl
  · cases h

theorem openTable_adds (h : openTable name table = some table') :
    Adds (fun place found => place = [name] ∧ found.IsTable) table table' := by
  obtain ⟨entries, rfl, -, hbelow⟩ := openTable_eq h
  intro other path found hfound
  rw [reach?_put] at hfound
  by_cases hname : other = name
  · subst hname
    rw [if_pos rfl] at hfound
    cases path with
    | nil =>
        cases hfound
        exact Or.inr ⟨rfl, trivial⟩
    | cons second path => exact Or.inl ⟨found, by rwa [← hbelow], .inl rfl⟩
  · rw [if_neg hname] at hfound
    exact Or.inl ⟨found, hfound, .inl rfl⟩

theorem openTable_keeps (h : openTable name table = some table') :
    Keeps (fun _ => False) table table' := by
  obtain ⟨entries, rfl, hleaf, hbelow⟩ := openTable_eq h
  intro other path found hfound _ hkept
  rw [reach?_put]
  by_cases hname : other = name
  · subst hname
    rw [if_pos rfl]
    cases path with
    | nil =>
        obtain ⟨before, hbefore, heq⟩ := Option.bind_eq_some_iff.mp hkept
        cases heq
        exact absurd hfound (hleaf _ hbefore)
    | cons second path => rwa [hbelow]
  · rwa [if_neg hname]

theorem openRepeated_eq (h : openRepeated name table = some table') :
    ∃ complete, table' = table.put name (.tables complete []) := by
  rw [openRepeated] at h
  split at h <;> cases h
  · exact ⟨_, rfl⟩
  · exact ⟨_, rfl⟩

/-- The latest of repeated tables is empty at first. -/
theorem openRepeated_adds (h : openRepeated name table = some table') :
    Adds (fun place found => place = [name] ∧ found.IsRepeated) table table' := by
  obtain ⟨complete, rfl⟩ := openRepeated_eq h
  intro other path found hfound
  rw [reach?_put] at hfound
  split at hfound
  · next hname =>
      cases path with
      | nil =>
          cases hfound
          exact Or.inr ⟨by rw [hname], trivial⟩
      | cons second path => cases hfound
  · exact Or.inl ⟨found, hfound, .inl rfl⟩

theorem openRepeated_keeps (h : openRepeated name table = some table') :
    Keeps ([name] <+: ·) table table' := by
  obtain ⟨complete, rfl⟩ := openRepeated_eq h
  intro other path found _ hkept hfound
  rw [reach?_put, if_neg]
  · exact hfound
  · rintro rfl
    exact hkept ⟨path, rfl⟩

end Opening

end TomlTable

end PlanLowering
