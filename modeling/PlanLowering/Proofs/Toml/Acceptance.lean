import PlanLowering.Proofs.Toml.Consistency

/-!
Statements that fit together can be carried out one after the other, and entries that fit together make
a table between braces. Whatever path can be seen stands in the table for what the statements have made
of it; a change at the end of a path is accepted if each table on the way to it may be changed, and its
effect on the roles does not depend on how deep it is.
-/

namespace PlanLowering

/-! ### The roles that a table gives to paths -/

def TomlOrigin.role : TomlOrigin → TomlRole
  | header => .header
  | implied => .implied
  | dotted => .dotted
  | inline => .value

namespace Toml

/-- What a path stands for at whose end there is this value, or nothing. -/
def role : Option Toml → TomlRole
  | none => .free
  | some (table origin _) => origin.role
  | some (tables _ _) => .repeated
  | some _ => .value

/-- Nothing can be added to the value. -/
def IsComplete (value : Toml) : Prop :=
  role (some value) = .value

variable {old : Option Toml}

theorem eq_none_of_role (h : role old = .free) : old = none := by
  cases old with
  | none => rfl
  | some value =>
      cases value with
      | table origin entries => cases origin <;> cases h
      | _ => cases h

theorem exists_table_of_role (h : role old = .implied) :
    ∃ entries, old = some (.table .implied entries) := by
  cases old with
  | none => cases h
  | some value =>
      cases value with
      | table origin entries =>
          cases origin with
          | implied => exact ⟨entries, rfl⟩
          | _ => cases h
      | _ => cases h

theorem exists_tables_of_role (h : role old = .repeated) :
    ∃ complete latest, old = some (.tables complete latest) := by
  cases old with
  | none => cases h
  | some value =>
      cases value with
      | tables complete latest => exact ⟨complete, latest, rfl⟩
      | table origin entries => cases origin <;> cases h
      | _ => cases h

theorem role_of_isRepeated {value : Toml} (h : value.IsRepeated) :
    role (some value) = .repeated := by
  cases value with
  | tables complete latest => rfl
  | _ => exact absurd h id

end Toml

namespace TomlRoles

variable {roles : TomlRoles} {name : String} {path : List String} {way role : TomlRole}

/-- The roles of paths below a name. -/
def below (roles : TomlRoles) (name : String) : TomlRoles :=
  fun path => roles (name :: path)

/-- The way to a path leads through no value. -/
def Visible (roles : TomlRoles) (path : List String) : Prop :=
  ∀ upper, upper ≠ [] → upper <+: path → upper ≠ path → roles upper ≠ .value

theorem visible_singleton (roles : TomlRoles) (name : String) : roles.Visible [name] := by
  rintro (_ | ⟨first, upper⟩) hne hprefix hproper
  · exact absurd rfl hne
  · obtain ⟨rfl, hupper⟩ := List.cons_prefix_cons.mp hprefix
    rw [List.prefix_nil.mp hupper] at hproper
    exact absurd rfl hproper

theorem visible_cons_cons {second : String} :
    roles.Visible (name :: second :: path) ↔
      roles [name] ≠ .value ∧ (roles.below name).Visible (second :: path) := by
  constructor
  · intro h
    refine ⟨h [name] (List.cons_ne_nil _ _) (by simp) (by simp), ?_⟩
    intro upper hne hprefix hproper
    exact h (name :: upper) (List.cons_ne_nil _ _) (List.cons_prefix_cons.mpr ⟨rfl, hprefix⟩)
      fun heq => hproper (List.cons.inj heq).2
  · rintro ⟨hname, hbelow⟩ (_ | ⟨first, upper⟩) hne hprefix hproper
    · exact absurd rfl hne
    · obtain ⟨rfl, hupper⟩ := List.cons_prefix_cons.mp hprefix
      cases upper with
      | nil => exact hname
      | cons other upper =>
          exact hbelow (other :: upper) (List.cons_ne_nil _ _) hupper
            fun heq => hproper (congrArg _ heq)

theorem define_cons_cons (name : String) (path other : List String) :
    (roles.define (name :: path) way role) (name :: other) =
      ((roles.below name).define path way role) other := by
  simp only [define, below, List.cons_prefix_cons, List.cons.injEq, true_and]
  congr

theorem define_cons_of_ne {other : String} (hother : other ≠ name) (path rest : List String) :
    (roles.define (name :: path) way role) (other :: rest) = roles (other :: rest) := by
  simp [define, List.cons_prefix_cons, hother, hother.symm]

/-- A table on the way stays what it is, or is made. -/
theorem define_of_above {upper lower : List String} (hlower : lower ≠ []) :
    (roles.define (upper ++ lower) way role) upper =
      if roles upper = .free then way else roles upper := by
  have hne : upper ≠ upper ++ lower := fun h => hlower (List.self_eq_append_right.mp h)
  have hlonger : ¬ upper ++ lower <+: upper := fun h =>
    hne (h.eq_of_length_le (by simp)).symm
  simp [define, hne, hlonger]

/-- A table with this role may be changed. -/
def Open (isOpen : TomlOrigin → Bool) : TomlRole → Prop
  | .free | .repeated => True
  | .implied => isOpen .implied = true
  | .header => isOpen .header = true
  | .dotted => isOpen .dotted = true
  | .value => False

/-- The origin of the table that is changed at the end of a path with a role. -/
def entered (origin : TomlOrigin) : TomlRole → TomlOrigin
  | .free => origin
  | .implied => .implied
  | .header | .repeated => .header
  | .dotted => .dotted
  | .value => .inline

end TomlRoles

namespace TomlTable

open Toml TomlRoles

variable {table : TomlTable} {roles roles' : TomlRoles} {name : String} {value : Toml}
variable {isOpen : TomlOrigin → Bool} {origin last : TomlOrigin}
variable {f : TomlTable → Option TomlTable} {old : Option Toml} {inner : TomlTable}
variable {wrap : TomlTable → Toml} {label role : TomlRole}

/-- Each path that can be seen stands for what the table has there. -/
def Plays (table : TomlTable) (roles : TomlRoles) : Prop :=
  ∀ name path, roles.Visible (name :: path) →
    Toml.role (table.toValue.reach? (name :: path)) = roles (name :: path)

theorem Plays.role_value? (h : table.Plays roles) (name : String) :
    Toml.role (table.value? name) = roles [name] := by
  rw [← h name [] (visible_singleton roles name), reach?_cons]
  cases table.value? name <;> rfl

theorem Plays.put (h : table.Plays roles) (hrole : Toml.role (some value) = roles' [name])
    (hbelow : ∀ second path, roles'.Visible (name :: second :: path) →
      Toml.role (value.reach? (second :: path)) = roles' (name :: second :: path))
    (hothers : ∀ other path, other ≠ name → roles' (other :: path) = roles (other :: path)) :
    (table.put name value).Plays roles' := by
  intro other path hvisible
  rw [reach?_put]
  by_cases hother : other = name
  · subst hother
    rw [if_pos rfl]
    cases path with
    | nil => exact hrole
    | cons second path => exact hbelow second path hvisible
  · rw [if_neg hother, hothers other path hother]
    apply h
    intro upper hne hprefix hproper
    obtain ⟨first, upper, rfl⟩ := List.exists_cons_of_ne_nil hne
    rw [← hothers first upper ((List.cons_prefix_cons.mp hprefix).1 ▸ hother)]
    exact hvisible _ hne hprefix hproper

/-! ### Changes at the end of a path -/

theorem exists_enters (origin : TomlOrigin) (hopen : Open isOpen (Toml.role old)) :
    ∃ inner wrap, Enters origin old inner wrap ∧
      ∀ origin' entries, old = some (.table origin' entries) → isOpen origin' = true := by
  cases old with
  | none =>
      refine ⟨_, _, .new, ?_⟩
      rintro _ _ ⟨⟩
  | some value =>
      cases value with
      | table origin' entries =>
          refine ⟨_, _, .table origin' entries, ?_⟩
          rintro _ _ ⟨⟩
          cases origin' with
          | inline => exact absurd hopen id
          | _ => exact hopen
      | tables complete latest =>
          refine ⟨_, _, .repeated complete latest, ?_⟩
          rintro _ _ ⟨⟩
      | _ => exact absurd hopen id

theorem change_cons_of_enters {path : List String}
    (henters : Enters origin (table.value? name) inner wrap)
    (hopen : ∀ origin' entries, table.value? name = some (.table origin' entries) →
      isOpen origin' = true) :
    change isOpen origin f (name :: path) table =
      (change isOpen origin f path inner).map fun inner' => table.put name (wrap inner') := by
  generalize hvalue : table.value? name = old at henters hopen
  cases henters with
  | new =>
      rw [change, hvalue]
      cases change isOpen origin f path ⟨origin, []⟩ <;> rfl
  | table origin' entries =>
      rw [change, hvalue]
      dsimp only
      rw [if_pos (hopen origin' entries rfl)]
      cases change isOpen origin f path ⟨origin', entries⟩ <;> rfl
  | repeated complete latest =>
      rw [change, hvalue]
      dsimp only
      cases change isOpen origin f path ⟨.header, latest⟩ <;> rfl

theorem Enters.origin_eq (h : Enters origin old inner wrap) :
    inner.origin = entered origin (Toml.role old) := by
  cases h with
  | table origin' entries => cases origin' <;> rfl
  | _ => rfl

/-- A table that was entered keeps its role, unless it is new. -/
theorem Enters.role_wrap (h : Enters origin old inner wrap) {inner' : TomlTable}
    (horigin : inner'.origin = inner.origin) :
    Toml.role (some (wrap inner')) =
      if Toml.role old = .free then origin.role else Toml.role old := by
  cases h with
  | new =>
      change inner'.origin.role = _
      rw [horigin]
      rfl
  | table origin' entries =>
      change inner'.origin.role = _
      rw [horigin, if_neg]
      · rfl
      · change origin'.role ≠ .free
        cases origin' <;> decide
  | repeated complete latest => rfl

theorem Plays.enters (h : table.Plays roles) (henters : Enters origin (table.value? name) inner wrap)
    (hname : roles [name] ≠ .value) : inner.Plays (roles.below name) := by
  intro second path hvisible
  rw [← henters.reach?_old second path]
  exact h name (second :: path) (visible_cons_cons.mpr ⟨hname, hvisible⟩)

/-- The action succeeds on tables with these roles and this origin, and changes the roles so. -/
def Carries (f : TomlTable → Option TomlTable) (origin : TomlOrigin) (roles roles' : TomlRoles) :
    Prop :=
  ∀ table : TomlTable, table.origin = origin → table.Plays roles →
    ∃ table', f table = some table' ∧ table'.origin = origin ∧ table'.Plays roles'

/-- A name leads into a table that may be changed. -/
theorem Carries.into {path lower : List String} {first : TomlOrigin} (hlower : lower ≠ [])
    (hname : Open isOpen (roles [name])) (hlabel : roles [name] = .free → label = origin.role)
    (h : Carries (TomlTable.change isOpen origin f path) (entered origin (roles [name]))
      (roles.below name) ((roles.below name).define lower label role)) :
    Carries (TomlTable.change isOpen origin f (name :: path)) first roles
      (roles.define (name :: lower) label role) := by
  intro table horigin hplays
  have hvalue : roles [name] ≠ .value := by
    intro hvalue
    rw [hvalue] at hname
    exact hname
  have hrole := hplays.role_value? name
  obtain ⟨inner, wrap, henters, hopens⟩ := exists_enters origin (hrole ▸ hname)
  have hentered : inner.origin = entered origin (roles [name]) := hrole ▸ henters.origin_eq
  obtain ⟨inner', hchange, horigin', hplays'⟩ := h inner hentered (hplays.enters henters hvalue)
  refine ⟨table.put name (wrap inner'), ?_, horigin, hplays.put ?_ ?_ ?_⟩
  · rw [change_cons_of_enters henters hopens, hchange]
    rfl
  · have hdefine : (roles.define ([name] ++ lower) label role) [name] =
        if roles [name] = .free then label else roles [name] := define_of_above hlower
    rw [henters.role_wrap (horigin'.trans hentered.symm), hrole]
    refine Eq.trans ?_ hdefine.symm
    split
    · next hfree => exact (hlabel hfree).symm
    · rfl
  · intro second rest hvisible
    rw [define_cons_cons, henters.reach?_wrap]
    refine hplays' second rest fun upper hne hprefix hproper => ?_
    rw [← define_cons_cons]
    exact hvisible (name :: upper) (List.cons_ne_nil _ _)
      (List.cons_prefix_cons.mpr ⟨rfl, hprefix⟩) fun heq => hproper (List.cons.inj heq).2
  · intro other rest hother
    rw [define_cons_of_ne hother]

/-- An action that succeeds at the end of a path is one that succeeds, if the tables on the way may be
changed. -/
theorem Carries.change {path tail : List String} {first : TomlOrigin} (last : TomlOrigin)
    (htail : tail ≠ [])
    (hopen : ∀ way, way ≠ [] → way <+: path →
      Open isOpen (roles way) ∧ (roles way = .free → label = origin.role))
    (hfirst : path = [] → last = first) (hlast : path ≠ [] → last = entered origin (roles path))
    (h : Carries f last (fun rest => roles (path ++ rest))
      (TomlRoles.define (fun rest => roles (path ++ rest)) tail label role)) :
    Carries (TomlTable.change isOpen origin f path) first roles
      (roles.define (path ++ tail) label role) := by
  induction path generalizing roles first with
  | nil =>
      obtain rfl := hfirst rfl
      exact h
  | cons name path ih =>
      obtain ⟨hname, hlabel⟩ :=
        hopen [name] (List.cons_ne_nil _ _) (List.prefix_append [name] path)
      refine Carries.into (List.append_ne_nil_of_right_ne_nil path htail) hname hlabel ?_
      refine ih (fun way hne hprefix => ?_) ?_ (fun hne => hlast (List.cons_ne_nil _ _)) h
      · exact hopen (name :: way) (List.cons_ne_nil _ _) (List.cons_prefix_cons.mpr ⟨rfl, hprefix⟩)
      · rintro rfl
        exact hlast (List.cons_ne_nil _ _)

/-! ### Statements that fit -/

/-- A name is given a value of some role, that keeps what was below the name or starts empty. -/
theorem Plays.put_define (h : table.Plays roles) (hname : roles [name] ≠ .value)
    (hrole : Toml.role (some value) = role)
    (hbelow : role ≠ .value → ∀ second path, value.reach? (second :: path) =
      if role = .repeated then none else table.toValue.reach? (name :: second :: path)) :
    (table.put name value).Plays (roles.define [name] label role) := by
  have hself : (roles.define [name] label role) [name] = role := if_pos rfl
  have hinside : ∀ second path, (roles.define [name] label role) (name :: second :: path) =
      if role = .repeated then .free else roles (name :: second :: path) := by
    intro second path
    simp [TomlRoles.define]
  refine h.put (hrole.trans hself.symm) (fun second path hvisible => ?_)
    fun other path hother => define_cons_of_ne hother [] path
  have hvalue : role ≠ .value := hself ▸ (visible_cons_cons.mp hvisible).1
  rw [hinside, hbelow hvalue]
  split
  · rfl
  · next hrepeated =>
      refine h name (second :: path) (visible_cons_cons.mpr ⟨hname, ?_⟩)
      intro upper hne hprefix hproper
      obtain ⟨first, upper, rfl⟩ := List.exists_cons_of_ne_nil hne
      have hupper := (visible_cons_cons.mp hvisible).2 _ hne hprefix hproper
      rw [TomlRoles.below, hinside, if_neg hrepeated] at hupper
      exact hupper

theorem ne_value_of_mem {role : TomlRole} {allowed : List TomlRole} (h : role ∈ allowed)
    (hallowed : .value ∉ allowed) : role ≠ .value :=
  fun hvalue => hallowed (hvalue ▸ h)

/-- The table of a header is made, or was on the way to others; what is below it stays. -/
theorem carries_openTable (hname : roles [name] ∈ [.free, .implied]) :
    Carries (openTable name) origin roles (roles.define [name] label .header) := by
  intro table horigin hplays
  have hne := ne_value_of_mem hname (by decide)
  have hopened : ∀ entries, openTable name table = some (table.put name (.table .header entries)) →
      (∀ second path, (Toml.table .header entries).reach? (second :: path) =
        table.toValue.reach? (name :: second :: path)) →
      ∃ table', openTable name table = some table' ∧ table'.origin = origin ∧
        table'.Plays (roles.define [name] label .header) :=
    fun _ hopen hbelow => ⟨_, hopen, horigin, hplays.put_define hne rfl fun _ => hbelow⟩
  have hrole := hplays.role_value? name
  rcases List.mem_pair.mp hname with hfree | himplied
  · have hvalue := eq_none_of_role (hrole.trans hfree)
    refine hopened [] (by rw [openTable, hvalue]) fun second path => ?_
    rw [reach?_cons, hvalue]
    rfl
  · obtain ⟨entries, hvalue⟩ := exists_table_of_role (hrole.trans himplied)
    refine hopened entries (by rw [openTable, hvalue]) fun second path => ?_
    rw [reach?_cons, hvalue]
    rfl

/-- Another table under a repeated header starts empty. -/
theorem carries_openRepeated (hname : roles [name] ∈ [.free, .repeated]) :
    Carries (openRepeated name) origin roles (roles.define [name] label .repeated) := by
  intro table horigin hplays
  have hne := ne_value_of_mem hname (by decide)
  have hopened : ∀ complete, openRepeated name table = some (table.put name (.tables complete [])) →
      ∃ table', openRepeated name table = some table' ∧ table'.origin = origin ∧
        table'.Plays (roles.define [name] label .repeated) :=
    fun _ hopen => ⟨_, hopen, horigin, hplays.put_define hne rfl fun _ _ _ => rfl⟩
  have hrole := hplays.role_value? name
  rcases List.mem_pair.mp hname with hfree | hrepeated
  · have hvalue := eq_none_of_role (hrole.trans hfree)
    exact hopened [] (by rw [openRepeated, hvalue])
  · obtain ⟨complete, latest, hvalue⟩ := exists_tables_of_role (hrole.trans hrepeated)
    exact hopened (complete ++ [.table .header latest]) (by rw [openRepeated, hvalue])

theorem carries_add {key : TomlKey} (hvalue : value.IsComplete)
    (horigin : key.way = [] ∨ origin = .dotted) (hname : roles [key.name] = .free) :
    Carries (assign.add key value) origin roles (roles.define [key.name] label .value) := by
  intro table htable hplays
  have hnew : (table.value? key.name).isNone = true := by
    rw [eq_none_of_role ((hplays.role_value? key.name).trans hname)]
    rfl
  refine ⟨_, if_pos ⟨htable ▸ horigin, hnew⟩, htable, hplays.put_define ?_ hvalue ?_⟩
  · rw [hname]
    decide
  · exact fun h => absurd rfl h

theorem carries_assign {key : TomlKey} (hvalue : value.IsComplete)
    (hway : ∀ way ∈ key.way.inits, way ≠ [] → roles way ∈ [.free, .implied, .dotted])
    (hlast : key.way ≠ [] → roles key.way ∈ [.free, .dotted]) (hname : roles key.path = .free) :
    Carries (assign · key value) origin roles (roles.define key.path .dotted .value) := by
  refine Carries.change (if key.way = [] then origin else .dotted)
    (List.cons_ne_nil key.name []) (fun way hne hprefix => ?_) (fun h => if_pos h) (fun h => ?_)
    (carries_add hvalue ?_ hname)
  · have hrole := hway way ((List.mem_inits _ _).mpr hprefix) hne
    simp only [List.mem_cons, List.not_mem_nil, or_false] at hrole
    refine ⟨?_, fun _ => rfl⟩
    rcases hrole with h | h | h <;> rw [h]
    · trivial
    · rfl
    · rfl
  · rw [if_neg h]
    rcases List.mem_pair.mp (hlast h) with hrole | hrole <;> rw [hrole] <;> rfl
  · split
    · next h => exact Or.inl h
    · exact Or.inr rfl

/-! ### Entries between braces -/

theorem insert_cons {path : List String} (hpath : path ≠ []) (name : String) (value : Toml)
    (table : TomlTable) : insert (name :: path) value table =
      table.put name (insert path value (table.inside name)).toValue := by
  cases path with
  | nil => exact absurd rfl hpath
  | cons second path => rfl

/-- An entry that is accepted is inserted. -/
theorem change_add_eq {key : TomlKey} {path : List String} {table' : TomlTable}
    (hplain : ∀ way, way ≠ [] → way <+: path → ∀ found ∈ table.toValue.reach? way, ¬ found.IsRepeated)
    (h : change isOpen .dotted (assign.add key value) path table = some table') :
    table' = insert (path ++ [key.name]) value table := by
  induction path generalizing table table' with
  | nil => exact (add_eq h).2
  | cons name path ih =>
      obtain ⟨inner, inner', wrap, henters, hinner, rfl⟩ := change_cons h
      have hname := hplain [name] (List.cons_ne_nil _ _) (List.prefix_append [name] path)
      have hbelow : ∀ way, way ≠ [] → way <+: path →
          ∀ found ∈ inner.toValue.reach? way, ¬ found.IsRepeated := by
        intro way hne hprefix found hfound
        obtain ⟨second, way, rfl⟩ := List.exists_cons_of_ne_nil hne
        refine hplain (name :: second :: way) (List.cons_ne_nil _ _)
          (List.cons_prefix_cons.mpr ⟨rfl, hprefix⟩) found ?_
        rw [← henters.reach?_old] at hfound
        exact hfound
      have hnonempty := List.append_ne_nil_of_right_ne_nil path (List.cons_ne_nil key.name [])
      rw [List.cons_append, insert_cons hnonempty, ih hbelow hinner, inside]
      rw [reach?_cons] at hname
      generalize table.value? name = old at henters hname
      cases henters with
      | new => rfl
      | table origin' entries => rfl
      | repeated complete latest => exact absurd trivial (hname _ rfl)

/-- Entries that fit together are accepted between braces, and make their table. -/
theorem foldlM_assign {entries : List (TomlKey × Toml)} (h : table.Plays roles)
    (hcomplete : ∀ entry ∈ entries, entry.2.IsComplete)
    (hfit : roles.AllFit [] (entries.map fun entry => .entry entry.1 entry.2)) :
    entries.foldlM (fun table entry => table.assign entry.1 entry.2) table =
      some (entries.foldl (fun table entry => insert entry.1.path entry.2 table) table) := by
  induction entries generalizing table roles with
  | nil => rfl
  | cons entry entries ih =>
      obtain ⟨⟨hway, hlast, hname⟩, hothers⟩ := hfit
      obtain ⟨hvalue, hvalues⟩ := List.forall_mem_cons.mp hcomplete
      obtain ⟨table', hassign, -, hplays⟩ :=
        carries_assign hvalue hway hlast hname table rfl h
      have hplain : ∀ way, way ≠ [] → way <+: entry.1.way →
          ∀ found ∈ table.toValue.reach? way, ¬ found.IsRepeated := by
        intro way hne hprefix found hfound hrepeated
        have hallowed : ∀ upper, upper ≠ [] → upper <+: way →
            roles upper ∈ [.free, .implied, .dotted] := fun upper hupper hshorter =>
          hway upper ((List.mem_inits _ _).mpr (hshorter.trans hprefix)) hupper
        obtain ⟨name, way, rfl⟩ := List.exists_cons_of_ne_nil hne
        have hrole := h name way fun upper hupper hshorter _ =>
          ne_value_of_mem (hallowed upper hupper hshorter) (by decide)
        rw [Option.mem_def.mp hfound] at hrole
        have hfree := hallowed _ hne List.prefix_rfl
        rw [← hrole, role_of_isRepeated hrepeated] at hfree
        exact absurd hfree (by decide)
      have hstep : table.assign entry.1 entry.2 = some table' := hassign
      rw [List.foldlM_cons, hstep, List.foldl_cons, TomlKey.path, ← change_add_eq hplain hstep]
      exact ih hplays hvalues hothers

theorem plays_root : root.Plays .start :=
  fun _ _ _ => rfl

theorem ofEntries?_of_consistent {entries : List (TomlKey × Toml)}
    (hcomplete : ∀ entry ∈ entries, entry.2.IsComplete)
    (h : TomlDocument.Consistent (entries.map fun entry => .entry entry.1 entry.2)) :
    ofEntries? entries = some (ofEntries entries) :=
  Option.bind_eq_some_iff.mpr ⟨_, foldlM_assign plays_root hcomplete h, rfl⟩

end TomlTable

namespace TomlDocument

open TomlTable TomlRoles

/-- The table of a document plays the roles, and what is open in it can be reached. -/
structure Follows (document : TomlDocument) (roles : TomlRoles) : Prop where
  origin : document.table.origin = .header
  plays : document.table.Plays roles
  reached : ∀ way, way ≠ [] → way <+: document.current → roles way ≠ .free ∧ roles way ≠ .value

theorem follows_empty : Follows empty .start where
  origin := rfl
  plays := plays_root
  reached _ hne hprefix := absurd (List.prefix_nil.mp hprefix) hne

variable {document : TomlDocument} {roles : TomlRoles} {key : TomlKey} {role : TomlRole}

/-- All tables but those that are values are open to headers. -/
theorem open_of_ne_value (h : role ≠ .value) : Open (fun origin => origin ≠ .inline) role := by
  cases role with
  | value => exact absurd rfl h
  | free => trivial
  | repeated => trivial
  | _ => rfl

/-- What succeeds on any table succeeds below headers, if no value is on the way. -/
theorem carries_belowHeaders {f : TomlTable → Option TomlTable} {path tail : List String}
    {label : TomlRole} (htail : tail ≠ [])
    (hway : ∀ way, way ≠ [] → way <+: path →
      roles way ≠ .value ∧ (roles way = .free → label = .implied))
    (h : ∀ last, Carries f last (fun rest => roles (path ++ rest))
      (TomlRoles.define (fun rest => roles (path ++ rest)) tail label role)) :
    Carries (changeBelowHeaders f path) .header roles (roles.define (path ++ tail) label role) := by
  refine Carries.change (if path = [] then .header else entered .implied (roles path)) htail
    (fun way hne hprefix => ?_) (fun h => if_pos h) (fun h => if_neg h) (h _)
  obtain ⟨hvalue, hlabel⟩ := hway way hne hprefix
  exact ⟨open_of_ne_value hvalue, hlabel⟩

/-- Where there is no value, there is a table once something is defined below. -/
theorem reached_of_above {upper lower : List String} {way : TomlRole} (hlower : lower ≠ [])
    (hway : way ≠ .free ∧ way ≠ .value) (hupper : roles upper ≠ .value) :
    (roles.define (upper ++ lower) way role) upper ≠ .free ∧
      (roles.define (upper ++ lower) way role) upper ≠ .value := by
  rw [define_of_above hlower]
  split
  · exact hway
  · next hfree => exact ⟨hfree, hupper⟩

/-- The way to a new header leads through tables, and its table is one. -/
theorem reached_define (hrole : role ≠ .free ∧ role ≠ .value)
    (hway : ∀ way ∈ key.way.inits, roles way ≠ .value) :
    ∀ way, way ≠ [] → way <+: key.path → (roles.define key.path .implied role) way ≠ .free ∧
      (roles.define key.path .implied role) way ≠ .value := by
  intro way _ hprefix
  rcases List.prefix_concat_iff.mp hprefix with rfl | habove
  · rw [← TomlKey.path, TomlRoles.define, if_pos rfl]
    exact hrole
  · have hvalue := hway way ((List.mem_inits _ _).mpr habove)
    obtain ⟨rest, hrest⟩ := habove
    rw [TomlKey.path, ← hrest, List.append_assoc]
    exact reached_of_above (List.append_ne_nil_of_right_ne_nil rest (List.cons_ne_nil _ _))
      (by decide) hvalue

/-- A header that fits opens its table. -/
theorem Follows.open {f : TomlTable → Option TomlTable} (h : Follows document roles)
    (hrole : role ≠ .free ∧ role ≠ .value) (hway : ∀ way ∈ key.way.inits, roles way ≠ .value)
    (hcarries : ∀ last, Carries f last (fun rest => roles (key.way ++ rest))
      (TomlRoles.define (fun rest => roles (key.way ++ rest)) [key.name] .implied role)) :
    ∃ table, changeBelowHeaders f key.way document.table = some table ∧
      Follows ⟨table, key.path⟩ (roles.define key.path .implied role) := by
  have hopen : ∀ way, way ≠ [] → way <+: key.way →
      roles way ≠ .value ∧ (roles way = .free → TomlRole.implied = .implied) := fun way _ hprefix =>
    ⟨hway way ((List.mem_inits _ _).mpr hprefix), fun _ => rfl⟩
  obtain ⟨table, htable, horigin, hplays⟩ :=
    carries_belowHeaders (List.cons_ne_nil key.name []) hopen hcarries _ h.origin h.plays
  exact ⟨table, htable, horigin, hplays, reached_define hrole hway⟩

theorem Follows.entry {value : Toml} (h : Follows document roles) (hvalue : value.IsComplete)
    (hfits : roles.Fits document.current (.entry key value)) :
    ∃ table, changeBelowHeaders (assign · key value) document.current document.table = some table ∧
      Follows ⟨table, document.current⟩
        (roles.define (document.current ++ key.path) .dotted .value) := by
  obtain ⟨hway, hlast, hname⟩ := hfits
  have hopen : ∀ way, way ≠ [] → way <+: document.current →
      roles way ≠ .value ∧ (roles way = .free → TomlRole.dotted = .implied) := by
    intro way hne hprefix
    obtain ⟨hfree, hreached⟩ := h.reached way hne hprefix
    exact ⟨hreached, fun hrole => absurd hrole hfree⟩
  obtain ⟨table, htable, horigin, hplays⟩ :=
    carries_belowHeaders key.path_ne_nil hopen (fun _ => carries_assign hvalue hway hlast hname) _
      h.origin h.plays
  refine ⟨table, htable, horigin, hplays, fun way hne hprefix => ?_⟩
  obtain ⟨-, hreached⟩ := h.reached way hne hprefix
  obtain ⟨rest, hrest⟩ := hprefix
  change way ++ rest = document.current at hrest
  rw [← hrest, List.append_assoc]
  exact reached_of_above (List.append_ne_nil_of_right_ne_nil rest key.path_ne_nil) (by decide)
    hreached

/-- A statement that fits can be carried out. -/
theorem Follows.step {statement : TomlStatement} (h : Follows document roles)
    (hcomplete : ∀ key value, statement = .entry key value → value.IsComplete)
    (hfits : roles.Fits document.current statement) :
    ∃ document', document.step statement = some document' ∧
      document'.current = openNext document.current statement ∧
        Follows document' (roles.next document.current statement) := by
  cases statement with
  | header key =>
      obtain ⟨table, hchange, hfollows⟩ :=
        h.open (by decide) hfits.1 fun last => carries_openTable hfits.2
      exact ⟨⟨table, key.path⟩, by rw [TomlDocument.step, hchange]; rfl, rfl, hfollows⟩
  | repeatedHeader key =>
      obtain ⟨table, hchange, hfollows⟩ :=
        h.open (by decide) hfits.1 fun last => carries_openRepeated hfits.2
      exact ⟨⟨table, key.path⟩, by rw [TomlDocument.step, hchange]; rfl, rfl, hfollows⟩
  | entry key value =>
      obtain ⟨table, hchange, hfollows⟩ := h.entry (hcomplete key value rfl) hfits
      exact ⟨⟨table, document.current⟩, by rw [TomlDocument.step, hchange]; rfl, rfl, hfollows⟩

theorem Follows.run {statements : List TomlStatement} (h : Follows document roles)
    (hcomplete : ∀ key value, .entry key value ∈ statements → value.IsComplete)
    (hfit : roles.AllFit document.current statements) :
    ∃ document', statements.foldlM TomlDocument.step document = some document' := by
  induction statements generalizing document roles with
  | nil => exact ⟨document, rfl⟩
  | cons statement statements ih =>
      obtain ⟨hfits, hothers⟩ := hfit
      obtain ⟨next, hstep, hcurrent, hfollows⟩ := h.step
        (fun key value heq => hcomplete key value (heq ▸ List.mem_cons_self)) hfits
      obtain ⟨document', hrun⟩ := ih hfollows
        (fun key value hmem => hcomplete key value (List.mem_cons_of_mem _ hmem))
        (hcurrent ▸ hothers)
      exact ⟨document', by rw [List.foldlM_cons, hstep]; exact hrun⟩

/-- Statements that fit together make a table. -/
theorem exists_ofStatements? {statements : List TomlStatement}
    (hcomplete : ∀ key value, .entry key value ∈ statements → value.IsComplete)
    (hconsistent : Consistent statements) : ∃ table, ofStatements? statements = some table := by
  obtain ⟨document, hrun⟩ := follows_empty.run hcomplete hconsistent
  exact ⟨document.table, by rw [ofStatements?, hrun]; rfl⟩

end TomlDocument

end PlanLowering
