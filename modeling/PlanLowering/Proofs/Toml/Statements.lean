import PlanLowering.Proofs.Toml.Paths

/-!
What the statements of a TOML document say about a path of names, whatever their order: an entry says
the value of its key, and what is inside that value. The table that the statements make holds what they
say and nothing else.
-/

namespace PlanLowering.TomlDocument

open Toml TomlTable

/-! ### What is said -/

/-- The path of the table that is open behind one more statement. -/
def openNext (current : List String) : TomlStatement → List String
  | .header key | .repeatedHeader key => key.path
  | .entry _ _ => current

/-- The path of the latest header. -/
def openPath (statements : List TomlStatement) : List String :=
  statements.foldl openNext []

/-- The value that a statement gives, and the whole path to it. -/
def given (current : List String) : TomlStatement → List (List String × Toml)
  | .header _ | .repeatedHeader _ => []
  | .entry key value => [(current ++ key.path, value)]

def givenFrom (current : List String) : List TomlStatement → List (List String × Toml)
  | [] => []
  | statement :: statements =>
    given current statement ++ givenFrom (openNext current statement) statements

/-- A statement gives the value, or one that it is inside of. -/
def Says (statements : List TomlStatement) (path : List String) (value : Toml) : Prop :=
  ∃ entry ∈ givenFrom [] statements, ∃ rest,
    path = entry.1 ++ rest ∧ entry.2.reach? rest = some value

/-- The path leads to a header, to a value that is given, or to what is inside of one. -/
def Mentions (statements : List TomlStatement) (path : List String) : Prop :=
  (∃ key, (.header key ∈ statements ∨ .repeatedHeader key ∈ statements) ∧ path <+: key.path) ∨
    (∃ entry ∈ givenFrom [] statements, path <+: entry.1) ∨ ∃ value, Says statements path value

/-- The path leads to a table with a repeated header, or into it. -/
def InRepeated (statements : List TomlStatement) (path : List String) : Prop :=
  ∃ key, .repeatedHeader key ∈ statements ∧ key.path <+: path

section Saying

variable {statements : List TomlStatement} {statement : TomlStatement} {path : List String}
variable {value : Toml} {key : TomlKey}

theorem openPath_snoc (statements : List TomlStatement) (statement : TomlStatement) :
    openPath (statements ++ [statement]) = openNext (openPath statements) statement := by
  rw [openPath, List.foldl_append]
  rfl

theorem givenFrom_append (current : List String) (statements more : List TomlStatement) :
    givenFrom current (statements ++ more) =
      givenFrom current statements ++ givenFrom (statements.foldl openNext current) more := by
  induction statements generalizing current with
  | nil => rfl
  | cons statement statements ih =>
      rw [List.cons_append, givenFrom, givenFrom, ih, List.append_assoc, List.foldl_cons]

theorem givenFrom_snoc (statements : List TomlStatement) (statement : TomlStatement) :
    givenFrom [] (statements ++ [statement]) =
      givenFrom [] statements ++ given (openPath statements) statement := by
  rw [givenFrom_append, givenFrom, givenFrom, List.append_nil]
  rfl

theorem mem_givenFrom_append {entry : List String × Toml} (h : entry ∈ givenFrom [] statements)
    (more : List TomlStatement) : entry ∈ givenFrom [] (statements ++ more) := by
  rw [givenFrom_append]
  exact List.mem_append_left _ h

theorem mem_givenFrom_last (statements : List TomlStatement) (key : TomlKey) (value : Toml) :
    (openPath statements ++ key.path, value) ∈ givenFrom [] (statements ++ [.entry key value]) := by
  rw [givenFrom_snoc]
  exact List.mem_append_right _ (List.mem_singleton_self _)

theorem Says.append (h : Says statements path value) (more : List TomlStatement) :
    Says (statements ++ more) path value := by
  obtain ⟨entry, hentry, hvalue⟩ := h
  exact ⟨entry, mem_givenFrom_append hentry more, hvalue⟩

theorem Says.last {rest : List String} {whole : Toml} (hvalue : whole.reach? rest = some value) :
    Says (statements ++ [.entry key whole]) (openPath statements ++ (key.path ++ rest)) value :=
  ⟨_, mem_givenFrom_last statements key whole, rest, (List.append_assoc ..).symm, hvalue⟩

/-- What is said is said before the last statement or by it. -/
theorem Says.of_snoc (h : Says (statements ++ [statement]) path value) :
    Says statements path value ∨ ∃ key whole rest, statement = .entry key whole ∧
      path = openPath statements ++ (key.path ++ rest) ∧ whole.reach? rest = some value := by
  obtain ⟨entry, hentry, rest, hpath, hvalue⟩ := h
  rw [givenFrom_snoc, List.mem_append] at hentry
  rcases hentry with hbefore | hlast
  · exact Or.inl ⟨entry, hbefore, rest, hpath, hvalue⟩
  · cases statement with
    | entry key whole =>
        obtain rfl := List.mem_singleton.mp hlast
        exact Or.inr ⟨key, whole, rest, rfl, by rw [hpath, List.append_assoc], hvalue⟩
    | header key => cases hlast
    | repeatedHeader key => cases hlast

theorem ne_nil_of_mem_givenFrom {entry : List String × Toml} {current : List String}
    (h : entry ∈ givenFrom current statements) : entry.1 ≠ [] := by
  induction statements generalizing current with
  | nil => cases h
  | cons statement statements ih =>
      rw [givenFrom, List.mem_append] at h
      rcases h with hfirst | hothers
      · cases statement with
        | entry key whole =>
            obtain rfl := List.mem_singleton.mp hfirst
            exact List.append_ne_nil_of_right_ne_nil _ key.path_ne_nil
        | header key => cases hfirst
        | repeatedHeader key => cases hfirst
      · exact ih hothers

theorem Says.ne_nil (h : Says statements path value) : ∃ name others, path = name :: others := by
  obtain ⟨entry, hentry, rest, rfl, -⟩ := h
  exact List.exists_cons_of_ne_nil
    (List.append_ne_nil_of_left_ne_nil (ne_nil_of_mem_givenFrom hentry) rest)

theorem Mentions.append (h : Mentions statements path) (more : List TomlStatement) :
    Mentions (statements ++ more) path := by
  rcases h with ⟨key, hkey, hpath⟩ | ⟨entry, hentry, hpath⟩ | ⟨value, hsays⟩
  · exact Or.inl ⟨key, hkey.imp (List.mem_append_left _) (List.mem_append_left _), hpath⟩
  · exact Or.inr (Or.inl ⟨entry, mem_givenFrom_append hentry more, hpath⟩)
  · exact Or.inr (Or.inr ⟨value, hsays.append more⟩)

theorem InRepeated.append (h : InRepeated statements path) (more : List TomlStatement) :
    InRepeated (statements ++ more) path := by
  obtain ⟨key, hkey, hpath⟩ := h
  exact ⟨key, List.mem_append_left _ hkey, hpath⟩

end Saying

/-! ### What is found -/

/-- What a table may hold at the end of a path: a table, what was said to be there, or repeated tables
that were said to be there or have a header of their own. -/
def Justified (statements : List TomlStatement) (path : List String) (value : Toml) : Prop :=
  Mentions statements path ∧
    (value.IsTable ∨ value.IsLeaf ∧ Says statements path value ∨
      value.IsRepeated ∧ ((∃ key, .repeatedHeader key ∈ statements ∧ key.path = path) ∨
        ∃ other, other.IsRepeated ∧ Says statements path other))

section Justified

variable {statements : List TomlStatement} {path : List String} {before value : Toml}

theorem Justified.append (h : Justified statements path value) (more : List TomlStatement) :
    Justified (statements ++ more) path value := by
  refine ⟨h.1.append more, h.2.imp_right ?_⟩
  rintro (⟨hleaf, hsays⟩ | ⟨hrepeated, hwhere⟩)
  · exact Or.inl ⟨hleaf, hsays.append more⟩
  · refine Or.inr ⟨hrepeated, hwhere.imp ?_ ?_⟩
    · rintro ⟨key, hkey, hpath⟩
      exact ⟨key, List.mem_append_left _ hkey, hpath⟩
    · rintro ⟨other, hother, hsays⟩
      exact ⟨other, hother, hsays.append more⟩

theorem not_isRepeated_of_isTable (h : value.IsTable) : ¬ value.IsRepeated := by
  cases value with
  | table _ _ => exact id
  | _ => exact absurd h id

theorem Justified.became (h : Justified statements path before) (hbecame : before.Became value) :
    Justified statements path value := by
  rcases hbecame with rfl | ⟨-, htable⟩ | ⟨hrepeated, hafter⟩
  · exact h
  · exact ⟨h.1, Or.inl htable⟩
  · refine ⟨h.1, Or.inr (Or.inr ⟨hafter, ?_⟩)⟩
    rcases h.2 with htable | ⟨hleaf, -⟩ | ⟨-, hwhere⟩
    · exact absurd hrepeated (not_isRepeated_of_isTable htable)
    · exact absurd hrepeated hleaf.2
    · exact hwhere

theorem justified_of_says (h : Says statements path value) : Justified statements path value := by
  refine ⟨Or.inr (Or.inr ⟨value, h⟩), ?_⟩
  by_cases htable : value.IsTable
  · exact Or.inl htable
  · by_cases hrepeated : value.IsRepeated
    · exact Or.inr (Or.inr ⟨hrepeated, Or.inr ⟨value, hrepeated, h⟩⟩)
    · exact Or.inr (Or.inl ⟨⟨htable, hrepeated⟩, h⟩)

end Justified

/-! ### Statement after statement -/

/-- The path of the table that a statement changes. -/
def target (current : List String) : TomlStatement → List String
  | .header key | .repeatedHeader key => key.way
  | .entry _ _ => current

/-- What a statement does to the table that it changes. -/
def effect : TomlStatement → TomlTable → Option TomlTable
  | .header key => openTable key.name
  | .repeatedHeader key => openRepeated key.name
  | .entry key value => fun table => table.assign key value

/-- A step that succeeds is a change at the end of a path. -/
theorem change_of_step {document document' : TomlDocument} {statement : TomlStatement}
    (h : document.step statement = some document') :
    document'.current = openNext document.current statement ∧
      changeBelowHeaders (effect statement) (target document.current statement) document.table =
        some document'.table := by
  cases statement
  all_goals
    obtain ⟨table, hchange, heq⟩ := Option.bind_eq_some_iff.mp h
    obtain rfl := Option.some.inj heq
    exact ⟨rfl, hchange⟩

/-- The document holds what the statements say, and nothing else. Of repeated tables only the latest is
looked at, so that what is said below them need not be found. -/
structure Agrees (document : TomlDocument) (statements : List TomlStatement) : Prop where
  current : document.current = openPath statements
  kept : ∀ path value, value.IsLeaf → Says statements path value → ¬ InRepeated statements path →
    document.table.toValue.reach? path = some value
  justified : ∀ name path value, document.table.toValue.reach? (name :: path) = some value →
    Justified statements (name :: path) value

section Steps

variable {document document' : TomlDocument} {statements : List TomlStatement}
variable {statement : TomlStatement}

theorem agrees_empty : Agrees empty [] where
  current := rfl
  kept path value _ hsays := by
    obtain ⟨entry, hentry, -⟩ := hsays
    cases hentry
  justified name path value hvalue := by cases hvalue

/-- One more statement keeps what was said, adds what it says, and nothing that is not said. -/
theorem Agrees.snoc (h : Agrees document statements)
    (hcurrent : document'.current = openNext document.current statement)
    (hkeeps : Keeps (InRepeated (statements ++ [statement])) document.table document'.table)
    (hadds : Adds (Justified (statements ++ [statement])) document.table document'.table)
    (hsaid : ∀ key whole rest, statement = .entry key whole →
      document'.table.toValue.reach? (openPath statements ++ (key.path ++ rest)) =
        whole.reach? rest) :
    Agrees document' (statements ++ [statement]) where
  current := by rw [hcurrent, h.current, openPath_snoc]
  kept path value hleaf hsays hrepeated := by
    rcases hsays.of_snoc with hbefore | ⟨key, whole, rest, hstatement, rfl, hvalue⟩
    · have hfound := h.kept path value hleaf hbefore fun hin => hrepeated (hin.append _)
      obtain ⟨name, others, rfl⟩ := hbefore.ne_nil
      exact hkeeps name others value hleaf hrepeated hfound
    · rw [hsaid key whole rest hstatement, hvalue]
  justified name path value hvalue := by
    rcases hadds name path value hvalue with ⟨before, hbefore, hbecame⟩ | hadded
    · exact ((h.justified name path before hbefore).append _).became hbecame
    · exact hadded

theorem Agrees.header {key : TomlKey} (h : Agrees document statements)
    (hstep : step document (.header key) = some document') :
    Agrees document' (statements ++ [.header key]) := by
  have hkey : TomlStatement.header key ∈ statements ++ [.header key] := by simp
  obtain ⟨hcurrent, hchange⟩ := change_of_step hstep
  refine h.snoc hcurrent ((change_keeps (fun _ _ => openTable_keeps) hchange).mono ?_)
    ((change_adds (fun _ _ => openTable_adds) hchange).mono ?_) ?_
  · rintro path ⟨_, _, hlost⟩
    exact absurd hlost id
  · rintro path value (⟨hpath, htable⟩ | ⟨_, rfl, rfl, htable⟩)
    · have hprefix : path <+: key.path := hpath.trans (List.prefix_append _ _)
      exact ⟨Or.inl ⟨key, .inl hkey, hprefix⟩, Or.inl htable⟩
    · exact ⟨Or.inl ⟨key, .inl hkey, List.prefix_rfl⟩, Or.inl htable⟩
  · rintro _ _ _ ⟨⟩

theorem Agrees.repeatedHeader {key : TomlKey} (h : Agrees document statements)
    (hstep : step document (.repeatedHeader key) = some document') :
    Agrees document' (statements ++ [.repeatedHeader key]) := by
  have hkey : TomlStatement.repeatedHeader key ∈ statements ++ [.repeatedHeader key] := by simp
  obtain ⟨hcurrent, hchange⟩ := change_of_step hstep
  refine h.snoc hcurrent ((change_keeps (fun _ _ => openRepeated_keeps) hchange).mono ?_)
    ((change_adds (fun _ _ => openRepeated_adds) hchange).mono ?_) ?_
  · rintro path ⟨rest, rfl, hrest⟩
    exact ⟨key, hkey, (List.prefix_append_right_inj _).mpr hrest⟩
  · rintro path value (⟨hpath, htable⟩ | ⟨_, rfl, rfl, hrepeated⟩)
    · have hprefix : path <+: key.path := hpath.trans (List.prefix_append _ _)
      exact ⟨Or.inl ⟨key, .inr hkey, hprefix⟩, Or.inl htable⟩
    · refine ⟨Or.inl ⟨key, .inr hkey, List.prefix_rfl⟩, Or.inr (Or.inr ⟨hrepeated, Or.inl ?_⟩)⟩
      exact ⟨key, hkey, rfl⟩
  · rintro _ _ _ ⟨⟩

theorem Agrees.entry {key : TomlKey} {whole : Toml} (h : Agrees document statements)
    (hstep : step document (.entry key whole) = some document') :
    Agrees document' (statements ++ [.entry key whole]) := by
  have hmentioned : ∀ {path}, path <+: openPath statements ++ key.path →
      Mentions (statements ++ [.entry key whole]) path :=
    fun hpath => Or.inr (Or.inl ⟨_, mem_givenFrom_last statements key whole, hpath⟩)
  obtain ⟨hcurrent, hchange⟩ := change_of_step hstep
  rw [h.current] at hchange
  refine h.snoc hcurrent ((change_keeps (fun _ _ => assign_keeps) hchange).mono ?_)
    ((change_adds (fun _ _ => assign_adds) hchange).mono ?_) ?_
  · rintro path ⟨_, _, hlost⟩
    exact absurd hlost id
  · rintro path value (⟨hpath, htable⟩ | ⟨_, rfl, ⟨hpath, htable⟩ | ⟨rest, rfl, hvalue⟩⟩)
    · exact ⟨hmentioned (hpath.trans (List.prefix_append _ _)), Or.inl htable⟩
    · refine ⟨hmentioned ?_, Or.inl htable⟩
      exact (List.prefix_append_right_inj _).mpr (hpath.trans (List.prefix_append _ _))
    · exact justified_of_says (.last hvalue)
  · rintro _ _ rest ⟨⟩
    obtain ⟨below, below', hassign, hreach⟩ := change_reach? hchange
    have hassigned := assign_reach? hassign rest
    obtain ⟨name, others, hpath⟩ := List.exists_cons_of_ne_nil
      (List.append_ne_nil_of_left_ne_nil key.path_ne_nil rest)
    rw [hpath] at hassigned ⊢
    exact (hreach name others).trans hassigned

theorem Agrees.step (h : Agrees document statements)
    (hstep : document.step statement = some document') :
    Agrees document' (statements ++ [statement]) := by
  cases statement with
  | header key => exact h.header hstep
  | repeatedHeader key => exact h.repeatedHeader hstep
  | entry key whole => exact h.entry hstep

theorem Agrees.run {more : List TomlStatement} (h : Agrees document statements)
    (hrun : more.foldlM TomlDocument.step document = some document') :
    Agrees document' (statements ++ more) := by
  induction more generalizing document statements with
  | nil =>
      cases hrun
      rwa [List.append_nil]
  | cons statement more ih =>
      obtain ⟨next, hstep, hrest⟩ := Option.bind_eq_some_iff.mp hrun
      have hmore := ih (h.step hstep) hrest
      rwa [List.append_assoc] at hmore

end Steps

section Documents

variable {statements : List TomlStatement} {table : TomlTable}

theorem agrees_of_ofStatements? (h : ofStatements? statements = some table) :
    ∃ current, Agrees ⟨table, current⟩ statements := by
  obtain ⟨document, hrun, heq⟩ := Option.bind_eq_some_iff.mp h
  obtain rfl := Option.some.inj heq
  exact ⟨document.current, agrees_empty.run hrun⟩

end Documents

end PlanLowering.TomlDocument
