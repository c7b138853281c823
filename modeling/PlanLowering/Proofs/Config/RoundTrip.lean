import PlanLowering.Config.File
import PlanLowering.Proofs.Toml.Lines
import PlanLowering.Proofs.Toml.Tables

/-!
A configuration that was saved is the one that is loaded again. Its document gives every setting in a
line of its own: each is read back as it was written, so that no default takes its place.
-/

namespace PlanLowering

open TomlReader TomlDocument

/-- A text that was written to a file is read from it. -/
theorem FilePlace.read_written (text : String) :
    (inDirectory (some text.toUTF8)).read = .ok text := by
  have htext : String.fromUTF8? text.toUTF8 = some text := by
    rw [String.fromUTF8?, String.toUTF8_eq_toByteArray, dif_pos text.isValidUTF8]
    rfl
  rw [read, htext]

namespace Toml

theorem skippable_of_names {origin : TomlOrigin} {entries : List (String × Toml)}
    {settings : List String} (hnames : entries.map Prod.fst = settings) :
    (table origin entries).skippable settings = true := by
  rw [skippable, List.all_eq_true]
  intro entry hentry
  have hmem : entry.1 ∈ settings := hnames ▸ List.mem_map_of_mem hentry
  simp [hmem]

/-- A setting that the group gives is read from it. -/
theorem settingOr_of_lookup {α : Type} {name : String} {origin : TomlOrigin} {value : Toml}
    {entries : List (String × Toml)} (hvalue : entries.lookup name = some value) (place : Nat)
    (decode : Toml → Option α) (default : α) :
    (table origin entries).settingOr place name decode default = decode value := by
  rw [settingOr, setting?, Option.bind_eq_bind, Option.bind_some, hvalue]

end Toml

namespace CompilerOptions

/-- The options as entries of a table. -/
def tomlEntries (options : CompilerOptions) : List (String × Toml) :=
  [("default_mode", .string (Named.name options.defaultMode)),
    ("max_plan_depth", .integer options.maxPlanDepth.toNat),
    ("trace_strategies", .boolean options.traceStrategies)]

theorem map_fst_tomlEntries (options : CompilerOptions) :
    options.tomlEntries.map Prod.fst = settings :=
  rfl

theorem statements?_tomlLines (options : CompilerOptions) (more : List Char) :
    statements? (options.tomlLines ++ more) =
      (statements? more).map (options.tomlEntries.map entryStatement ++ ·) := by
  have hmode : Bare "default_mode" := by decide
  have hdepth : Bare "max_plan_depth" := by decide
  have htrace : Bare "trace_strategies" := by decide
  rw [tomlLines, List.append_assoc, List.append_assoc, statements?_line hmode (isValue_text _),
    statements?_line hdepth (isValue_word _), statements?_line htrace (isValue_flag _),
    Option.map_map, Option.map_map]
  rfl

theorem ofToml?_tomlEntries (options : CompilerOptions) :
    ofToml? (.table .header options.tomlEntries) = some options := by
  have hmode : options.tomlEntries.lookup "default_mode" =
      some (.string (Named.name options.defaultMode)) := rfl
  have hdepth : options.tomlEntries.lookup "max_plan_depth" =
      some (.integer options.maxPlanDepth.toNat) := rfl
  have htrace : options.tomlEntries.lookup "trace_strategies" =
      some (.boolean options.traceStrategies) := rfl
  simp only [ofToml?, Toml.skippable_of_names options.map_fst_tomlEntries, guard_true,
    Toml.settingOr_of_lookup hmode, Toml.settingOr_of_lookup hdepth,
    Toml.settingOr_of_lookup htrace, Toml.member?, Named.ofName?_name, Toml.word?_integer,
    Toml.flag?, Option.bind_eq_bind, Option.bind_some, Option.pure_def]

end CompilerOptions

namespace LogConfig

/-- The settings of the log as entries of a table. -/
def tomlEntries (log : LogConfig) : List (String × Toml) :=
  [("level", .string log.level), ("dir", .string log.dir), ("file", .string log.file),
    ("max_file_size", .integer log.maxFileSize.toNat), ("max_files", .integer log.maxFiles.toNat)]

theorem map_fst_tomlEntries (log : LogConfig) : log.tomlEntries.map Prod.fst = settings :=
  rfl

theorem statements?_tomlLines (log : LogConfig) (more : List Char) :
    statements? (log.tomlLines ++ more) =
      (statements? more).map (log.tomlEntries.map entryStatement ++ ·) := by
  have hlevel : Bare "level" := by decide
  have hdir : Bare "dir" := by decide
  have hfile : Bare "file" := by decide
  have hsize : Bare "max_file_size" := by decide
  have hfiles : Bare "max_files" := by decide
  simp only [tomlLines, List.append_assoc, statements?_line hlevel (isValue_text _),
    statements?_line hdir (isValue_text _), statements?_line hfile (isValue_text _),
    statements?_line hsize (isValue_word _), statements?_line hfiles (isValue_word _),
    Option.map_map]
  rfl

theorem ofToml?_tomlEntries (log : LogConfig) :
    ofToml? (.table .header log.tomlEntries) = some log := by
  have hlevel : log.tomlEntries.lookup "level" = some (.string log.level) := rfl
  have hdir : log.tomlEntries.lookup "dir" = some (.string log.dir) := rfl
  have hfile : log.tomlEntries.lookup "file" = some (.string log.file) := rfl
  have hsize : log.tomlEntries.lookup "max_file_size" = some (.integer log.maxFileSize.toNat) := rfl
  have hfiles : log.tomlEntries.lookup "max_files" = some (.integer log.maxFiles.toNat) := rfl
  simp only [ofToml?, Toml.skippable_of_names log.map_fst_tomlEntries, guard_true,
    Toml.settingOr_of_lookup hlevel, Toml.settingOr_of_lookup hdir, Toml.settingOr_of_lookup hfile,
    Toml.settingOr_of_lookup hsize, Toml.settingOr_of_lookup hfiles, Toml.text?,
    Toml.word?_integer, Option.bind_eq_bind, Option.bind_some, Option.pure_def]

end LogConfig

namespace Config

/-- The configuration as a document of two groups. -/
def tomlGroups (config : Config) : List Group :=
  [("compiler", config.compiler.tomlEntries), ("log", config.log.tomlEntries)]

theorem map_fst_tomlGroups (config : Config) : config.tomlGroups.map Prod.fst = settings :=
  rfl

theorem statements?_document (config : Config) :
    statements? config.document.toList = some (config.tomlGroups.flatMap groupStatements) := by
  have hcompiler : Bare "compiler" := by decide
  have hlog : Bare "log" := by decide
  have hlines := config.log.statements?_tomlLines []
  rw [List.append_nil, statements?_nil, Option.map_some] at hlines
  rw [document, String.toList_ofList, List.append_assoc, List.append_assoc, List.cons_append,
    statements?_header hcompiler _ (.inl rfl), CompilerOptions.statements?_tomlLines,
    statements?_header hlog _ (.inr rfl), hlines]
  rfl

theorem ofToml?_tomlGroups (config : Config) :
    ofToml? (.table .header (config.tomlGroups.map groupTable)) = some config := by
  have hnames : (config.tomlGroups.map groupTable).map Prod.fst = settings := by
    rw [map_fst_groupTable, map_fst_tomlGroups]
  have hcompiler : (config.tomlGroups.map groupTable).lookup "compiler" =
      some (.table .header config.compiler.tomlEntries) := rfl
  have hlog : (config.tomlGroups.map groupTable).lookup "log" =
      some (.table .header config.log.tomlEntries) := rfl
  simp only [ofToml?, Toml.skippable_of_names hnames, guard_true, Toml.settingOr_of_lookup hcompiler,
    Toml.settingOr_of_lookup hlog, CompilerOptions.ofToml?_tomlEntries,
    LogConfig.ofToml?_tomlEntries, Option.bind_eq_bind, Option.bind_some, Option.pure_def]

theorem read?_document (config : Config) :
    read? config.document = some ⟨.header, config.tomlGroups.map groupTable⟩ := by
  have hmark : dropMark config.document.toList = config.document.toList := by
    rw [document, String.toList_ofList]
    rfl
  rw [read?, hmark, statements?_document, Option.bind_eq_bind, Option.bind_some]
  apply ofStatements?_groups
  · rw [map_fst_tomlGroups]
    decide
  · intro group hgroup
    simp only [tomlGroups, List.mem_cons, List.not_mem_nil, or_false] at hgroup
    rcases hgroup with rfl | rfl
    · rw [CompilerOptions.map_fst_tomlEntries]
      decide
    · rw [LogConfig.map_fst_tomlEntries]
      decide

theorem ofDocument_document (config : Config) : ofDocument config.document = .ok config := by
  rw [ofDocument, ofDocumentAs, read?_document, Option.bind_some, TomlTable.toValue, ofToml?_tomlGroups]

theorem load_written (config : Config) :
    load (.inDirectory (some config.document.toUTF8)) = .ok config := by
  rw [load, FilePlace.read_written]
  exact ofDocument_document config

theorem save_inDirectory (config : Config) (content : Option ByteArray) :
    config.save (.inDirectory content) = .ok (.inDirectory (some config.document.toUTF8)) :=
  rfl

theorem save_nowhere (config : Config) : config.save .nowhere = .error (.file .notFound) :=
  rfl

/-- What was saved is loaded again; saving succeeds wherever there is a directory; and when there is no
text to save, the file stays as it was. -/
theorem save_roundTrip (config : Config) :
    (∀ place saved, config.save place = .ok saved → load saved = .ok config) ∧
      (∀ content, ∃ saved, config.save (.inDirectory content) = .ok saved) ∧
      ∀ serialize place, serialize config = none →
        (saveAs serialize config).run.run place = (.error .serialize, place) := by
  refine ⟨?_, ?_, ?_⟩
  · intro place saved hsave
    cases place with
    | nowhere =>
        rw [save_nowhere] at hsave
        cases hsave
    | inDirectory content =>
        rw [save_inDirectory] at hsave
        cases hsave
        exact load_written config
  · intro content
    exact ⟨_, save_inDirectory config content⟩
  · intro serialize place hserialize
    rw [saveAs, hserialize]
    rfl

/-- Texts with quotes, backslashes and control characters, and the largest number. -/
def awkward : Config where
  compiler := { defaultMode := .permissive, maxPlanDepth := 18446744073709551615 }
  log :=
    { level := "it's \"info\"", dir := "C:\\logs\n\x01", file := "'''\"\"\"", maxFiles := 0 }

theorem save_roundTrip_awkward :
    (∃ saved, awkward.save (.inDirectory none) = .ok saved ∧ load saved = .ok awkward) ∧
      (saveAs (fun _ => none) awkward).run.run (.inDirectory (some "kept".toUTF8)) =
        (.error .serialize, .inDirectory (some "kept".toUTF8)) := by
  obtain ⟨hload, hsaves, hkept⟩ := save_roundTrip awkward
  obtain ⟨saved, hsave⟩ := hsaves none
  exact ⟨⟨saved, hsave, hload _ saved hsave⟩, hkept (fun _ => none) _ rfl⟩

end Config

end PlanLowering
