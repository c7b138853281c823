import PlanLowering.Config.Basic
import PlanLowering.Toml.Reader
import PlanLowering.Toml.Settings
import PlanLowering.Toml.Writer

/-!
The configuration as a TOML document. A document gives some of the settings, the others keep their
defaults, and what it says beside them is ignored; so the empty document is the default configuration.
-/

namespace PlanLowering

namespace CompilerOptions

def settings : List String :=
  ["default_mode", "max_plan_depth", "trace_strategies"]

def ofToml? (toml : Toml) : Option CompilerOptions := do
  guard (toml.skippable settings)
  let defaults : CompilerOptions := {}
  let mode ← toml.settingOr 0 "default_mode" (Toml.member? Mode) defaults.defaultMode
  let depth ← toml.settingOr 1 "max_plan_depth" Toml.word? defaults.maxPlanDepth
  let trace ← toml.settingOr 2 "trace_strategies" Toml.flag? defaults.traceStrategies
  return ⟨mode, depth, trace⟩

open TomlWriter in
def tomlLines (options : CompilerOptions) : List Char :=
  line "default_mode" (text options.defaultMode.name) ++
    line "max_plan_depth" (word options.maxPlanDepth) ++
    line "trace_strategies" (flag options.traceStrategies)

end CompilerOptions

namespace LogConfig

def settings : List String :=
  ["level", "dir", "file", "max_file_size", "max_files"]

def ofToml? (toml : Toml) : Option LogConfig := do
  guard (toml.skippable settings)
  let defaults : LogConfig := {}
  let level ← toml.settingOr 0 "level" Toml.text? defaults.level
  let dir ← toml.settingOr 1 "dir" Toml.text? defaults.dir
  let file ← toml.settingOr 2 "file" Toml.text? defaults.file
  let maxFileSize ← toml.settingOr 3 "max_file_size" Toml.word? defaults.maxFileSize
  let maxFiles ← toml.settingOr 4 "max_files" Toml.word? defaults.maxFiles
  return ⟨level, dir, file, maxFileSize, maxFiles⟩

open TomlWriter in
def tomlLines (log : LogConfig) : List Char :=
  line "level" (text log.level) ++ line "dir" (text log.dir) ++ line "file" (text log.file) ++
    line "max_file_size" (word log.maxFileSize) ++ line "max_files" (word log.maxFiles)

end LogConfig

namespace Config

def settings : List String :=
  ["compiler", "log"]

def ofToml? (toml : Toml) : Option Config := do
  guard (toml.skippable settings)
  let compiler ← toml.settingOr 0 "compiler" CompilerOptions.ofToml? {}
  let log ← toml.settingOr 1 "log" LogConfig.ofToml? {}
  return ⟨compiler, log⟩

/-- The configuration that a document describes to a reader of documents. -/
def ofDocumentAs (read : String → Option TomlTable) (text : String) : Except ConfigError Config :=
  match (read text).bind fun table => ofToml? table.toValue with
  | some config => .ok config
  | none => .error .parse

def ofDocument (text : String) : Except ConfigError Config :=
  ofDocumentAs TomlReader.read? text

/-- The document of a configuration: all settings, group by group. -/
def document (config : Config) : String :=
  String.ofList
    (TomlWriter.header "compiler" ++ config.compiler.tomlLines ++ '\n' ::
      TomlWriter.header "log" ++ config.log.tomlLines)

end Config

end PlanLowering
