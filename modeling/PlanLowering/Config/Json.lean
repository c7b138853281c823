import PlanLowering.Config.Basic
import PlanLowering.Json.Scalar

/-!
JSON of the configuration. Every field may be absent and has the default of the record it is in.
-/

namespace PlanLowering

open Decoder Fields

namespace CompilerOptions

def toJson (options : CompilerOptions) : Json :=
  .object
    [("default_mode", .named options.defaultMode),
      ("max_plan_depth", .uint64 options.maxPlanDepth),
      ("trace_strategies", .bool options.traceStrategies)]

def decoder : Decoder CompilerOptions :=
  let defaults : CompilerOptions := {}
  (fun (mode, depth, trace, ()) => ⟨mode, depth, trace⟩) <$>
    record "struct CompilerOptions"
      (Fields.optional "default_mode" (vocabulary Mode) defaults.defaultMode <|
        Fields.optional "max_plan_depth" (uint64 "usize") defaults.maxPlanDepth <|
        Fields.optional "trace_strategies" Decoder.bool defaults.traceStrategies done)

end CompilerOptions

namespace LogConfig

def toJson (log : LogConfig) : Json :=
  .object
    [("level", .string log.level), ("dir", .string log.dir), ("file", .string log.file),
      ("max_file_size", .uint64 log.maxFileSize), ("max_files", .uint64 log.maxFiles)]

def decoder : Decoder LogConfig :=
  let defaults : LogConfig := {}
  (fun (level, dir, file, size, files, ()) => ⟨level, dir, file, size, files⟩) <$>
    record "struct LogConfig"
      (Fields.optional "level" (Decoder.string "a string") defaults.level <|
        Fields.optional "dir" (Decoder.string "a string") defaults.dir <|
        Fields.optional "file" (Decoder.string "a string") defaults.file <|
        Fields.optional "max_file_size" (uint64 "u64") defaults.maxFileSize <|
        Fields.optional "max_files" (uint64 "usize") defaults.maxFiles done)

end LogConfig

namespace Config

def toJson (config : Config) : Json :=
  .object [("compiler", config.compiler.toJson), ("log", config.log.toJson)]

def decoder : Decoder Config :=
  (fun (compiler, log, ()) => ⟨compiler, log⟩) <$>
    record "struct Config"
      (Fields.optional "compiler" CompilerOptions.decoder {} <|
        Fields.optional "log" LogConfig.decoder {} done)

end Config

end PlanLowering
