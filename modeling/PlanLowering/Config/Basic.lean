import PlanLowering.Mode
import PlanLowering.Number.Numeral
import PlanLowering.Text.Quoted

/-!
The configuration of the compiler and of its log, and what can go wrong around it.
-/

namespace PlanLowering

structure CompilerOptions where
  /-- The mode of a compilation that asks for none. -/
  defaultMode : Mode := .strict
  /-- The depth of the deepest node allowed; the root has depth zero. -/
  maxPlanDepth : UInt64 := 512
  /-- Whether each choice of a strategy is recorded. -/
  traceStrategies : Bool := false
deriving DecidableEq, Repr, Inhabited

structure LogConfig where
  level : String := "info"
  dir : String := "logs"
  file : String := "partiql-compiler"
  maxFileSize : UInt64 := 104857600
  maxFiles : UInt64 := 5
deriving DecidableEq, Repr, Inhabited

structure Config where
  compiler : CompilerOptions := {}
  log : LogConfig := {}
deriving DecidableEq, Repr, Inhabited

/-- Why a file could not be read or written. -/
inductive FileFault where
  | notFound
  /-- The bytes are no UTF-8 text. -/
  | invalidData
deriving DecidableEq, Repr

inductive ConfigError where
  | file (fault : FileFault)
  | parse
  | serialize
  | logger
deriving DecidableEq, Repr

namespace ConfigError

/-- The name of the cause. -/
def cause : ConfigError → String
  | file _ => "Io"
  | parse => "Parse"
  | serialize => "Serialize"
  | logger => "Logger"

/-- The beginning of the message, up to the colon before the details. -/
def headline : ConfigError → String
  | file _ => "读取配置文件失败"
  | parse => "解析配置失败"
  | serialize => "序列化配置失败"
  | logger => "日志初始化失败"

end ConfigError

namespace CompilerOptions

def debug (options : CompilerOptions) : String :=
  Text.record "CompilerOptions"
    [("default_mode", options.defaultMode.debugName),
      ("max_plan_depth", (Numeral.ofNat options.maxPlanDepth.toNat).text),
      ("trace_strategies", if options.traceStrategies then "true" else "false")]

end CompilerOptions

end PlanLowering
