import PlanLowering.Named

/-!
Log records: what the compiler and the log itself report while they work, and how urgent it is.
-/

namespace PlanLowering

/-- The weight of a record, the most urgent first. -/
inductive LogLevel where
  | error
  | warn
  | info
  | debug
  | trace
deriving DecidableEq, Repr

namespace LogLevel

def name : LogLevel → String
  | error => "ERROR"
  | warn => "WARN"
  | info => "INFO"
  | debug => "DEBUG"
  | trace => "TRACE"

/-- Levels are counted from the most urgent one. -/
def verbosity : LogLevel → Nat
  | error => 1
  | warn => 2
  | info => 3
  | debug => 4
  | trace => 5

end LogLevel

/-- The least urgent level that passes, if any does. -/
inductive LogThreshold where
  | off
  | at (level : LogLevel)
deriving DecidableEq, Repr

namespace LogThreshold

/-- Everything passes. -/
def lowest : LogThreshold :=
  .at .trace

def admits : LogThreshold → LogLevel → Bool
  | off, _ => false
  | .at least, level => level.verbosity ≤ least.verbosity

instance : Named LogThreshold where
  all := [.off, .at .error, .at .warn, .at .info, .at .debug, .at .trace]
  name
    | .off => "off"
    | .at .error => "error"
    | .at .warn => "warn"
    | .at .info => "info"
    | .at .debug => "debug"
    | .at .trace => "trace"
  find_name threshold := by
    rcases threshold with _ | level
    · decide
    · cases level <;> decide

end LogThreshold

/-- The part of the program that sends a record. -/
inductive LogSource where
  | compiler
  | logging
deriving DecidableEq, Repr

/-- The name that a filter knows a source by. -/
def LogSource.target : LogSource → String
  | compiler => "partiql_compiler::query::compiler::plan_compiler"
  | logging => "partiql_compiler::utils::logging"

structure LogRecord where
  level : LogLevel
  source : LogSource
  text : String
deriving DecidableEq, Repr

namespace LogRecord

/-- A record in a log file. -/
def line (record : LogRecord) : String :=
  record.level.name ++ " " ++ record.text

/-- The records that pass a threshold. -/
def passing (threshold : LogThreshold) (records : List LogRecord) : List LogRecord :=
  records.filter fun record => threshold.admits record.level

end LogRecord

end PlanLowering
