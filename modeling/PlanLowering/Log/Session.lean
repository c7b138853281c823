import PlanLowering.Config.Basic
import PlanLowering.Log.Filter

/-!
The life of a log. A process has a slot for the log that is running, and it remembers whether it ever
started one: starting a log while one runs changes nothing, and no second one can be started, not even
when the slot is empty again. A start that fails leaves no trace. The log file comes into being with
the first record that passes the filter.
-/

namespace PlanLowering

/-- Where log files can be kept. -/
structure LogDisk where
  hasRoomFor : LogConfig → Bool

/-- The log of a process. -/
structure LogSession where
  /-- The filter of the log that is running. -/
  slot : Option LogFilter
  /-- Whether the process has started a log; this is never taken back. -/
  started : Bool
  /-- What has been written, and under which settings. -/
  written : Option (LogConfig × List LogRecord)

namespace LogSession

/-- A process that had no log yet. -/
def fresh : LogSession :=
  ⟨none, false, none⟩

def isRunning (session : LogSession) : Bool :=
  session.slot.isSome

/-- The first record of a log. -/
def startRecord (log : LogConfig) : LogRecord :=
  ⟨.info, .logging,
    "编译器日志已启用: 级别 " ++ log.level ++ ", 输出 " ++ log.dir ++ "/" ++ log.file⟩

/-- Records are lost unless a log is running and its filter admits them. -/
def send (session : LogSession) (record : LogRecord) : LogSession :=
  if session.slot.any (·.admits record) then
    { session with written := session.written.map fun (log, records) => (log, records ++ [record]) }
  else session

def sendAll (session : LogSession) (records : List LogRecord) : LogSession :=
  records.foldl send session

/-- Starts the log unless one is running already; `levels` reads the filter from its level. Only one log
can be started in a process. -/
def startAs (levels : String → Option LogFilter) (disk : LogDisk) (log : LogConfig)
    (session : LogSession) : Except ConfigError LogSession :=
  if session.isRunning then .ok session
  else
    match levels log.level with
    | none => .error .logger
    | some filter =>
      if disk.hasRoomFor log && !session.started then
        .ok (send ⟨some filter, true, some (log, [])⟩ (startRecord log))
      else .error .logger

def start (disk : LogDisk) (log : LogConfig) (session : LogSession) :
    Except ConfigError LogSession :=
  startAs LogFilter.ofText? disk log session

/-- Writes out what is still to be written, and empties the slot. -/
def shutdown (session : LogSession) : LogSession :=
  { session with slot := none }

end LogSession

end PlanLowering
