import PlanLowering.Log.Session

/-!
Log files: their names, the directories they are kept in, and what can be found there.
-/

namespace PlanLowering

/-- A directory by the names on the way to it, from the root of all directories or from the current
one. -/
structure DirectoryPath where
  isAbsolute : Bool
  names : List String
deriving DecidableEq, Repr

namespace DirectoryPath

/-- Reads a path between slashes; empty names and single dots do not count. -/
def ofText (text : String) : DirectoryPath :=
  ⟨text.toList.head? = some '/',
    ((Text.split '/' text.toList).map String.ofList).filter fun name => name ≠ "" ∧ name ≠ "."⟩

/-- Nothing can be made below these paths from the root. -/
def reserved : List (List String) :=
  [["dev", "null"], ["proc"], ["sys"]]

/-- The name has no more bytes than a file name may have, and no null character. -/
def isName (name : String) : Bool :=
  name.utf8ByteSize ≤ 255 && !name.toList.contains '\x00'

def canBeMade (path : DirectoryPath) : Bool :=
  path.names.all isName &&
    !(path.isAbsolute && reserved.any fun names => names.isPrefixOf path.names)

end DirectoryPath

namespace LogDisk

/-- A disk with an empty current directory. -/
def empty : LogDisk where
  hasRoomFor log := log.dir ≠ "" && (DirectoryPath.ofText log.dir).canBeMade

end LogDisk

namespace LogConfig

/-- The name of the file that is written to. -/
def fileName (log : LogConfig) : String :=
  (if log.file = "" then "" else log.file ++ "_") ++ "rCURRENT.log"

end LogConfig

namespace LogSession

/-- The log files in a directory, each with its lines. -/
def filesIn (dir : String) (session : LogSession) : List (String × List String) :=
  match session.written with
  | some (log, record :: records) =>
    if DirectoryPath.ofText log.dir = DirectoryPath.ofText dir ∧
        !log.file.toList.contains '/' ∧ DirectoryPath.isName log.fileName then
      [(log.fileName, (record :: records).map LogRecord.line)]
    else []
  | _ => []

end LogSession

end PlanLowering
