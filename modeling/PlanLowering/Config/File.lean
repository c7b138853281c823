import PlanLowering.Config.Toml

/-!
Configuration files. A file is known by its place: what is stored there, and whether there is a
directory to store it in.
-/

namespace PlanLowering

/-- A place for a file: in no directory, or in one, with the bytes of the file that is there. -/
inductive FilePlace where
  | nowhere
  | inDirectory (content : Option ByteArray)

namespace FilePlace

/-- The text of the file. -/
def read : FilePlace → Except FileFault String
  | inDirectory (some content) =>
    match String.fromUTF8? content with
    | some text => .ok text
    | none => .error .invalidData
  | inDirectory none | nowhere => .error .notFound

/-- Replaces the file or makes it, and gives the place afterwards. -/
def write (text : String) : FilePlace → Except FileFault FilePlace
  | inDirectory _ => .ok (inDirectory (some text.toUTF8))
  | nowhere => .error .notFound

end FilePlace

/-- Work on a file that can fail on the way; what was done to the file until then stays done. -/
abbrev FileWork (α : Type) := ExceptT ConfigError (StateM FilePlace) α

namespace FileWork

def write (text : String) : FileWork Unit := do
  match (← get).write text with
  | .ok place => set place
  | .error fault => throw (.file fault)

/-- The place after work that did not fail. -/
def outcome (work : FileWork Unit) (place : FilePlace) : Except ConfigError FilePlace :=
  match work.run.run place with
  | (.ok (), after) => .ok after
  | (.error e, _) => .error e

end FileWork

namespace Config

def load (place : FilePlace) : Except ConfigError Config :=
  match place.read with
  | .ok text => ofDocument text
  | .error fault => .error (.file fault)

/-- Writes the text that a serializer makes of a configuration, if it makes one. -/
def saveAs (serialize : Config → Option String) (config : Config) : FileWork Unit :=
  match serialize config with
  | some text => FileWork.write text
  | none => throw .serialize

def save (config : Config) (place : FilePlace) : Except ConfigError FilePlace :=
  (saveAs (fun config => some config.document) config).outcome place

end Config

end PlanLowering
