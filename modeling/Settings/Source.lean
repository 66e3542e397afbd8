import Settings.Document.Ini
import Settings.Document.Json
import Settings.Document.Toml
import Settings.Document.Xml
import Settings.Document.Yaml
import Settings.Environment
import Settings.File.Directory

/-! # Sources

Settings come from mappings, files and environment variables. The suffix of a
file tells its format. A source yields a mapping, or nothing.
-/

namespace Settings

open Settings.Document Settings.Text

inductive Source
  | mapping (entries : Mapping)
  | file (path : Path) (optional : Bool)
  | environment (stem : String)
  /-- Some other value, as it is. -/
  | raw (v : Value)

/-- What is outside of a program: its files and its environment variables. -/
structure Surroundings where
  directory : Directory
  environment : Environment

def Format.ofSuffix? : String → Option Format
  | ".json" => some .json
  | ".toml" => some .toml
  | ".ini" | ".cfg" | ".conf" => some .ini
  | ".yaml" | ".yml" => some .yaml
  | ".xml" => some .xml
  | _ => none

namespace Source

/-- The variables with a stem, which cannot be empty. -/
def ofStem (stem : String) : Except Fault Source :=
  if stem = "" then .error .unnamedPrefix else .ok (.environment stem)

def shown : Source → String
  | .raw _ => "<RawSource>"
  | _ => "<source>"

def decode (bytes : ByteArray) : Except Fault (List Char) :=
  match String.fromUTF8? bytes with
  | some text => .ok text.toList
  | none => .error .undecodable

/-- What a reading yields for the file at a path. -/
def accept (format : Format) (path : Path) : Reading Value → Except Fault Value
  | .ok v => .ok v
  | .error .malformed => .error (.malformedFile format path.shown)
  | .error (.refused reason) => .error reason

/-- The mapping of a document that may be empty but must be nothing else. -/
def mappingOrNothing (path : Path) : Value → Except Fault Value
  | .null => .ok (.mapping [])
  | .mapping entries => .ok (.mapping entries)
  | _ => .error (.documentNotMapping path.shown)

def readFile (format : Format) (path : Path) (bytes : ByteArray) : Except Fault Value := do
  match format with
  | .json => accept format path (Json.read (unifyLineEnds (← decode bytes)))
  | .toml => accept format path (Toml.read (← decode bytes))
  | .ini => accept format path (Ini.read (unifyLineEnds (← decode bytes)))
  | .yaml =>
    mappingOrNothing path (← accept format path (Yaml.read (unifyLineEnds (← decode bytes))))
  | .xml => accept format path (Xml.read bytes)

def loadFile (d : Directory) (path : Path) (optional : Bool) : Except Fault Value :=
  match d.find? path with
  | none => if optional then .ok .null else .error (.fileNotFound path.shown)
  | some entry =>
    match Format.ofSuffix? path.suffix, entry with
    | none, _ => .error (.unsupportedFormat path.shown path.suffix)
    | some format, .directory => .error (.malformedFile format path.shown)
    | some format, .file bytes => readFile format path bytes

/-- What a source yields; nothing is the null value. -/
def load (out : Surroundings) : Source → Except Fault Value
  | .mapping entries => .ok (.mapping entries)
  | .file path optional => loadFile out.directory path optional
  | .environment stem =>
    match out.environment.load stem with
    | some merged => .ok (.mapping merged)
    | none => .ok .null
  | .raw v => .ok v

end Source

end Settings
