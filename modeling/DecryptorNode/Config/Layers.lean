import DecryptorNode.Config.Environment
import DecryptorNode.Config.Files
import DecryptorNode.Config.Toml.Document
import DecryptorNode.Config.Variables
import DecryptorNode.Text.Lower

/-! The configuration of a node, put together from layers: the settings that an environment starts
from, the usual file, the file that was asked for and the variables. A later layer covers an
earlier one. -/
namespace DecryptorNode.Config

/-- What a node starts in: its files and its variables. -/
structure Surroundings where
  files : Files
  variableList : List Variable

def usualFile : String := "config.toml"

/-- The settings in a file. A directory has none, nor has one of the same name higher up. -/
def FileEntry.settings? : FileEntry → Option Value
  | .document text => (Toml.parse? text).map Value.table
  | .directory | .absent => some (.table [])

def normalize (name : String) : String :=
  String.ofList (Text.lower (Text.trim name.toList))

def namedEnvironment? (settings : Option Value) : Option String := do
  match (← settings).at? ["environment"] with
  | some (.text name) => some (normalize name)
  | _ => none

def selectEnvironment (s : Surroundings) (path : String) : Except ConfigError Environment :=
  match s.files.find path with
  | .absent => .error (.missingFile path)
  | entry =>
    match namedEnvironment? entry.settings? with
    | none => .error .missingEnvironment
    | some name => (Environment.ofLabel? name).elim (.error (.unknownEnvironment name)) .ok

def fileLayer (s : Surroundings) (path : String) : Except ConfigError Value :=
  ((s.files.find path).settings?).elim (.error (.load (.here .message))) .ok

/-- The layers over the settings that an environment starts from, the lowest first. -/
def upperLayers (s : Surroundings) (path : Option String) : Except ConfigError (List Value) := do
  let usual ← fileLayer s usualFile
  let asked ← path.elim (.ok (.table [])) (fileLayer s)
  return [usual, asked, Variable.settings s.variableList]

def merged (layers : List Value) : Value := layers.foldl Value.overlay (.table [])

/-- The settings of an environment with layers over them, which may not name another one. -/
def layeredSettings (environment : Environment) (layers : List Value) :
    Except ConfigError Settings := do
  let value := merged (environment.settings.toValue :: layers)
  let settings ← (Settings.read .layers value).mapError .load
  if settings.environment = environment.label then return settings
  else .error (.otherEnvironment settings.environment environment.label)

/-- The environment and the configuration of a node. The file that was asked for, or else the
usual one, selects the environment. -/
def load (s : Surroundings) (path : Option String) :
    Except ConfigError (Environment × Configuration) := do
  let environment ← selectEnvironment s (path.getD usualFile)
  let settings ← layeredSettings environment (← upperLayers s path)
  return (environment, ← settings.resolve)

end DecryptorNode.Config
