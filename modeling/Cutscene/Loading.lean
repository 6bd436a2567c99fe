import Cutscene.Files
import Cutscene.Schema.Graph
import Cutscene.Yaml.Excerpt

/-!
# Loading

Documents, graphs and tunings out of files. `LoadError` and `ConfigError` say what can go wrong
with a file.
-/

namespace Cutscene

/-- What is wrong with a file or directory. -/
inductive LoadError where
  | unreadable (path : String)
  | malformed (path : String)
  | uncompilable (path : String) (error : CompileError)
  | noDirectory (path : String)
deriving DecidableEq, Repr

namespace LoadError

/-- What is said of a mistake. -/
def message : LoadError → String
  | .unreadable path => "Failed to read YAML file from " ++ path
  | .malformed path => "Failed to deserialize YAML content from " ++ path
  | .uncompilable path _ => "Failed to compile " ++ path
  | .noDirectory path => "Failed to read directory " ++ path

/-- What is said of the reason for a mistake, if there is one to be told. -/
def cause? : LoadError → Option String
  | .uncompilable _ error => some error.message
  | _ => none

end LoadError

namespace Files

/-- Loads a document. -/
def loadDocument (files : Files) (path : String) : Except LoadError Document :=
  match files.read? path with
  | none => .error (.unreadable path)
  | some text =>
    match (Yaml.Excerpt.ofText? text).bind Document.of? with
    | none => .error (.malformed path)
    | some doc => .ok doc

/-- Loads a document and compiles it. -/
def loadGraph (files : Files) (path : String) : Except LoadError Graph := do
  match (← files.loadDocument path).compile with
  | .ok graph => return graph
  | .error error => .error (.uncompilable path error)

/-- Loads graphs, or finds the first mistake. -/
def loadGraphs (files : Files) : List String → Except LoadError (List Graph)
  | [] => .ok []
  | path :: rest => do
    let graph ← files.loadGraph path
    let more ← files.loadGraphs rest
    return graph :: more

/-- The name is one for documents. -/
def isDocumentName (name : String) : Bool :=
  extension? name == some "yaml" || extension? name == some "yml"

/-- Loads all graphs in a directory, in the order of their names. -/
def loadDirectory (files : Files) (directory : String) : Except LoadError (List Graph) :=
  match files.list? directory with
  | none => .error (.noDirectory directory)
  | some names => files.loadGraphs ((names.filter isDocumentName).map (join directory))

end Files

/-! ### Tunings -/

/-- What is wrong with the file of a tuning. -/
inductive ConfigError where
  | unreadable (path : String)
  | malformed (path : String)
deriving DecidableEq, Repr

/-- What is said of a mistake. -/
def ConfigError.message : ConfigError → String
  | .unreadable path => "Failed to read config " ++ path
  | .malformed path => "Invalid config " ++ path

/-- Reads the tuning of an engine; a blank text leaves everything as it is by default. -/
def Config.ofText? (text : String) : Option Config :=
  if (Text.trim text).isEmpty then some {} else (Yaml.Excerpt.ofText? text).bind Config.of?

/-- Loads the tuning of an engine. -/
def Files.loadConfig (files : Files) (path : String) : Except ConfigError Config :=
  match files.read? path with
  | none => .error (.unreadable path)
  | some text =>
    match Config.ofText? text with
    | none => .error (.malformed path)
    | some config => .ok config

/-- The nanoseconds from one tick to the next: the double nearest to the part of a second, taken to
the nearest nanosecond. -/
def Config.tickInterval (c : Config) : Nat :=
  let part := Number.double.units (Number.double.round 1 (max c.tickRate 1))
  Number.roundHalfEven (part * 1000000000) (Number.twoTo Number.double.scale)

end Cutscene
