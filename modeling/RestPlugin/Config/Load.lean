import RestPlugin.Config.Decode
import RestPlugin.Config.Validate
import RestPlugin.Json.Reader
import RestPlugin.Path
import RestPlugin.Toml.Reader

/-!
# Loading configurations

A configuration comes from a TOML or JSON text.  Loading it from a file system also reads the schema
documents it declares, whose paths are relative to the configuration file.
-/

namespace RestPlugin.Config

open Source

/-- The format of a configuration text. -/
inductive Format where
  | toml
  | json
deriving DecidableEq, Repr, Inhabited

/-- The format that belongs to the extension of a path. -/
def Format.ofPath (path : String) : Option Format :=
  match Path.lowerExtension path with
  | some "toml" => some toml
  | some "json" => some json
  | _ => none

/-- The error of a flaw in a text. -/
def Format.flawError (source : String) : Format → Flaw → Error
  | toml, _ => .malformedToml
  | json, .malformed reach => .malformedJson (spanAt source reach)
  | json, .unfit => .unfitJson

/-- The tree of a text. -/
def Format.read (format : Format) (source : String) : Document :=
  match format with
  | toml => Toml.readDocument source
  | json => Json.readDocument source

/-- How the tree of a text is held. -/
def Format.access : Format → Access
  | toml => .document
  | json => .stream

/-- Fits a text into the configuration model, without validating it. -/
def decodeText (format : Format) (source : String) : Except Error Config :=
  (Decode.document decode format.access (format.read source)).mapError (format.flawError source)

/-- Reads and validates a configuration. -/
def parse (format : Format) (source : String) : Except Error (Config × List Warning) := do
  let config ← decodeText format source
  let warnings ← validate source config
  .ok (config, warnings)

/-- A schema document with the path it was read from. -/
structure LoadedSchema where
  path : String
  document : Json
deriving Repr, Inhabited

/-- A configuration with its schema documents. -/
structure Loaded where
  config : Config
  sourcePath : String
  schemas : List (String × LoadedSchema) := []
  warnings : List Warning := []
deriving Repr, Inhabited

namespace Loaded

/-- The file name of the configuration. -/
def origin (loaded : Loaded) : String := (Path.fileName loaded.sourcePath).getD ""

/-- The directory of the configuration, against which schema paths are resolved. -/
def baseDirectory (loaded : Loaded) : String := (Path.parent loaded.sourcePath).getD ""

/-- Adds a schema document. -/
def addSchema (loaded : Loaded) (key path : String) (document : Json) : Loaded :=
  { loaded with schemas := Keyed.put key ⟨path, document⟩ loaded.schemas }

end Loaded

/-- The schema document in the text of a file, which has to hold a JSON object. -/
def schemaDocument (path : String) (read : Except Files.Fault (Option String)) :
    Except Error Json :=
  match read with
  | .error fault => .error (.schemaFile path (.unreadable fault))
  | .ok none => .error (.schemaFile path (.unreadable .notFound))
  | .ok (some text) =>
      match Json.parse text with
      | .error _ => .error (.schemaFile path .malformed)
      | .ok document =>
          if document.isObject then .ok document else .error (.schemaFile path .notObject)

variable {m : Type → Type} [Monad m]

/-- Reads the declared schema documents, in the order of the configuration. -/
def loadSchemas (system : Files.System m) :
    Loaded → List (String × SchemaFile) → m (Except Error Loaded)
  | loaded, [] => return .ok loaded
  | loaded, (key, file) :: rest => do
      let path := Path.join loaded.baseDirectory file.path
      match schemaDocument path (← system.read path) with
      | .error error => return .error error
      | .ok document => loadSchemas system (loaded.addSchema key path document) rest

/-- Loads a configuration text as if it stood at a path. -/
def loadText (system : Files.System m) (format : Format) (source path : String) :
    m (Except Error Loaded) :=
  match parse format source with
  | .error error => return .error error
  | .ok (config, warnings) =>
      loadSchemas system { config, sourcePath := path, warnings } config.schemas

/-- Loads a configuration file. -/
def load (system : Files.System m) (path : String) : m (Except Error Loaded) := do
  match Format.ofPath path with
  | none => return .error (.unsupportedFormat path)
  | some format =>
      match ← system.read path with
      | .ok (some source) => loadText system format source path
      | _ => return .error (.unreadable path)

end RestPlugin.Config
