import RestPlugin.Files.System
import RestPlugin.Source.Position
import RestPlugin.Terms

/-!
# Configuration errors

The causes for which a configuration is refused, each with its message, its code and a hint.  A
violation is a cause found in a configuration that is well formed and fits the model.
-/

namespace RestPlugin.Config

open Source

/-- What is wrong with the content of a configuration.  The resource is named first where there is
one. -/
inductive Violation where
  | unsupportedVersion (version supported : Nat)
  | invalidNamespace (text : String)
  | unnamedResource (key : String)
  | noRoutes (resource : String)
  | emptyPath (resource : String) (operation : Operation)
  | repeatedRoute (resource : String) (method : Method) (path : String)
  | invalidParam (resource param : String) (kind : IdentityKind)
  | unusedParam (resource param : String)
  | itemRouteWithoutParam (resource : String) (operation : Operation) (path param : String)
  | optionWithoutName (resource : String)
  | taxonomyStorageWithoutName (resource : String)
  | emptyStatus (resource : String)
  | emptyMetaKey (resource : String)
  | unsafeKey (resource what key : String)
  | taxonomyWithoutName (resource key : String)
  | enumWithoutValues (resource param : String)
  | capabilityWithoutName (key : String)
  | repeatedName (resource : String)
deriving DecidableEq, Repr

/-- The message of a violation. -/
def Violation.message : Violation → String
  | unsupportedVersion version supported =>
      s!"unsupported config version {version}; expected {supported}"
  | invalidNamespace text =>
      s!"invalid namespace '{text}': use 3-50 lowercase letters, digits or dashes, " ++
        "starting with a letter and not a reserved word"
  | unnamedResource key => s!"resource '{key}' must have a non-empty name"
  | noRoutes resource => s!"resource '{resource}' must define at least one route"
  | emptyPath resource operation =>
      operation.text ++ s!" route of resource '{resource}' has an empty path"
  | repeatedRoute resource method path =>
      s!"resource '{resource}' declares " ++ method.text ++ s!" {path} more than once"
  | invalidParam resource param kind =>
      s!"identity param '{param}' of resource '{resource}' is not valid for " ++ kind.text ++
        " identities; expected one of: " ++ Text.join ", " kind.allowedParams
  | unusedParam resource param =>
      s!"identity param ':{param}' of resource '{resource}' does not appear in any route path"
  | itemRouteWithoutParam resource operation path param =>
      operation.text ++ s!" route {path} of resource '{resource}' must contain ':{param}'"
  | optionWithoutName resource =>
      s!"wp-option storage of resource '{resource}' needs an option name"
  | taxonomyStorageWithoutName resource =>
      s!"wp-taxonomy storage of resource '{resource}' needs a taxonomy"
  | emptyStatus resource => s!"wp-post storage of resource '{resource}' declares an empty status"
  | emptyMetaKey resource => s!"wp-post storage of resource '{resource}' declares an empty meta key"
  | unsafeKey resource what key =>
      s!"{what} '{key}' of resource '{resource}' does not form a PHP variable name; " ++
        "start it with a letter"
  | taxonomyWithoutName resource key =>
      s!"taxonomy '{key}' of resource '{resource}' needs a taxonomy name"
  | enumWithoutValues resource param =>
      s!"enum query param '{param}' of resource '{resource}' declares no values"
  | capabilityWithoutName key => s!"capability '{key}' must name a WordPress capability"
  | repeatedName resource => s!"duplicate resource name '{resource}'"

/-- What is wrong with a schema file. -/
inductive SchemaFault where
  | unreadable (fault : Files.Fault)
  | malformed
  | notObject
deriving DecidableEq, Repr

/-- The message of a schema fault. -/
def SchemaFault.message : SchemaFault → String
  | unreadable fault => fault.message
  | malformed => "invalid JSON"
  | notObject => "expected a JSON object"

/-- Why a configuration could not be taken. -/
inductive Error where
  | unreadable (path : String)
  | unsupportedFormat (path : String)
  | malformedToml
  | malformedJson (span : Option Span)
  | unfitJson
  | invalid (violation : Violation) (span : Option Span)
  | unknownSchema (resource schema : String) (span : Option Span)
  | schemaFile (path : String) (fault : SchemaFault)
deriving DecidableEq, Repr

/-- The message of an error. -/
def Error.message : Error → String
  | unreadable path => s!"failed to read '{path}'"
  | unsupportedFormat path => s!"unsupported config format for '{path}'"
  | malformedToml | malformedJson _ | unfitJson => "failed to parse kernel config"
  | invalid violation _ => violation.message
  | unknownSchema resource schema _ =>
      s!"resource '{resource}' references unknown schema '{schema}'"
  | schemaFile path fault => s!"invalid schema file '{path}': " ++ fault.message

/-- The code of an error. -/
def Error.code : Error → Option String
  | unreadable _ => none
  | unsupportedFormat _ => some "wpk::unsupported_format"
  | malformedToml => some "wpk::parse_error"
  | malformedJson _ | unfitJson => some "wpk::json_error"
  | invalid _ _ => some "wpk::validation_error"
  | unknownSchema _ _ _ => some "wpk::unknown_schema"
  | schemaFile _ _ => some "wpk::schema_file"

/-- A hint on how to mend the error. -/
def Error.help : Error → Option String
  | unreadable _ => some "run 'wpk generate --config <path>' with an existing kernel config"
  | unsupportedFormat _ => some "kernel configs must be .toml or .json files"
  | malformedToml | malformedJson _ | unfitJson | invalid _ _ => none
  | unknownSchema _ schema _ =>
      some (s!"declare it under [schemas.{schema}] or use schema = \"auto\"")
  | schemaFile _ _ =>
      some ("schema paths are resolved relative to the config file and must contain a JSON object")

/-- A finding that does not stop the generator. -/
structure Warning where
  code : String
  message : String
  resource : Option String := none
deriving DecidableEq, Repr, Inhabited

end RestPlugin.Config
