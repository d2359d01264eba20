import RestPlugin.Config.Error
import RestPlugin.Config.Model
import RestPlugin.Keyed
import RestPlugin.Text.Slug

/-!
# Validating configurations

The rules a configuration has to keep beyond its shape.  They are checked in a fixed order and the
first violation decides; findings that do not stop the generator are collected as warnings.
-/

namespace RestPlugin.Config

open Source

/-- A violation, with the key at which the source text is to be marked. -/
inductive Refusal where
  | violation (violation : Violation) (key : String)
  | unknownSchema (resource schema : String)
deriving DecidableEq, Repr

/-- Fails with a violation when a condition holds. -/
def refuseIf (condition : Bool) (violation : Violation) (key : String) : Except Refusal Unit :=
  if condition then .error (.violation violation key) else .ok ()

/-- Checks every member of a list in order. -/
def checkAll {α : Type} (check : α → Except Refusal Unit) : List α → Except Refusal Unit
  | [] => .ok ()
  | item :: rest => do
      check item
      checkAll check rest

/-- Checks the declared version. -/
def checkVersion (version : Option Nat) : Except Refusal (List Warning) :=
  match version with
  | none =>
      .ok [{ code := "config.version.missing",
             message := s!"Config does not declare a version; assuming version {currentVersion}." }]
  | some version =>
      if version == currentVersion then .ok []
      else .error (.violation (.unsupportedVersion version currentVersion) "version")

/-- Checks the declared namespace. -/
def checkNamespace (declared : String) : Except Refusal (List Warning) :=
  match Text.sanitizeNamespace declared with
  | none => .error (.violation (.invalidNamespace declared) declared)
  | some slug =>
      if slug == declared then .ok []
      else
        .ok [{ code := "namespace.sanitized",
               message := s!"Namespace '{declared}' was sanitised to '{slug}'." }]

/-- The warning about a route that writes and has no capability. -/
def capabilityWarning (name : String) (operation : Operation) (route : Route) : List Warning :=
  if (operation.isWrite || route.method.isWrite) && route.capability.isNone then
    let path := Text.trim route.path
    [{ code := "route.capability.missing",
       message := s!"Write route " ++ route.method.text ++
         s!" {path} of resource '{name}' has no capability.",
       resource := some name }]
  else []

/-- Checks the routes of a resource: no path is empty, and no method and path repeat. -/
def checkRoutes (key name : String) :
    List (Method × String) → List (Operation × Route) → Except Refusal (List Warning)
  | _, [] => .ok []
  | seen, (operation, route) :: rest => do
      let path := Text.trim route.path
      refuseIf (path == "") (.emptyPath name operation) key
      refuseIf (seen.contains (route.method, path)) (.repeatedRoute name route.method path) key
      let warnings ← checkRoutes key name ((route.method, path) :: seen) rest
      .ok (capabilityWarning name operation route ++ warnings)

/-- Checks a declared identity: its parameter is allowed, occurs in some route, and occurs in every
route that addresses an item. -/
def checkIdentity (key name : String) (routes : List (Operation × Route)) (identity : Identity) :
    Except Refusal Unit := do
  let param := identity.param
  let uses (route : Route) : Bool := (placeholders route.path).contains param
  refuseIf (!identity.kind.allowedParams.contains param)
    (.invalidParam name param identity.kind) key
  refuseIf (!(routes.any fun entry => uses entry.2)) (.unusedParam name param) key
  checkAll
    (fun (entry : Operation × Route) =>
      refuseIf (entry.1.isItemLevel && !uses entry.2)
        (.itemRouteWithoutParam name entry.1 entry.2.path param) key)
    routes

/-- Whether the snake case of a key can start the name of a PHP variable. -/
def isSafeKey (key : String) : Bool :=
  match (Text.snakeCase key).toList with
  | [] => false
  | c :: rest => (c == '_' || Text.isLetter c) && rest.all fun d => d == '_' || Text.isAlnum d

/-- Checks a storage. -/
def checkStorage (key name : String) : Storage → Except Refusal Unit
  | .transient => .ok ()
  | .option option => refuseIf (Text.isBlankString option) (.optionWithoutName name) key
  | .taxonomy taxonomy _ =>
      refuseIf (Text.isBlankString taxonomy) (.taxonomyStorageWithoutName name) key
  | .post storage => do
      let metaKeys := storage.metaFields.map (·.1)
      let taxonomyKeys := storage.taxonomies.map (·.1)
      refuseIf (storage.statuses.any Text.isBlankString) (.emptyStatus name) key
      refuseIf (metaKeys.any Text.isBlankString) (.emptyMetaKey name) key
      checkAll
        (fun (entry : String × String) =>
          refuseIf (!isSafeKey entry.2) (.unsafeKey name entry.1 entry.2) entry.2)
        (metaKeys.map ("meta key", ·) ++ taxonomyKeys.map ("taxonomy", ·))
      checkAll
        (fun (entry : String × Taxonomy) =>
          refuseIf (Text.isBlankString entry.2.taxonomy) (.taxonomyWithoutName name entry.1)
            entry.1)
        storage.taxonomies

/-- Checks a query parameter. -/
def checkQueryParam (name : String) (entry : String × QueryParam) : Except Refusal Unit :=
  refuseIf (entry.2.type == .enum && entry.2.values.all List.isEmpty)
    (.enumWithoutValues name entry.1) entry.1

/-- Checks a capability. -/
def checkCapability (entry : String × Capability) : Except Refusal Unit :=
  refuseIf (Text.isBlankString entry.2.capability) (.capabilityWithoutName entry.1) entry.1

/-- Checks that a referenced schema is declared. -/
def checkSchema (config : Config) (name : String) : Option SchemaRef → Except Refusal Unit
  | some (.key schema) =>
      if Keyed.contains schema config.schemas then .ok () else .error (.unknownSchema name schema)
  | _ => .ok ()

/-- Checks a resource. -/
def checkResource (config : Config) (key : String) (resource : Resource) :
    Except Refusal (List Warning) := do
  let name := Text.trim resource.name
  refuseIf (name == "") (.unnamedResource key) key
  refuseIf resource.routes.isEmpty (.noRoutes name) key
  let warnings ← checkRoutes key name [] resource.routes.toList
  checkAll (checkIdentity key name resource.routes.toList) resource.identity.toList
  checkSchema config name resource.schema
  checkAll (checkStorage key name) resource.storage.toList
  checkAll (checkQueryParam name) (resource.queryParams.getD [])
  checkAll checkCapability (resource.capabilities.getD [])
  .ok warnings

/-- Checks the resources of a configuration, whose names must not repeat. -/
def checkResources (config : Config) :
    List String → List (String × Resource) → Except Refusal (List Warning)
  | _, [] => .ok []
  | names, (key, resource) :: rest => do
      let warnings ← checkResource config key resource
      refuseIf (names.contains resource.name) (.repeatedName resource.name) key
      let others ← checkResources config (resource.name :: names) rest
      .ok (warnings ++ others)

/-- Checks a configuration and gives its warnings. -/
def check (config : Config) : Except Refusal (List Warning) := do
  let versionWarnings ← checkVersion config.version
  let namespaceWarnings ← checkNamespace config.declaredNamespace
  let resourceWarnings ← checkResources config [] config.resources
  checkAll checkCapability (config.capabilities.getD [])
  .ok (versionWarnings ++ namespaceWarnings ++ resourceWarnings)

/-- The error of a refusal, marked in the source text. -/
def Refusal.toError (source : String) : Refusal → Error
  | violation cause key => .invalid cause (findKeySpan source key)
  | unknownSchema resource schema =>
      .unknownSchema resource schema (findKeySpan source schema)

/-- Validates a configuration read from a source text. -/
def validate (source : String) (config : Config) : Except Error (List Warning) :=
  (check config).mapError (Refusal.toError source)

end RestPlugin.Config
