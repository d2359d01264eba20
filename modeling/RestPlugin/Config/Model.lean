import RestPlugin.Terms

/-!
# The configuration of a plugin

What a configuration file declares: a namespace, schema files, resources with their routes,
identity, storage, cache keys and query parameters, and capabilities.  Maps keep the order of the
file.
-/

namespace RestPlugin

namespace Config

/-- A schema file, with its path relative to the configuration file. -/
structure SchemaFile where
  path : String
  description : Option String
deriving DecidableEq, Repr, Inhabited

/-- A capability: a bare name, or a name with its target and the request parameter that holds the
object. -/
inductive Capability where
  | simple (capability : String)
  | detailed (capability : String) (appliesTo : AppliesTo) (binding : Option String)
deriving DecidableEq, Repr, Inhabited

namespace Capability

/-- The name of the capability. -/
def capability : Capability → String
  | simple capability => capability
  | detailed capability _ _ => capability

/-- What the capability is checked against. -/
def appliesTo : Capability → AppliesTo
  | simple _ => .resource
  | detailed _ appliesTo _ => appliesTo

/-- The request parameter that holds the object. -/
def binding : Capability → Option String
  | simple _ => none
  | detailed _ _ binding => binding

end Capability

/-- A route: its path, method and the key of the capability that guards it. -/
structure Route where
  path : String
  method : Method
  capability : Option String
deriving DecidableEq, Repr, Inhabited

/-- What identifies an item of a resource. -/
structure Identity where
  kind : IdentityKind
  declared : Option String
deriving DecidableEq, Repr, Inhabited

/-- The request parameter of an identity. -/
def Identity.param (identity : Identity) : String :=
  identity.declared.getD identity.kind.defaultParam

/-- A meta key of a post type. -/
structure MetaField where
  type : MetaType
  single : Option Bool
deriving DecidableEq, Repr, Inhabited

/-- Meta keys hold a single value unless declared otherwise. -/
def MetaField.isSingle (field : MetaField) : Bool := field.single != some false

/-- A taxonomy attached to a post type. -/
structure Taxonomy where
  taxonomy : String
  hierarchical : Bool
  register : Option Bool
deriving DecidableEq, Repr, Inhabited

/-- Storage in a post type. -/
structure PostStorage where
  postType : Option String
  statuses : List String
  supports : List Support
  metaFields : List (String × MetaField)
  taxonomies : List (String × Taxonomy)
deriving DecidableEq, Repr, Inhabited

/-- Where the items of a resource are kept. -/
inductive Storage where
  | transient
  | option (name : String)
  | taxonomy (taxonomy : String) (hierarchical : Bool)
  | post (storage : PostStorage)
deriving DecidableEq, Repr, Inhabited

/-- The spelling of a storage mode. -/
def Storage.mode : Storage → String
  | transient => "transient"
  | option _ => "wp-option"
  | taxonomy _ _ => "wp-taxonomy"
  | post _ => "wp-post"

/-- The schema of a resource: made up from the resource, or a declared one. -/
inductive SchemaRef where
  | auto
  | key (key : String)
deriving DecidableEq, Repr, Inhabited

/-- A schema reference from its text. -/
def SchemaRef.ofText (text : String) : SchemaRef := if text == "auto" then auto else key text

/-- A query parameter of the list route. -/
structure QueryParam where
  type : QueryType
  optional : Bool
  values : Option (List String)
  description : Option String
deriving DecidableEq, Repr, Inhabited

/-- A resource. -/
structure Resource where
  name : String
  routes : PerOperation Route
  identity : Option Identity
  storage : Option Storage
  schema : Option SchemaRef
  cacheKeys : Option (PerOperation (List Segment))
  queryParams : Option (List (String × QueryParam))
  capabilities : Option (List (String × Capability))
deriving Repr, Inhabited

end Config

/-- A configuration. -/
structure Config where
  version : Option Nat
  declaredNamespace : String
  schemas : List (String × Config.SchemaFile)
  resources : List (String × Config.Resource)
  capabilities : Option (List (String × Config.Capability))
deriving Repr, Inhabited

namespace Config

/-- The only supported version. -/
def currentVersion : Nat := 1

/-- The declared version, or the current one. -/
def effectiveVersion (config : Config) : Nat := config.version.getD currentVersion

end Config

end RestPlugin
