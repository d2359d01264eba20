import RestPlugin.Json.Writer
import RestPlugin.Terms

/-!
# The intermediate representation

What a configuration comes to once routes are normalised, identities and storage are resolved,
schemas are hashed or made up, and the capabilities are matched with the routes.  Every list is
sorted and every map has ascending keys, so the representation does not depend on the order of the
configuration.
-/

namespace RestPlugin

namespace Ir

/-- Where the representation came from. -/
structure Meta where
  version : Nat
  declaredNamespace : String
  slug : String
  sourcePath : String
  origin : String
deriving DecidableEq, Repr, Inhabited

/-- A finding that does not stop the generator. -/
structure Warning where
  code : String
  message : String
  context : Option Json
deriving Repr, Inhabited

/-- Whether a schema was declared or made up. -/
inductive Provenance where
  | manual
  | auto
deriving DecidableEq, Repr, Inhabited

/-- The spelling of a provenance. -/
def Provenance.text : Provenance → String
  | manual => "manual"
  | auto => "auto"

/-- A schema.  A schema that was made up names the configuration key of its resource. -/
structure Schema where
  key : String
  sourcePath : String
  hash : String
  document : Json
  provenance : Provenance
  generatedFrom : Option String
deriving Repr, Inhabited

/-- A route with a normalised path. -/
structure Route where
  method : Method
  path : String
  capability : Option String
  hash : String
deriving DecidableEq, Repr, Inhabited

namespace Route

/-- The names of the placeholders of the path. -/
def params (route : Route) : List String := placeholders route.path

/-- Whether the path has a placeholder with the given name. -/
def usesParam (route : Route) (param : String) : Bool := route.params.contains param

end Route

/-- Whether a cache key is the default one or was configured. -/
inductive KeySource where
  | default
  | config
deriving DecidableEq, Repr, Inhabited

/-- The spelling of a key source. -/
def KeySource.text : KeySource → String
  | default => "default"
  | config => "config"

/-- A cache key. -/
structure CacheKey where
  segments : List Segment
  source : KeySource
deriving DecidableEq, Repr, Inhabited

/-- The cache keys of a resource.  Reading operations always have one. -/
structure CacheKeys where
  list : CacheKey
  get : CacheKey
  create : Option CacheKey
  update : Option CacheKey
  remove : Option CacheKey
deriving DecidableEq, Repr, Inhabited

/-- The cache key of an operation. -/
def CacheKeys.at? (keys : CacheKeys) : Operation → Option CacheKey
  | .list => some keys.list
  | .get => some keys.get
  | .create => keys.create
  | .update => keys.update
  | .remove => keys.remove

/-- What identifies an item, with its request parameter. -/
structure Identity where
  kind : IdentityKind
  param : String
deriving DecidableEq, Repr, Inhabited

/-- Whether the identity is a number. -/
def Identity.isNumeric (identity : Identity) : Bool := identity.kind == .number

/-- A meta key of a post type. -/
structure MetaField where
  type : MetaType
  single : Bool
deriving DecidableEq, Repr, Inhabited

/-- A taxonomy attached to a post type. -/
structure Taxonomy where
  taxonomy : String
  hierarchical : Bool
  register : Bool
deriving DecidableEq, Repr, Inhabited

/-- Storage in a post type. -/
structure PostStorage where
  postType : String
  statuses : List String
  supports : List Support
  metaFields : List (String × MetaField)
  taxonomies : List (String × Taxonomy)
deriving DecidableEq, Repr, Inhabited

/-- Where the items of a resource are kept. -/
inductive Storage where
  | transient
  | option (name : String)
  | taxonomy (taxonomy : String) (hierarchical : Bool)
  | post (storage : PostStorage)
deriving DecidableEq, Repr, Inhabited

/-- The spelling of a storage mode. -/
def Storage.mode : Storage → String
  | transient => "transient"
  | option _ => "wp-option"
  | taxonomy _ _ => "wp-taxonomy"
  | post _ => "wp-post"

/-- A query parameter. -/
structure QueryParam where
  type : QueryType
  optional : Bool
  values : Option (List String)
  description : Option String
deriving DecidableEq, Repr, Inhabited

/-- A resource. -/
structure Resource where
  name : String
  schemaKey : String
  schemaProvenance : Provenance
  routes : List Route
  cacheKeys : CacheKeys
  identity : Option Identity
  storage : Option Storage
  queryParams : Option (List (String × QueryParam))
  hash : String
  warnings : List Warning
deriving Repr, Inhabited

namespace Resource

/-- The post storage of a resource, if it has one. -/
def post? (resource : Resource) : Option PostStorage :=
  match resource.storage with
  | some (.post storage) => some storage
  | _ => none

/-- The capability keys of the routes, ascending and without repetition. -/
def capabilityKeys (resource : Resource) : List String :=
  ((Keyed.sorted ((resource.routes.filterMap Route.capability).map (·, ()))).map (·.1))

end Resource

/-- Whether a capability was declared or is the fallback. -/
inductive CapabilitySource where
  | map
  | fallback
deriving DecidableEq, Repr, Inhabited

/-- The spelling of a capability source. -/
def CapabilitySource.text : CapabilitySource → String
  | map => "map"
  | fallback => "fallback"

/-- The capability of keys that nothing defines. -/
structure Fallback where
  capability : String
  appliesTo : AppliesTo
deriving DecidableEq, Repr, Inhabited

/-- A capability key with its meaning. -/
structure Definition where
  key : String
  capability : String
  appliesTo : AppliesTo
  binding : Option String
  source : CapabilitySource
deriving DecidableEq, Repr, Inhabited

/-- The capabilities of a project. -/
structure CapabilityMap where
  sourcePath : Option String
  fallback : Fallback
  definitions : List Definition
  missing : List String
  unused : List String
  warnings : List Warning
deriving Repr, Inhabited

/-- The definition of a capability key. -/
def CapabilityMap.definition? (map : CapabilityMap) (key : String) : Option Definition :=
  map.definitions.find? fun definition => definition.key == key

/-- The PHP side of a project. -/
structure PhpProject where
  phpNamespace : String
  autoload : String
  outputDirectory : String
deriving DecidableEq, Repr, Inhabited

end Ir

/-- The intermediate representation of a plugin. -/
structure Ir where
  info : Ir.Meta
  schemas : List Ir.Schema
  resources : List Ir.Resource
  capabilityMap : Ir.CapabilityMap
  php : Ir.PhpProject
  hash : String
deriving Repr, Inhabited

namespace Ir

/-- The resource with a given name. -/
def resource? (ir : Ir) (name : String) : Option Resource :=
  ir.resources.find? fun resource => resource.name == name

/-- The schema with a given key. -/
def schema? (ir : Ir) (key : String) : Option Schema :=
  ir.schemas.find? fun schema => schema.key == key

/-- All warnings: those of the resources, then those of the capability map. -/
def warnings (ir : Ir) : List Warning :=
  ir.resources.flatMap Resource.warnings ++ ir.capabilityMap.warnings

end Ir

end RestPlugin
