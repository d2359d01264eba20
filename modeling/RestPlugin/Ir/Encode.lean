import RestPlugin.Ir.Basic

/-!
# The JSON form of the representation

The written form from which the content hash is taken.  Absent parts are written as `null`, the keys
of free-form parts are in ascending order, and the hash itself is not part of it.
-/

namespace RestPlugin

/-- A segment of a cache key. -/
def Segment.toJson : Segment → Json
  | bool value => .bool value
  | int value => .int value
  | float value => .float value
  | text value => .str value

namespace Ir

/-- The JSON form of the origin of a project. -/
def Meta.toJson (info : Meta) : Json :=
  .obj [("version", .nat info.version), ("namespace", .str info.declaredNamespace),
    ("sanitizedNamespace", .str info.slug), ("sourcePath", .str info.sourcePath),
    ("origin", .str info.origin)]

/-- The JSON form of a warning. -/
def Warning.toJson (warning : Warning) : Json :=
  .obj [("code", .str warning.code), ("message", .str warning.message),
    ("context", .ofOption Json.sortKeys warning.context)]

/-- The JSON form of a schema. -/
def Schema.toJson (schema : Schema) : Json :=
  .obj [("key", .str schema.key), ("sourcePath", .str schema.sourcePath),
    ("hash", .str schema.hash), ("schema", schema.document.sortKeys),
    ("provenance", .str schema.provenance.text),
    ("generatedFrom", .ofOption
      (fun resource => .obj [("type", .str "storage"), ("resource", .str resource)])
      schema.generatedFrom)]

/-- The JSON form of a route without its hash. -/
def Route.content (route : Route) : List (String × Json) :=
  [("method", .str route.method.text), ("path", .str route.path),
   ("capability", .ofOption .str route.capability)]

/-- The JSON form of a route. -/
def Route.toJson (route : Route) : Json := .obj (route.content ++ [("hash", .str route.hash)])

/-- The JSON form of a cache key. -/
def CacheKey.toJson (key : CacheKey) : Json :=
  .obj [("segments", .arr (key.segments.map Segment.toJson)), ("source", .str key.source.text)]

/-- The JSON form of the cache keys of a resource. -/
def CacheKeys.toJson (keys : CacheKeys) : Json :=
  .obj [("list", keys.list.toJson), ("get", keys.get.toJson),
    ("create", .ofOption CacheKey.toJson keys.create),
    ("update", .ofOption CacheKey.toJson keys.update),
    ("remove", .ofOption CacheKey.toJson keys.remove)]

/-- The JSON form of an identity. -/
def Identity.toJson (identity : Identity) : Json :=
  .obj [("type", .str identity.kind.text), ("param", .str identity.param)]

/-- The JSON form of a meta key. -/
def MetaField.toJson (field : MetaField) : Json :=
  .obj [("type", .str field.type.text), ("single", .bool field.single)]

/-- The JSON form of a taxonomy. -/
def Taxonomy.toJson (taxonomy : Taxonomy) : Json :=
  .obj [("taxonomy", .str taxonomy.taxonomy), ("hierarchical", .bool taxonomy.hierarchical),
    ("register", .bool taxonomy.register)]

/-- The JSON form of a storage. -/
def Storage.toJson (storage : Storage) : Json :=
  .obj <| ("mode", .str storage.mode) ::
    match storage with
    | .transient => []
    | .option name => [("option", .str name)]
    | .taxonomy name hierarchical =>
        [("taxonomy", .str name), ("hierarchical", .bool hierarchical)]
    | .post s =>
        [("postType", .str s.postType), ("statuses", .strings s.statuses),
         ("supports", .strings (s.supports.map Support.text)),
         ("meta", .obj (Keyed.mapValues MetaField.toJson s.metaFields)),
         ("taxonomies", .obj (Keyed.mapValues Taxonomy.toJson s.taxonomies))]

/-- The JSON form of a query parameter. -/
def QueryParam.toJson (param : QueryParam) : Json :=
  .obj [("type", .str param.type.text), ("optional", .bool param.optional),
    ("enum", .ofOption .strings param.values), ("description", .ofOption .str param.description)]

/-- The JSON form of the query parameters of a resource. -/
def queryParamsJson (params : Option (List (String × QueryParam))) : Json :=
  .ofOption (fun params => .obj (Keyed.mapValues QueryParam.toJson params)) params

/-- The JSON form of a resource. -/
def Resource.toJson (resource : Resource) : Json :=
  .obj [("name", .str resource.name), ("schemaKey", .str resource.schemaKey),
    ("schemaProvenance", .str resource.schemaProvenance.text),
    ("routes", .arr (resource.routes.map Route.toJson)),
    ("cacheKeys", resource.cacheKeys.toJson),
    ("identity", .ofOption Identity.toJson resource.identity),
    ("storage", .ofOption Storage.toJson resource.storage),
    ("queryParams", queryParamsJson resource.queryParams),
    ("hash", .str resource.hash), ("warnings", .arr (resource.warnings.map Warning.toJson))]

/-- The JSON form of a capability definition. -/
def Definition.toJson (definition : Definition) : Json :=
  .obj [("key", .str definition.key), ("capability", .str definition.capability),
    ("appliesTo", .str definition.appliesTo.text),
    ("binding", .ofOption .str definition.binding), ("source", .str definition.source.text)]

/-- The JSON form of a capability map. -/
def CapabilityMap.toJson (map : CapabilityMap) : Json :=
  .obj [("sourcePath", .ofOption .str map.sourcePath),
    ("fallback", .obj [("capability", .str map.fallback.capability),
      ("appliesTo", .str map.fallback.appliesTo.text)]),
    ("definitions", .arr (map.definitions.map Definition.toJson)),
    ("missing", .strings map.missing), ("unused", .strings map.unused),
    ("warnings", .arr (map.warnings.map Warning.toJson))]

/-- The JSON form of the PHP side of a project. -/
def PhpProject.toJson (php : PhpProject) : Json :=
  .obj [("namespace", .str php.phpNamespace), ("autoload", .str php.autoload),
    ("outputDir", .str php.outputDirectory)]

/-- The JSON form of a representation. -/
def toJson (ir : Ir) : Json :=
  .obj [("meta", ir.info.toJson), ("schemas", .arr (ir.schemas.map Schema.toJson)),
    ("resources", .arr (ir.resources.map Resource.toJson)),
    ("capabilityMap", ir.capabilityMap.toJson), ("php", ir.php.toJson)]

/-- The representation with the hash of its own JSON form. -/
def withHash (ir : Ir) : Ir := { ir with hash := ir.toJson.contentHash }

end Ir

end RestPlugin
