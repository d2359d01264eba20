import RestPlugin.Config.Error
import RestPlugin.Config.Model
import RestPlugin.Json.Writer

/-!
# The JSON form of a configuration

A configuration spelled out: absent parts are written as `null`, keyed parts as lists of pairs in
their order, and what follows from a part stands beside it.
-/

namespace RestPlugin

/-- A keyed list as pairs. -/
def Json.pairs {α : Type} (f : α → Json) (entries : List (String × α)) : Json :=
  .arr (entries.map fun entry => .arr [.str entry.1, f entry.2])

/-- A segment of a cache key with its kind, its value and its spelling. -/
def Segment.spelledOut (segment : Segment) : Json :=
  match segment with
  | .bool value => .arr [.str "bool", .bool value, .str segment.display]
  | .int value => .arr [.str "int", .int value, .str segment.display]
  | .float value => .arr [.str "float", .str (Json.compact (.float value)), .str segment.display]
  | .text value => .arr [.str "text", .str value, .str segment.display]

namespace Config

/-- The JSON form of a capability. -/
def Capability.toJson (capability : Capability) : Json :=
  .obj [
    ("form", .str (match capability with | .simple _ => "simple" | .detailed _ _ _ => "detailed")),
    ("capability", .str capability.capability), ("appliesTo", .str capability.appliesTo.text),
    ("binding", .ofOption .str capability.binding)]

/-- The JSON form of the route of an operation. -/
def Route.toJson (operation : Operation) (route : Route) : Json :=
  .obj [("operation", .str operation.text), ("item", .bool operation.isItemLevel),
    ("write", .bool operation.isWrite), ("path", .str route.path),
    ("method", .str route.method.text), ("capability", .ofOption .str route.capability),
    ("placeholders", .strings (placeholders route.path))]

/-- The JSON form of an identity. -/
def Identity.toJson (identity : Identity) : Json :=
  .obj [("type", .str identity.kind.text), ("declared", .ofOption .str identity.declared),
    ("param", .str identity.param), ("allowed", .strings identity.kind.allowedParams)]

/-- The JSON form of a meta key. -/
def MetaField.toJson (field : MetaField) : Json :=
  .obj [("type", .str field.type.text), ("single", .ofOption .bool field.single),
    ("isSingle", .bool field.isSingle)]

/-- The JSON form of a taxonomy. -/
def Taxonomy.toJson (taxonomy : Taxonomy) : Json :=
  .obj [("taxonomy", .str taxonomy.taxonomy), ("hierarchical", .bool taxonomy.hierarchical),
    ("register", .ofOption .bool taxonomy.register)]

/-- The JSON form of a storage. -/
def Storage.toJson (storage : Storage) : Json :=
  .obj <| ("mode", .str storage.mode) ::
    match storage with
    | .transient => []
    | .option name => [("option", .str name)]
    | .taxonomy name hierarchical =>
        [("taxonomy", .str name), ("hierarchical", .bool hierarchical)]
    | .post s =>
        [("postType", .ofOption .str s.postType), ("statuses", .strings s.statuses),
         ("supports", .strings (s.supports.map Support.text)),
         ("meta", .pairs MetaField.toJson s.metaFields),
         ("taxonomies", .pairs Taxonomy.toJson s.taxonomies)]

/-- The JSON form of a schema reference. -/
def SchemaRef.toJson : SchemaRef → Json
  | .auto => .strings ["auto"]
  | .key name => .strings ["key", name]

/-- The JSON form of a query parameter. -/
def QueryParam.toJson (param : QueryParam) : Json :=
  .obj [("type", .str param.type.text), ("optional", .bool param.optional),
    ("enum", .ofOption .strings param.values), ("description", .ofOption .str param.description)]

/-- The JSON form of cache keys. -/
def cacheKeysJson (keys : PerOperation (List Segment)) : Json :=
  .arr (keys.toList.map fun entry =>
    .arr [.str entry.1.text, .arr (entry.2.map Segment.spelledOut)])

/-- The JSON form of a resource. -/
def Resource.toJson (resource : Resource) : Json :=
  .obj [("name", .str resource.name),
    ("routes", .arr (resource.routes.toList.map fun entry => entry.2.toJson entry.1)),
    ("identity", .ofOption Identity.toJson resource.identity),
    ("storage", .ofOption Storage.toJson resource.storage),
    ("schema", .ofOption SchemaRef.toJson resource.schema),
    ("cacheKeys", .ofOption cacheKeysJson resource.cacheKeys),
    ("queryParams", .ofOption (.pairs QueryParam.toJson) resource.queryParams),
    ("capabilities", .ofOption (.pairs Capability.toJson) resource.capabilities)]

/-- The JSON form of a schema declaration. -/
def SchemaFile.toJson (file : SchemaFile) : Json :=
  .obj [("path", .str file.path), ("description", .ofOption .str file.description)]

/-- The JSON form of a configuration. -/
def toJson (config : Config) : Json :=
  .obj [("version", .ofOption .nat config.version),
    ("effectiveVersion", .nat config.effectiveVersion),
    ("namespace", .str config.declaredNamespace),
    ("schemas", .pairs SchemaFile.toJson config.schemas),
    ("resources", .pairs Resource.toJson config.resources),
    ("capabilities", .ofOption (.pairs Capability.toJson) config.capabilities)]

/-- The JSON form of a warning; an absent resource is left out. -/
def Warning.toJson (warning : Warning) : Json :=
  .obj ([("code", .str warning.code), ("message", .str warning.message)] ++
    (warning.resource.map fun resource => ("resource", Json.str resource)).toList)

end Config

end RestPlugin
