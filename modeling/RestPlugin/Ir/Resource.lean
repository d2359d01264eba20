import RestPlugin.Ir.Identity
import RestPlugin.Ir.Route
import RestPlugin.Ir.Schema
import RestPlugin.Ir.Storage

/-!
# Resources

Resources are resolved in the order of their names, so that route ownership and post type
collisions do not depend on the order of the configuration.

Every reading operation of a resource has a cache key, and a writing operation has one if it has a
route or configured segments.  A key that is not configured consists of the resource name, the
operation and a token.
-/

namespace RestPlugin.Ir

/-! ## Cache keys -/

/-- The token of the empty query. -/
def queryToken : Segment := .text "\x7b\x7d"

/-- The default segments of an operation. -/
def defaultSegments (name : String) (operation : Operation) : List Segment :=
  [.text name, .text operation.text,
   if operation.isItemLevel then Segment.identityToken else queryToken]

/-- The cache key of an operation. -/
def cacheKey (name : String) (config : PerOperation (List Segment)) (operation : Operation) :
    CacheKey :=
  match config.at? operation with
  | some segments => ⟨segments, .config⟩
  | none => ⟨defaultSegments name operation, .default⟩

/-- The cache keys of a resource. -/
def deriveCacheKeys (name : String) (config : Option (PerOperation (List Segment)))
    (routes : PerOperation Config.Route) : CacheKeys :=
  let config := config.getD {}
  let optional (operation : Operation) : Option CacheKey :=
    if (config.at? operation).isSome || (routes.at? operation).isSome then
      some (cacheKey name config operation)
    else none
  { list := cacheKey name config .list
    get := cacheKey name config .get
    create := optional .create
    update := optional .update
    remove := optional .remove }

/-! ## Warnings and claims -/

/-- Order of warnings: by code, then by message. -/
def Warning.le (a b : Warning) : Bool :=
  a.code < b.code || (a.code == b.code && !(b.message < a.message))

/-- Warnings in order. -/
def sortWarnings (warnings : List Warning) : List Warning := warnings.mergeSort Warning.le

/-- What the resources resolved so far have claimed. -/
structure Claims where
  schemas : SchemaTable
  routes : RouteRegistry := []
  postTypes : PostTypeRegistry := []

/-- The identity of a resource.  One with option storage holds a single value and has none. -/
def resourceIdentity (resource : Config.Resource) (routes : List Route) : IdentityResolution :=
  match resource.storage, resource.identity with
  | some (.option _), none => { identity := none, warning := none }
  | _, declared => resolveIdentity resource.name declared routes

/-- A query parameter. -/
def QueryParam.ofConfig (param : Config.QueryParam) : QueryParam :=
  ⟨param.type, param.optional, param.values, param.description⟩

/-- The part of a resource that its hash covers. -/
def Resource.content (resource : Resource) : Json :=
  .obj [("name", .str resource.name), ("schemaKey", .str resource.schemaKey),
    ("schemaProvenance", .str resource.schemaProvenance.text),
    ("routes", .arr (resource.routes.map fun route => .obj route.content)),
    ("cacheKeys", resource.cacheKeys.toJson),
    ("identity", .ofOption Identity.toJson resource.identity),
    ("storage", .ofOption Storage.toJson resource.storage),
    ("queryParams", queryParamsJson resource.queryParams)]

/-- Resolves one resource. -/
def buildResource (slug : String) (claims : Claims) (key : String) (resource : Config.Resource) :
    Except Error (Resource × Claims) := do
  let (routes, routeRegistry) := buildRoutes claims.routes resource.name resource.routes
  let routes ← routes
  let resolution := resourceIdentity resource routes
  checkStorageIdentity resource.name resource.storage resource.identity resolution.identity routes
  let storage := resolveStorage resource.name resource.storage slug
  let (collision, postTypes) := claims.postTypes.record resource.name storage
  let (schema, schemas) ← resolveSchema claims.schemas key resource slug
  let built : Resource :=
    { name := resource.name
      schemaKey := schema.key
      schemaProvenance := schema.provenance
      routes
      cacheKeys := deriveCacheKeys resource.name resource.cacheKeys resource.routes
      identity := resolution.identity
      storage := storage.storage
      queryParams := resource.queryParams.map fun params =>
        Keyed.sorted (Keyed.mapValues QueryParam.ofConfig params)
      hash := ""
      warnings := sortWarnings
        (resolution.warning.toList ++ collision.toList ++ storage.warnings) }
  .ok ({ built with hash := built.content.contentHash },
    { schemas, routes := routeRegistry, postTypes })

/-- Resolves resources in order. -/
def buildResourceList (slug : String) :
    Claims → List (String × Config.Resource) → Except Error (List Resource × SchemaTable)
  | claims, [] => .ok ([], claims.schemas)
  | claims, (key, resource) :: rest => do
      let (built, claims) ← buildResource slug claims key resource
      let (others, schemas) ← buildResourceList slug claims rest
      .ok (built :: others, schemas)

/-- Order of declarations: by name, then by configuration key. -/
def declarationLe (a b : String × Config.Resource) : Bool :=
  a.2.name < b.2.name || (a.2.name == b.2.name && !(b.1 < a.1))

/-- Order of resources: by name, then by schema key. -/
def Resource.le (a b : Resource) : Bool :=
  a.name < b.name || (a.name == b.name && !(b.schemaKey < a.schemaKey))

/-- Resolves the resources of a configuration, and adds the schemas made up for them. -/
def buildResources (loaded : Config.Loaded) (slug : String) (schemas : SchemaTable) :
    Except Error (List Resource × SchemaTable) := do
  let declared := loaded.config.resources.mergeSort declarationLe
  let (resources, schemas) ← buildResourceList slug { schemas } declared
  .ok (resources.mergeSort Resource.le, schemas)

end RestPlugin.Ir
