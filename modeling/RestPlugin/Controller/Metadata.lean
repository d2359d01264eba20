import RestPlugin.Controller.CachePlan

/-!
# Controller metadata

What a controller does, route by route, and which cached results it touches.  It is written into the
manifest beside the generated sources.
-/

namespace RestPlugin.Controller

open Ir

/-- The tag of routes that change posts. -/
def mutationTag : String := "resource.wpPost.mutation"

/-- What is noted about a route. -/
structure RouteMetadata where
  method : Method
  path : String
  kind : RouteKind
  cacheSegments : Option (List Segment)
  tags : Option (List (String × String))
deriving Repr, Inhabited

/-- What is noted about a controller. -/
structure Metadata where
  name : String
  identity : Option Identity
  routes : List RouteMetadata
  cache : CachePlan := {}
deriving Repr, Inhabited

/-- The operation that belongs to a kind of route. -/
def RouteKind.operation : RouteKind → Option Operation
  | .list => some .list
  | .get => some .get
  | .create => some .create
  | .update => some .update
  | .remove => some .remove
  | .custom => none

/-- The cache segments of routes of a kind.  Custom routes have none; the list is empty for an
operation without a cache key. -/
def cacheSegments (keys : CacheKeys) (kind : RouteKind) : Option (List Segment) :=
  kind.operation.map fun operation => ((keys.at? operation).map (·.segments)).getD []

/-- The tags of a route: routes that change posts carry the kind of change. -/
def routeTags (resource : Resource) (kind : RouteKind) : Option (List (String × String)) :=
  if resource.post?.isSome then kind.mutation.map fun mutation => [(mutationTag, mutation)]
  else none

/-- What is noted about a route of a resource. -/
def routeMetadata (resource : Resource) (kind : RouteKind) (route : Route) : RouteMetadata where
  method := route.method
  path := route.path
  kind := kind
  cacheSegments := cacheSegments resource.cacheKeys kind
  tags := routeTags resource kind

/-- The kinds of the routes of a resource, in order. -/
def routeKinds (resource : Resource) : List RouteKind :=
  classify resource.routes (resource.identity.map Identity.param)

namespace RouteMetadata

/-- The JSON form of route metadata; absent parts are left out. -/
def toJson (route : RouteMetadata) : Json :=
  .obj ([("method", .str route.method.text), ("path", .str route.path),
      ("kind", .str route.kind.text)] ++
    (route.cacheSegments.map fun segments =>
      ("cacheSegments", Json.arr (segments.map Segment.toJson))).toList ++
    (route.tags.map fun tags => ("tags", Json.obj (Keyed.mapValues Json.str tags))).toList)

end RouteMetadata

namespace Metadata

/-- The metadata of a resource before its handlers are composed. -/
def ofResource (resource : Resource) : Metadata where
  name := resource.name
  identity := resource.identity
  routes := List.zipWith (routeMetadata resource) (routeKinds resource) resource.routes

/-- The first route of a kind. -/
def route? (metadata : Metadata) (kind : RouteKind) : Option RouteMetadata :=
  metadata.routes.find? fun route => route.kind == kind

/-- The tags of the first route with the method and path of a given one. -/
def tagsFor (metadata : Metadata) (route : Route) : List (String × String) :=
  ((metadata.routes.find? fun noted =>
    noted.method == route.method && noted.path == route.path).bind RouteMetadata.tags).getD []

/-- The cache segments of the first route of a kind. -/
def segmentsFor (metadata : Metadata) (kind : RouteKind) : List Segment :=
  ((metadata.route? kind).bind RouteMetadata.cacheSegments).getD []

/-- An event that concerns the cached results of a kind of route. -/
def event (metadata : Metadata) (scope : RouteKind) (operation : CacheOperation)
    (description : Option String) : CacheEvent where
  scope := scope
  operation := operation
  segments := metadata.segmentsFor scope
  description := description

/-- Notes events in the cache plan. -/
def note (metadata : Metadata) (events : List CacheEvent) : Metadata :=
  { metadata with cache := events.foldl CachePlan.note metadata.cache }

/-- The JSON form of controller metadata. -/
def toJson (metadata : Metadata) : Json :=
  .obj [("kind", .str "resource-controller"), ("name", .str metadata.name),
    ("identity", .ofOption Identity.toJson metadata.identity),
    ("routes", .arr (metadata.routes.map RouteMetadata.toJson)),
    ("cache", metadata.cache.toJson)]

end Metadata

end RestPlugin.Controller
