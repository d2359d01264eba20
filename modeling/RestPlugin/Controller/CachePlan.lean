import RestPlugin.Controller.Kind
import RestPlugin.Ir.Encode

/-!
# Cache plans

What the handlers of a controller do to cached results.  The same event is noted once.
-/

namespace RestPlugin.Controller

/-- What happens to cached results. -/
inductive CacheOperation where
  | read
  | prime
  | invalidate
deriving DecidableEq, Repr, Inhabited

/-- The spelling of a cache operation. -/
def CacheOperation.text : CacheOperation → String
  | read => "read"
  | prime => "prime"
  | invalidate => "invalidate"

/-- An event of a route that concerns the results under a cache key. -/
structure CacheEvent where
  scope : RouteKind
  operation : CacheOperation
  segments : List Segment
  description : Option String
deriving Repr, Inhabited

/-- Equality of segment lists, with numbers compared by value. -/
def sameSegments : List Segment → List Segment → Bool
  | [], [] => true
  | s :: ss, t :: ts => s.sameValue t && sameSegments ss ts
  | _, _ => false

namespace CacheEvent

/-- Equality of events, with numbers in segments compared by value. -/
def same (a b : CacheEvent) : Bool :=
  a.scope == b.scope && a.operation == b.operation && sameSegments a.segments b.segments &&
    a.description == b.description

/-- The JSON form of an event; an absent description is left out. -/
def toJson (event : CacheEvent) : Json :=
  .obj ([("scope", .str event.scope.text), ("operation", .str event.operation.text),
    ("segments", .arr (event.segments.map Segment.toJson))] ++
    (event.description.map fun text => ("description", Json.str text)).toList)

end CacheEvent

/-- The cache events of a controller, in the order in which they were noted. -/
structure CachePlan where
  events : List CacheEvent := []
deriving Repr, Inhabited

namespace CachePlan

/-- Notes an event unless the same one is there. -/
def note (plan : CachePlan) (event : CacheEvent) : CachePlan :=
  if plan.events.any (·.same event) then plan else { events := plan.events ++ [event] }

/-- The events with a given operation. -/
def byOperation (plan : CachePlan) (operation : CacheOperation) : List CacheEvent :=
  plan.events.filter fun event => event.operation == operation

/-- The JSON form of a plan. -/
def toJson (plan : CachePlan) : Json := .obj [("events", .arr (plan.events.map CacheEvent.toJson))]

end CachePlan

end RestPlugin.Controller
