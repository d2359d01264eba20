import RestPlugin.Config.Model
import RestPlugin.Ir.Encode
import RestPlugin.Ir.Error

/-!
# Normalised routes

A route path is trimmed, starts with one slash, and has single slashes between its segments.  Over
all resources together a method and path may be declared once.
-/

namespace RestPlugin.Ir

/-- Path beginnings that belong to WordPress. -/
def reservedBeginnings : List String := ["/wp/v2", "/wp-json", "/oembed/1.0", "/wp-site-health"]

/-- Whether a path is, or lies below, a given beginning. -/
def isWithin (beginning path : String) : Bool :=
  path == beginning || Text.startsWith path (beginning ++ "/")

/-- Whether a text starts like an absolute URL. -/
def isAbsoluteUrl (text : String) : Bool :=
  let text := Text.lowerString text
  Text.startsWith text "http://" || Text.startsWith text "https://"

/-- The segments of a path: its non-empty parts between slashes. -/
def segments (path : String) : List String :=
  (Text.splitOnChar '/' path).filter (· != "")

/-- Normalises the path of a route. -/
def normalisePath (path : String) : Except PathFault String :=
  let trimmed := Text.trim path
  if trimmed == "" then .error .empty
  else if isAbsoluteUrl trimmed then .error (.absoluteUrl trimmed)
  else
    let parts := segments trimmed
    if parts.contains ".." then .error (.parentSegment trimmed)
    else
      let normalised := "/" ++ Text.join "/" parts
      match reservedBeginnings.find? (isWithin · normalised) with
      | some beginning => .error (.reserved normalised beginning)
      | none => .ok normalised

/-- The methods and paths claimed so far, with the resources that claimed them. -/
abbrev RouteRegistry : Type := List ((Method × String) × String)

/-- The resource that claimed a method and path. -/
def RouteRegistry.owner? (registry : RouteRegistry) (method : Method) (path : String) :
    Option String :=
  registry.lookup (method, path)

/-- A text without the white space at its ends, if anything is left. -/
def nonBlank (text : String) : Option String :=
  let text := Text.trim text
  if text == "" then none else some text

/-- The route of a declaration whose path was normalised. -/
def Route.ofConfig (path : String) (route : Config.Route) : Route :=
  let built : Route :=
    { method := route.method, path, capability := route.capability.bind nonBlank, hash := "" }
  { built with hash := (Json.obj built.content).contentHash }

/-- Builds one route and claims its method and path. -/
def buildRoute (registry : RouteRegistry) (resource : String) (operation : Operation)
    (route : Config.Route) : Except Error (Route × RouteRegistry) :=
  match normalisePath route.path with
  | .error fault => .error (.developer resource (.badPath operation fault))
  | .ok path =>
      match registry.owner? route.method path with
      | some owner =>
          .error (.developer resource (.routeTaken operation route.method path owner))
      | none =>
          .ok (Route.ofConfig path route, ((route.method, path), resource) :: registry)

/-- Builds routes in order.  The registry keeps what was claimed before an error. -/
def claimRoutes (resource : String) :
    RouteRegistry → List (Operation × Config.Route) → Except Error (List Route) × RouteRegistry
  | registry, [] => (.ok [], registry)
  | registry, (operation, route) :: rest =>
      match buildRoute registry resource operation route with
      | .error error => (.error error, registry)
      | .ok (built, registry) =>
          let (routes, registry) := claimRoutes resource registry rest
          (routes.map (built :: ·), registry)

/-- Order of routes: by the text of the method, then by path. -/
def Route.le (a b : Route) : Bool :=
  a.method.text < b.method.text || (a.method == b.method && !(b.path < a.path))

/-- Builds the routes of a resource, sorted. -/
def buildRoutes (registry : RouteRegistry) (resource : String)
    (routes : PerOperation Config.Route) : Except Error (List Route) × RouteRegistry :=
  let (built, registry) := claimRoutes resource registry routes.toList
  (built.map (·.mergeSort Route.le), registry)

end RestPlugin.Ir
