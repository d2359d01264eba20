import RestPlugin.Ir.Route

/-!
# Kinds of routes

What a route does follows from its method and from its place relative to the base paths of the
resource: on a base path it lists or creates, on a base path followed by the identity it works on
one item, and anything else is custom.
-/

namespace RestPlugin.Controller

open Ir

/-- What a route does. -/
inductive RouteKind where
  | list
  | get
  | create
  | update
  | remove
  | custom
deriving DecidableEq, Repr, Inhabited

namespace RouteKind

/-- The spelling of a kind. -/
def text : RouteKind → String
  | list => "list"
  | get => "get"
  | create => "create"
  | update => "update"
  | remove => "remove"
  | custom => "custom"

/-- Whether the handler works on one item. -/
def usesIdentity : RouteKind → Bool
  | get | update | remove => true
  | list | create | custom => false

/-- The mutation tag of kinds that change data. -/
def mutation : RouteKind → Option String
  | create => some "create"
  | update => some "update"
  | remove => some "delete"
  | list | get | custom => none

end RouteKind

/-- The path with the given segments. -/
def pathOf (parts : List String) : String := "/" ++ Text.join "/" parts

/-- The base of a path that ends in the placeholder `param` and has no other placeholder
segment. -/
def identityBase (path param : String) : Option String :=
  match (segments path).reverse with
  | [] => none
  | last :: above =>
      if last == ":" ++ param && !(above.any (Text.startsWith · ":")) then
        some (pathOf above.reverse)
      else none

/-- The bases of the routes of a list that end in the identity, ascending. -/
def identityBases (routes : List Route) (param : Option String) : List String :=
  match param with
  | none => []
  | some param =>
      (Keyed.sorted ((routes.filterMap fun route => identityBase route.path param).map (·, ()))).map
        (·.1)

/-- The paths of routes that have no colon. -/
def staticPaths (routes : List Route) : List String :=
  (routes.map Route.path).filter fun path => !path.toList.contains ':'

/-- The base paths of a resource, ascending: those of its identity routes or, if there are none, its
shortest static paths of at most one segment. -/
def basePaths (routes : List Route) (param : Option String) : List String :=
  let bases := identityBases routes param
  if !bases.isEmpty then bases
  else
    let paths := staticPaths routes
    match (paths.map fun path => (segments path).length).min? with
    | none => []
    | some least =>
        if 1 < least then []
        else
          (Keyed.sorted
            ((paths.filter fun path => (segments path).length == least).map (·, ()))).map (·.1)

/-- The kind of a route relative to base paths. -/
def routeKind (param : Option String) (bases : List String) (route : Route) : RouteKind :=
  if (param.bind (identityBase route.path)).any bases.contains then
    match route.method with
    | .get => .get
    | .put | .patch => .update
    | .delete => .remove
    | .post => .custom
  else if bases.contains route.path then
    match route.method with
    | .get => .list
    | .post => .create
    | .put | .patch | .delete => .custom
  else .custom

/-- The kinds of the routes of a resource, in order. -/
def classify (routes : List Route) (param : Option String) : List RouteKind :=
  routes.map (routeKind param (basePaths routes param))

/-- The pattern of a segment of a route: a placeholder becomes a named group, which takes digits
only for a numeric identity. -/
def segmentPattern (identity : Option Identity) (segment : String) : String :=
  match segment.toList with
  | ':' :: rest =>
      let param := String.ofList rest
      let numeric := identity.any fun identity => identity.param == param && identity.isNumeric
      "(?P<" ++ param ++ ">" ++ (if numeric then "\\d+" else "[^/]+") ++ ")"
  | _ => segment

/-- The REST namespace of a path and the pattern of the route below it.  The namespace has two
segments, or one if there are no more than two. -/
def restRoute (path : String) (identity : Option Identity) : String × String :=
  let parts := segments path
  let split := if 2 < parts.length then 2 else min parts.length 1
  (Text.join "/" (parts.take split), pathOf ((parts.drop split).map (segmentPattern identity)))

end RestPlugin.Controller
