import RestPlugin.Handler.Compose
import RestPlugin.Ir.Basic

/-!
# Controller classes

Each resource gets one class.  It tells its name, its schema and its routes, and has one handler for
every route, followed by the private methods that the handlers call.
-/

namespace RestPlugin.Controller

open Ir Php

/-- The comment at the top of every generated source file. -/
def generatedNote : String := "Generated by wpk. Do not edit."

/-- The namespace of the controllers. -/
def restNamespace (php : PhpProject) : String := php.phpNamespace ++ "\\Rest"

/-- The namespace of the capability checks. -/
def policyNamespace (php : PhpProject) : String := php.phpNamespace ++ "\\Policy"

/-- The class name of the controller of a resource. -/
def className (resource : Resource) : String := Text.pascalCase resource.name ++ "Controller"

/-- A route of a controller with its kind and the name of its handler. -/
structure Endpoint where
  route : Route
  kind : RouteKind
  handler : String
deriving DecidableEq, Repr, Inhabited

/-- The name of a handler: its kind, with an ordinal if the kind occurred before. -/
def handlerName (earlier : List RouteKind) (kind : RouteKind) : String :=
  let ordinal := (earlier.filter (· == kind)).length + 1
  if ordinal == 1 then "handle_" ++ kind.text
  else "handle_" ++ kind.text ++ "_" ++ toString ordinal

/-- The endpoints of classified routes; `earlier` holds the kinds of the routes before them. -/
def endpointsFrom (earlier : List RouteKind) : List (Route × RouteKind) → List Endpoint
  | [] => []
  | (route, kind) :: rest =>
      ⟨route, kind, handlerName earlier kind⟩ :: endpointsFrom (earlier ++ [kind]) rest

/-- The endpoints of a resource, in route order. -/
def endpoints (resource : Resource) : List Endpoint :=
  endpointsFrom [] (resource.routes.zip (routeKinds resource))

namespace Endpoint

/-- The entry of an endpoint in the route table. -/
def entry (identity : Option Identity) (endpoint : Endpoint) : Expr :=
  let (space, pattern) := restRoute endpoint.route.path identity
  .record
    [("namespace", .string space), ("route", .string pattern),
     ("methods", .string endpoint.route.method.text), ("callback", .string endpoint.handler)]

/-- The documentation of a handler: what it serves, its kind and its tags. -/
def doc (metadata : Metadata) (endpoint : Endpoint) : Doc :=
  ["Handle [" ++ endpoint.route.method.text ++ "] " ++ endpoint.route.path ++ ".", "",
    "@wp-kernel route-kind " ++ endpoint.kind.text] ++
  (metadata.tagsFor endpoint.route).map (fun tag => "@wp-kernel " ++ tag.1 ++ " " ++ tag.2) ++
  ["@param WP_REST_Request $request Request instance.", "@return mixed"]

/-- The capability check at the start of a handler. -/
def checks (endpoint : Endpoint) : List Stmt :=
  match endpoint.route.capability with
  | none => []
  | some key => Snippet.capabilityGuard key ++ [.blank]

/-- The handler of an endpoint, with its cache events. -/
def method (resource : Resource) (metadata : Metadata) (endpoint : Endpoint) :
    Build (Php.Method × List CacheEvent) := do
  let pascal := Text.pascalCase resource.name
  let handler ← Handler.ofRoute resource pascal endpoint.route endpoint.kind metadata
  let method ← Php.Method.of endpoint.handler
  .ok
    ({ method with
       params := [.known "WP_REST_Request" "request"]
       body := endpoint.checks ++ handler.body
       doc := some (endpoint.doc metadata) },
     handler.events)

end Endpoint

/-- The type of an identity in a request. -/
def requestType : IdentityKind → String
  | .number => "integer"
  | .string => "string"

/-- The arguments that the routes of a resource accept. -/
def requestArgs (resource : Resource) : List (String × Expr) :=
  (resource.identity.map fun identity =>
    (identity.param, Expr.record [("type", .string (requestType identity.kind))])).toList ++
  (resource.queryParams.getD []).map fun (name, param) =>
    (name, Expr.record
      ([("type", .string "string"), ("required", .bool !param.optional)] ++
        (param.values.map fun values => ("enum", Expr.stringList values)).toList ++
        (param.description.map fun text => ("description", Expr.string text)).toList))

/-- A public method that returns a fixed value. -/
def answering (name type : String) (value : Expr) : Php.Method where
  name := name
  returnType := some type
  body := [.returning value]

/-- The methods by which a controller describes itself. -/
def selfDescription (resource : Resource) : List Php.Method :=
  [answering "get_resource_name" "string" (.string resource.name),
   answering "get_schema_key" "string" (.string resource.schemaKey),
   answering "get_rest_args" "array" (.record (requestArgs resource)),
   answering "get_routes" "array"
     (.array ((endpoints resource).map fun endpoint => .plain (endpoint.entry resource.identity)))]

/-- The classes that the handlers of a storage use. -/
def storageClasses : Option Storage → List String
  | some (.post _) => ["WP_Post", "WP_Query"]
  | some (.taxonomy _ _) => ["WP_Term"]
  | some .transient | some (.option _) | none => []

/-- The classes that a controller uses, ascending. -/
def usedClasses (php : PhpProject) (resource : Resource) : List String :=
  ([policyNamespace php ++ "\\Policy", "WP_Error", "WP_REST_Request"] ++
    storageClasses resource.storage).mergeSort fun a b => !(b < a)

/-- The beginning of the transient keys of a resource. -/
def transientKey (slug : String) (resource : Resource) : String :=
  Text.underscoreSlug slug ++ "_" ++ Text.snakeCase resource.name

/-- A composed controller. -/
structure Composed where
  className : String
  file : Php.File
  metadata : Metadata

/-- Composes the controller of a resource. -/
def compose (ir : Ir) (resource : Resource) : Build Composed := do
  let metadata := Metadata.ofResource resource
  let handlers ← (endpoints resource).mapM (Endpoint.method resource metadata)
  let decl ← Php.Class.of (className resource)
  let helpers ← Handler.methods resource (Text.pascalCase resource.name)
    (transientKey ir.info.slug resource)
  let space ← Name.of (restNamespace ir.php)
  let uses ← (usedClasses ir.php resource).mapM Name.of
  let controllerClass :=
    { decl with
      isFinal := true
      parent := some ⟨["BaseController"]⟩
      doc := some ["REST controller for the `" ++ resource.name ++ "` resource."]
      methods := selfDescription resource ++ handlers.map (·.1) ++ helpers }
  let file : Php.File :=
    { strictTypes := true
      doc := some [generatedNote]
      space := some space
      stmts := [.classDecl controllerClass] }
  .ok
    { className := className resource
      file := uses.foldl File.addUse file
      metadata := metadata.note (handlers.flatMap (·.2)) }

end RestPlugin.Controller
