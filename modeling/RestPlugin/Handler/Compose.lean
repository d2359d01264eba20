import RestPlugin.Handler.Post
import RestPlugin.Handler.Single
import RestPlugin.Handler.Term
import RestPlugin.Handler.Transient

/-!
# Composing handlers

Each storage has its own handlers.  A route that the storage does not support gets a stub which
answers that it is not implemented.
-/

namespace RestPlugin.Handler

open Controller Ir Php

/-- The stub of an unsupported route. -/
def stub (route : Route) : List Stmt :=
  [.comment ("// TODO: Implement handler for [" ++ route.method.text ++ "] " ++ route.path ++ "."),
   .returning (.newOf "WP_Error" [.int 501, .string "Not Implemented"])]

/-- The handler of a route that the storage supports. -/
def supported (resource : Resource) (pascal : String) (route : Route) (kind : RouteKind)
    (metadata : Metadata) : Composed :=
  match resource.storage with
  | none => .ok none
  | some (.post _) => Post.handler resource pascal kind metadata
  | some .transient => Transient.handler resource pascal route kind metadata
  | some (.option _) => Single.handler pascal route kind metadata
  | some (.taxonomy _ _) => Term.handler resource pascal route kind metadata

/-- The handler of any route. -/
def ofRoute (resource : Resource) (pascal : String) (route : Route) (kind : RouteKind)
    (metadata : Metadata) : Build Handler := do
  let composed ← supported resource pascal route kind metadata
  .ok (composed.getD ⟨stub route, []⟩)

/-- The private methods that the handlers of a resource call; `beginning` starts the keys of
transients. -/
def methods (resource : Resource) (pascal beginning : String) : Build (List Php.Method) :=
  match resource.storage with
  | none => .ok []
  | some (.post _) => Post.methods resource pascal
  | some .transient => Transient.methods pascal resource.identity beginning
  | some (.option name) => Single.methods pascal name
  | some (.taxonomy name _) => Term.methods pascal name

end RestPlugin.Handler
