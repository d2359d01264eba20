import RestPlugin.Controller.Metadata
import RestPlugin.Snippet.Identity

/-!
# Handlers

A composed handler is a list of statements together with the cache events it causes.  Composing one
gives nothing when the storage does not support the route, and fails when a name is no identifier.
In both of these cases no event is noted.
-/

namespace RestPlugin

open Controller Ir Php

/-- The body of a handler and the cache events it causes. -/
structure Handler where
  body : List Stmt
  events : List CacheEvent

namespace Handler

/-- A handler, nothing for an unsupported route, or an error. -/
abbrev Composed : Type := Build (Option Handler)

/-- The metadata after a handler was composed. -/
def noted (metadata : Metadata) : Composed → Metadata
  | .ok (some handler) => metadata.note handler.events
  | .ok none | .error _ => metadata

/-- What a route does to storage that holds a single value. -/
inductive Access where
  | read
  | write
  | delete
deriving DecidableEq, Repr

/-- The access of a request method. -/
def Access.of : Method → Access
  | .get => .read
  | .post | .put | .patch => .write
  | .delete => .delete

/-- What an access does to cached results. -/
def Access.cacheOperation : Access → CacheOperation
  | .read => .read
  | .write => .prime
  | .delete => .invalidate

/-- The error of an item that does not exist. -/
def notFound (resource pascal : String) : Stmt :=
  Snippet.returnError (Snippet.errorCode resource "not_found") s!"{pascal} not found." 404

end Handler

end RestPlugin
