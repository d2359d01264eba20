import RestPlugin.Handler.Compose

/-!
# Composing beside the metadata

The metadata of a controller stands beside its handlers while they are composed.  An event finds its
segments there and is noted there at once, so a composition that fails later on could leave one
behind.  A listing notes its event with the query, before the response of its items is composed; the
other handlers note theirs when the last statement is there.
-/

namespace RestPlugin.Handler

open Controller Ir Php Snippet

/-- A composition beside the metadata of a controller.  What was noted before a failure stays
noted. -/
abbrev Noting (α : Type) : Type := ExceptT BuildError (StateM Metadata) α

/-- What a composition comes to, and the metadata that it leaves. -/
def Noting.beside {α : Type} (composition : Noting α) (metadata : Metadata) : Build α × Metadata :=
  composition.run.run metadata

/-- A composition of the statements of a handler, if there is one. -/
abbrev Composer : Type := Noting (Option (List Stmt))

namespace Composer

/-- Composes a handler and notes its events at the end. -/
def atEnd (compose : Metadata → Composed) : Composer := do
  let metadata ← get
  match ← compose metadata with
  | none => return none
  | some handler =>
      set (metadata.note handler.events)
      return some handler.body

/-- Composes a listing of posts. -/
def list (resource : Resource) (pascal : String) : Composer :=
  match resource.post? with
  | none => return none
  | some storage => do
      let args ← queryArgs pascal storage.statuses
      let metaClauses ← metaQuery storage.metaFields
      let termClauses ← taxonomyQuery storage.taxonomies
      modify fun metadata =>
        metadata.note [metadata.event .list .read (some s!"Query {metadata.name} collection")]
      let item ← Post.prepared pascal (.var "post")
      return some (Post.listing args metaClauses termClauses item)

/-- Composes the handler of a route on posts.  Routes on an item need an identity. -/
def post (resource : Resource) (pascal : String) (kind : RouteKind) : Composer :=
  match kind, resource.identity with
  | .list, _ => list resource pascal
  | .create, _ => atEnd (Post.create resource pascal)
  | .get, some identity => atEnd (Post.get resource pascal identity)
  | .update, some identity => atEnd (Post.update resource pascal identity)
  | .remove, some identity => atEnd (Post.delete resource pascal identity)
  | _, _ => return none

/-- Composes the handler of a route that the storage supports. -/
def supported (resource : Resource) (pascal : String) (route : Route) (kind : RouteKind) :
    Composer :=
  match resource.storage with
  | none => return none
  | some (.post _) => post resource pascal kind
  | some .transient => atEnd (Transient.handler resource pascal route kind)
  | some (.option _) => atEnd (Single.handler pascal route kind)
  | some (.taxonomy _ _) => atEnd (Term.handler resource pascal route kind)

/-- Composes the handler of any route. -/
def ofRoute (resource : Resource) (pascal : String) (route : Route) (kind : RouteKind) :
    Noting (List Stmt) := do
  let composed ← supported resource pascal route kind
  return composed.getD (stub route)

end Composer

end RestPlugin.Handler
