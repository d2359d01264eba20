import RestPlugin.Handler.Basic
import RestPlugin.Snippet.Status
import RestPlugin.Snippet.Sync

/-!
# Handlers of resources stored as posts

Listing, reading, creating, updating and deleting posts of the resource's own post type, and the
private methods that these handlers call.  Creating and updating leave audit markers.
-/

namespace RestPlugin.Handler.Post

open Controller Ir Php Snippet

/-- The post type of the resource. -/
def postType (pascal : String) : Build Expr := Expr.thisCall s!"get{pascal}PostType" []

/-- The response for a post. -/
def prepared (pascal : String) (post : Expr) : Build Expr :=
  Expr.thisCall s!"prepare{pascal}Response" [post, request]

/-- The request parameter, the post field and the filter function of a supported feature. -/
def supportField : Support → Option (String × String × String)
  | .title => some ("title", "post_title", "sanitize_text_field")
  | .editor => some ("content", "post_content", "wp_kses_post")
  | .excerpt => some ("excerpt", "post_excerpt", "sanitize_textarea_field")
  | .customFields => none

/-- Puts the requested post fields into the post data. -/
def postFields (supports : List Support) : List Stmt :=
  supports.flatMap fun support =>
    match supportField support with
    | none => []
    | some (param, field, filter) =>
        [.setVar param (requestParam param),
         .when (Expr.var param).notNull
           [.set ((Expr.var "post_data").entry field) (.fn filter [(Expr.var param).toText])]]

/-- Reads the identity and finds the post. -/
def resolvePost (resource : Resource) (pascal : String) (identity : Identity) :
    Build (List Stmt) := do
  let taken ← takeIdentity identity pascal resource.name
  let param ← Expr.ofVariable identity.param
  let found ← Expr.thisCall s!"resolve{pascal}Post" [param]
  .ok (taken ++
    [.setVar "post" found, unlessPost (.var "post") [notFound resource.name pascal], .blank])

/-- The statements of a listing: the query arguments with their clauses, the query, and an item for
each post that it finds. -/
def listing (args : Stmt) (metaClauses termClauses : List Stmt) (item : Expr) : List Stmt :=
  pagination ++ [.blank, args, .blank] ++ metaClauses ++ termClauses ++
    [.setVar "query" (.newOf "WP_Query" [.var "query_args"]),
     .setVar "items" (.array []),
     .blank,
     .foreach (.property (.var "query") "posts") none (.var "post_id")
       [.setVar "post" (.fn "get_post" [.var "post_id"]),
        unlessPost (.var "post") [.next],
        .blank,
        .set (.append (.var "items")) item],
     .blank,
     .returning (.record
       [("items", .var "items"),
        ("total", (Expr.property (.var "query") "found_posts").toInt),
        ("pages", (Expr.property (.var "query") "max_num_pages").toInt)])]

/-- The body of a listing. -/
def listBody (storage : PostStorage) (pascal : String) : Build (List Stmt) := do
  let args ← queryArgs pascal storage.statuses
  let metaClauses ← metaQuery storage.metaFields
  let termClauses ← taxonomyQuery storage.taxonomies
  let item ← prepared pascal (.var "post")
  .ok (listing args metaClauses termClauses item)

/-- Lists posts page by page, restricted by meta values and terms. -/
def list (resource : Resource) (pascal : String) (metadata : Metadata) : Composed :=
  match resource.post? with
  | none => .ok none
  | some storage => do
      let body ← listBody storage pascal
      .ok (some ⟨body, [metadata.event .list .read (some s!"Query {metadata.name} collection")]⟩)

/-- Reads a post. -/
def get (resource : Resource) (pascal : String) (identity : Identity) (metadata : Metadata) :
    Composed :=
  match resource.post? with
  | none => .ok none
  | some _ => do
      let resolved ← resolvePost resource pascal identity
      let item ← prepared pascal (.var "post")
      .ok (some ⟨resolved ++ [.returning item],
        [metadata.event .get .read (some ("Read " ++ resource.name ++ " item"))]⟩)

/-- Loads a written post again and returns the response for it. -/
def reload (pascal resource : String) (post : Expr) (target verb : String) :
    Build (List Stmt) := do
  let item ← prepared pascal (.var target)
  .ok [Audit.channel.marker "cache-priming", Audit.cache.marker "prime",
    Audit.cacheSegment.marker "prime",
    .setVar target (.fn "get_post" [post]),
    unlessPost (.var target)
      [returnError (errorCode resource "load_failed") s!"Unable to load {verb} {pascal}." 500],
    .blank,
    .returning item]

/-- The event of a handler that loads a written post again. -/
def primeEvent (resource : String) (metadata : Metadata) (scope : RouteKind) : CacheEvent :=
  metadata.event scope .prime (some (s!"Prime {resource} cache after " ++ scope.text))

/-- The body of a handler that creates a post. -/
def createBody (resource : Resource) (storage : PostStorage) (pascal : String) :
    Build (List Stmt) := do
  let type ← postType pascal
  let status ← statusValidation pascal resource.name storage.statuses .always
  let storeMeta ← syncMeta pascal (.var "post_id")
  let storeTerms ← syncTaxonomies pascal (.var "post_id")
  let reloaded ← reload pascal resource.name (.var "post_id") "post" "created"
  .ok ([.setVar "post_type" type, .blank,
      .setVar "post_data" (.record [("post_type", .var "post_type")])] ++
    postFields storage.supports ++ status ++
    [.blank, .setVar "post_id" (.fn "wp_insert_post" [.var "post_data", .bool true]),
     returnIfError (.var "post_id"), .blank] ++
    storeMeta ++ storeTerms ++ [.blank] ++ reloaded)

/-- Creates a post. -/
def create (resource : Resource) (pascal : String) (metadata : Metadata) : Composed :=
  match resource.post? with
  | none => .ok none
  | some storage => do
      let body ← createBody resource storage pascal
      .ok (some ⟨body, [primeEvent resource.name metadata .create]⟩)

/-- The id of the addressed post. -/
def postId : Expr := .property (.var "post") "ID"

/-- The body of a handler that updates a post. -/
def updateBody (resource : Resource) (storage : PostStorage) (pascal : String)
    (identity : Identity) : Build (List Stmt) := do
  let resolved ← resolvePost resource pascal identity
  let type ← postType pascal
  let status ← statusValidation pascal resource.name storage.statuses .whenPresent
  let storeMeta ← syncMeta pascal postId
  let storeTerms ← syncTaxonomies pascal postId
  let reloaded ← reload pascal resource.name postId "updated" "updated"
  .ok (resolved ++
    [.setVar "post_data" (.record [("ID", postId), ("post_type", type)])] ++
    postFields storage.supports ++ status ++
    [.blank, .setVar "result" (.fn "wp_update_post" [.var "post_data", .bool true]),
     returnIfError (.var "result"), .blank] ++
    storeMeta ++ storeTerms ++ [.blank] ++ reloaded)

/-- Updates a post; its status stays unless the request has one. -/
def update (resource : Resource) (pascal : String) (identity : Identity) (metadata : Metadata) :
    Composed :=
  match resource.post? with
  | none => .ok none
  | some storage => do
      let body ← updateBody resource storage pascal identity
      .ok (some ⟨body, [primeEvent resource.name metadata .update]⟩)

/-- The body of a handler that deletes a post and returns its last state. -/
def deleteBody (resource : Resource) (pascal : String) (identity : Identity) :
    Build (List Stmt) := do
  let resolved ← resolvePost resource pascal identity
  let previous ← prepared pascal (.var "post")
  .ok (resolved ++
    [.setVar "previous" previous,
     .setVar "deleted" (.fn "wp_delete_post" [postId, .bool true]),
     .when (Expr.var "deleted").isFalse
       [returnError (errorCode resource.name "delete_failed") s!"Unable to delete {pascal}." 500],
     .blank,
     .returning (.record
       [("deleted", .bool true), ("id", postId.toInt), ("previous", .var "previous")])])

/-- The event of cached results that a deletion makes stale. -/
def staleEvent (resource : String) (metadata : Metadata) (scope : RouteKind) : CacheEvent :=
  metadata.event scope .invalidate
    (some (s!"Invalidate {resource} " ++ scope.text ++ " cache after delete"))

/-- Deletes a post. -/
def delete (resource : Resource) (pascal : String) (identity : Identity) (metadata : Metadata) :
    Composed :=
  match resource.post? with
  | none => .ok none
  | some _ => do
      let body ← deleteBody resource pascal identity
      .ok (some ⟨body,
        [staleEvent resource.name metadata .remove, staleEvent resource.name metadata .list]⟩)

/-- The handler of a route.  Routes on an item need an identity. -/
def handler (resource : Resource) (pascal : String) (kind : RouteKind) (metadata : Metadata) :
    Composed :=
  match kind, resource.identity with
  | .list, _ => list resource pascal metadata
  | .create, _ => create resource pascal metadata
  | .get, some identity => get resource pascal identity metadata
  | .update, some identity => update resource pascal identity metadata
  | .remove, some identity => delete resource pascal identity metadata
  | _, _ => .ok none

/-- The method that gives the post type. -/
def postTypeMethod (pascal : String) (storage : PostStorage) : Build Php.Method := do
  let method ← Php.Method.of s!"get{pascal}PostType"
  .ok
    { method with
      visibility := .isPrivate
      returnType := some "string"
      body := [.returning (.string storage.postType)] }

/-- Finds a post by its name. -/
def findByName (pascal : String) (name : Expr) : Build (List Stmt) := do
  let type ← postType pascal
  .ok [.setVar "posts" (.fn "get_posts" [.record
      [("name", name), ("post_type", type), ("post_status", .string "any"),
       ("numberposts", .int 1)]]),
    .setVar "post" (.binary .coalesce (.dim (.var "posts") (.int 0)) .null)]

/-- The parameter of the method that finds a post, and its first statements. -/
def lookup (pascal : String) (identity : Option Identity) : Build (Param × List Stmt) := do
  let identity := identity.getD ⟨.number, "id"⟩
  let value ← Expr.ofVariable identity.param
  match identity.kind with
  | .string =>
      let found ← findByName pascal value
      let param ← Param.typed "string" identity.param
      .ok (param, found)
  | .number =>
      let param ← Param.typed "int" identity.param
      .ok (param, [.setVar "post" (.fn "get_post" [value])])

/-- The method that finds a post of the right type. -/
def resolveMethod (pascal : String) (identity : Option Identity) : Build Php.Method := do
  let (param, found) ← lookup pascal identity
  let type ← postType pascal
  let method ← Php.Method.of s!"resolve{pascal}Post"
  .ok
    { method with
      visibility := .isPrivate
      params := [param]
      returnType := some "?WP_Post"
      body := found ++
        [unlessPost (.var "post") [.returning .null],
         .when (.binary .notIdentical type (.property (.var "post") "post_type"))
           [.returning .null],
         .blank,
         .returning (.var "post")] }

/-- The response field of a supported feature. -/
def responseField : Support → Option (String × Expr)
  | .title => some ("title", .fn "get_the_title" [.var "post"])
  | .editor => some ("content", .property (.var "post") "post_content")
  | .excerpt => some ("excerpt", .property (.var "post") "post_excerpt")
  | .customFields => none

/-- Puts the meta values and terms of a post into the response. -/
def responseExtras (storage : PostStorage) : List Stmt :=
  let metaValues := storage.metaFields.map fun (key, field) =>
    Stmt.set ((Expr.var "data").entry key)
      (.fn "get_post_meta" [postId, .string key, .bool field.single])
  let terms := storage.taxonomies.map fun (key, taxonomy) =>
    Stmt.set ((Expr.var "data").entry key)
      (.fn "wp_get_object_terms"
        [postId, .string taxonomy.taxonomy, .record [("fields", .string "ids")]])
  if metaValues.isEmpty && terms.isEmpty then [] else .blank :: metaValues ++ terms

/-- The method that makes the response for a post. -/
def prepareMethod (pascal : String) (storage : PostStorage) : Build Php.Method := do
  let fields :=
    [("id", postId.toInt), ("status", Expr.property (.var "post") "post_status"),
     ("slug", Expr.property (.var "post") "post_name")] ++
    storage.supports.filterMap responseField
  let method ← Php.Method.of s!"prepare{pascal}Response"
  .ok
    { method with
      visibility := .isPrivate
      params := [.known "WP_Post" "post", .known "WP_REST_Request" "request"]
      returnType := some "array"
      body := .setVar "data" (.record fields) :: responseExtras storage ++
        [.blank, .returning (.var "data")] }

/-- The private methods that the handlers call. -/
def methods (resource : Resource) (pascal : String) : Build (List Php.Method) :=
  match resource.post? with
  | none => .ok []
  | some storage => do
      let typeMethod ← postTypeMethod pascal storage
      let resolve ← resolveMethod pascal resource.identity
      let prepare ← prepareMethod pascal storage
      let status ← statusMethod pascal storage.statuses
      let storeMeta ← metaMethod pascal storage.metaFields
      let storeTerms ← taxonomiesMethod pascal storage.taxonomies
      .ok [typeMethod, resolve, prepare, status, storeMeta, storeTerms]

end RestPlugin.Handler.Post
