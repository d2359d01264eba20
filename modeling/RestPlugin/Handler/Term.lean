import RestPlugin.Handler.Basic
import RestPlugin.Snippet.Query

/-!
# Handlers of resources stored as taxonomy terms

Terms can be listed and read, by number or by slug.  A reading route without placeholders lists,
wherever it stands.
-/

namespace RestPlugin.Handler.Term

open Controller Ir Php Snippet

/-- The taxonomy of the resource. -/
def taxonomy (pascal : String) : Build Expr := Expr.thisCall s!"get{pascal}Taxonomy" []

/-- The response for a term. -/
def prepared (pascal : String) (term : Expr) : Build Expr :=
  Expr.thisCall s!"prepare{pascal}TermResponse" [term]

/-- The body of a listing. -/
def listBody (pascal : String) : Build (List Stmt) := do
  let name ← taxonomy pascal
  let item ← prepared pascal (.var "term")
  let offset :=
    Expr.binary .mul (.binary .minus (.var "page") (.int 1)) (.var "per_page")
  .ok (pagination ++
    [.blank,
     .setVar "terms" (.fn "get_terms" [.record
       [("taxonomy", name), ("hide_empty", .bool false), ("number", .var "per_page"),
        ("offset", offset)]]),
     returnIfError (.var "terms"),
     .blank,
     .setVar "items" (.array []),
     .foreach (.var "terms") none (.var "term") [.set (.append (.var "items")) item],
     .blank,
     .returning (.record
       [("items", .var "items"),
        ("total", (Expr.fn "wp_count_terms" [.record
          [("taxonomy", name), ("hide_empty", .bool false)]]).toInt),
        ("page", .var "page")])])

/-- The term with an identity. -/
def lookup (pascal : String) (identity : Identity) : Build Expr := do
  let value ← Expr.ofVariable identity.param
  let name ← taxonomy pascal
  match identity.kind with
  | .number => .ok (.fn "get_term" [value, name])
  | .string => .ok (.fn "get_term_by" [.string "slug", value, name])

/-- The body of a handler that reads a term. -/
def getBody (resource : Resource) (pascal : String) (identity : Identity) :
    Build (List Stmt) := do
  let found ← lookup pascal identity
  let taken ← takeIdentity identity pascal resource.name
  let item ← prepared pascal (.var "term")
  .ok (taken ++
    [.setVar "term" found,
     .when (.not ((Expr.var "term").isA "WP_Term")) [notFound resource.name pascal],
     .blank,
     .returning item])

/-- Whether a route lists terms. -/
def lists (route : Route) (kind : RouteKind) : Bool :=
  kind == .list || (kind == .custom && route.method == .get && route.params.isEmpty)

/-- The handler of a route. -/
def handler (resource : Resource) (pascal : String) (route : Route) (kind : RouteKind)
    (metadata : Metadata) : Composed :=
  let event := metadata.event kind .read none
  if lists route kind then do
    let body ← listBody pascal
    .ok (some ⟨body, [event]⟩)
  else
    match kind, resource.identity with
    | .get, some identity => do
        let body ← getBody resource pascal identity
        .ok (some ⟨body, [event]⟩)
    | _, _ => .ok none

/-- The response fields of a term. -/
def responseFields : List (String × Expr) :=
  let field (name : String) : Expr := .property (.var "term") name
  [("id", (field "term_id").toInt), ("name", field "name"), ("slug", field "slug"),
   ("description", field "description"), ("parent", (field "parent").toInt),
   ("count", (field "count").toInt)]

/-- The private methods that the handlers call. -/
def methods (pascal taxonomy : String) : Build (List Php.Method) := do
  let name ← Php.Method.of s!"get{pascal}Taxonomy"
  let prepare ← Php.Method.of s!"prepare{pascal}TermResponse"
  .ok
    [{ name with
       visibility := .isPrivate
       returnType := some "string"
       body := [.returning (.string taxonomy)] },
     { prepare with
       visibility := .isPrivate
       params := [.known "WP_Term" "term"]
       returnType := some "array"
       body := [.returning (.record responseFields)] }]

end RestPlugin.Handler.Term
