import RestPlugin.Handler.Basic

/-!
# Handlers of resources stored as transients

Each item is a value with an expiry under a key made of a common beginning and the identity.  A
resource with an identity serves the routes that carry it; one without has a single value.
-/

namespace RestPlugin.Handler.Transient

open Controller Ir Php Snippet

/-- The key of the addressed value. -/
def key (pascal : String) (identity : Option Identity) : Build Expr := do
  let args ← identity.toList.mapM fun identity => Expr.ofVariable identity.param
  Expr.thisCall s!"get{pascal}TransientKey" args

/-- The identity as it is repeated in responses. -/
def echo (identity : Option Identity) : Build (List (String × Expr)) :=
  identity.toList.mapM fun identity => do
    let value ← Expr.ofVariable identity.param
    .ok (identity.param, value)

/-- Reads the identity, if there is one. -/
def takeIdentity? (resource : Resource) (pascal : String) : Build (List Stmt) :=
  match resource.identity with
  | none => .ok []
  | some identity => takeIdentity identity pascal resource.name

/-- What is done with the value under a key, by access. -/
def body (resource pascal : String) (key : Expr) (echoed : List (String × Expr)) :
    Access → List Stmt
  | .read =>
      [.setVar "value" (.fn "get_transient" [key]),
       .when (Expr.var "value").isFalse [notFound resource pascal],
       .blank,
       .returning (.record (echoed ++ [("value", .var "value")]))]
  | .write =>
      [.setVar "value" (requestParam "value"),
       .setVar "expiration" (.fn "max" [.int 0, (requestParam "expiration").toInt]),
       .setVar "stored" (.fn "set_transient" [key, .var "value", .var "expiration"]),
       .when (Expr.var "stored").isFalse
         [returnError (errorCode resource "store_failed") s!"Unable to store {pascal}." 500],
       .blank,
       .returning (.record (echoed ++ [("value", .var "value")]))]
  | .delete =>
      [.setVar "deleted" (.fn "delete_transient" [key]),
       .blank,
       .returning (.record (("deleted", .var "deleted") :: echoed))]

/-- Whether a route addresses a single value: it carries the identity if there is one. -/
def addresses (resource : Resource) (route : Route) : Bool :=
  match resource.identity with
  | none => true
  | some identity => route.usesParam identity.param

/-- The handler of a route. -/
def handler (resource : Resource) (pascal : String) (route : Route) (kind : RouteKind)
    (metadata : Metadata) : Composed :=
  if addresses resource route then do
    let taken ← takeIdentity? resource pascal
    let key ← key pascal resource.identity
    let echoed ← echo resource.identity
    let access := Access.of route.method
    .ok (some ⟨taken ++ body resource.name pascal key echoed access,
      [metadata.event kind access.cacheOperation none]⟩)
  else .ok none

/-- The type of a parameter that carries an identity. -/
def paramType : IdentityKind → String
  | .number => "int"
  | .string => "string"

/-- The private methods that the handlers call; `beginning` starts every key. -/
def methods (pascal : String) (identity : Option Identity) (beginning : String) :
    Build (List Php.Method) := do
  let method ← Php.Method.of s!"get{pascal}TransientKey"
  match identity with
  | none =>
      .ok
        [{ method with
           visibility := .isPrivate
           returnType := some "string"
           body := [.returning (.string beginning)] }]
  | some identity =>
      let param ← Param.typed (paramType identity.kind) identity.param
      let value ← Expr.ofVariable identity.param
      .ok
        [{ method with
           visibility := .isPrivate
           params := [param]
           returnType := some "string"
           body := [.returning (.binary .concat (.string (beginning ++ "_")) value.toText)] }]

end RestPlugin.Handler.Transient
