import RestPlugin.Handler.Basic

/-!
# Handlers of resources stored as an option

One value under a fixed option name: it can be read, written and deleted.
-/

namespace RestPlugin.Handler.Single

open Controller Ir Php Snippet

/-- The name and the current value of the option. -/
def current : Stmt :=
  .returning (.record [("option", .var "option"), ("value", .fn "get_option" [.var "option"])])

/-- What follows the name of the option, by access. -/
def body : Access → List Stmt
  | .read => [.blank, current]
  | .write =>
      [.setVar "value" (requestParam "value"), .blank,
       .expression (.fn "update_option" [.var "option", .var "value"]), .blank, current]
  | .delete =>
      [.setVar "deleted" (.fn "delete_option" [.var "option"]), .blank,
       .returning (.record [("deleted", .var "deleted"), ("option", .var "option")])]

/-- The handler of a route. -/
def handler (pascal : String) (route : Route) (kind : RouteKind) (metadata : Metadata) :
    Composed := do
  let name ← Expr.thisCall s!"get{pascal}OptionName" []
  let access := Access.of route.method
  .ok (some ⟨.setVar "option" name :: body access,
    [metadata.event kind access.cacheOperation none]⟩)

/-- The private methods that the handlers call. -/
def methods (pascal option : String) : Build (List Php.Method) := do
  let method ← Php.Method.of s!"get{pascal}OptionName"
  .ok
    [{ method with
       visibility := .isPrivate
       returnType := some "string"
       body := [.returning (.string option)] }]

end RestPlugin.Handler.Single
