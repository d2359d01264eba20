import RestPlugin.Plugin.Source

/-!
# Capability checks

The class that maps capability keys to capabilities and checks them for the current user.  Keys that
are not in the map take the fallback.
-/

namespace RestPlugin.Plugin

open Controller Ir Php Snippet

/-- A capability with its target and binding. -/
def capabilityEntry (capability : String) (appliesTo : AppliesTo) (binding : Option String) :
    Expr :=
  .record
    [("capability", .string capability), ("appliesTo", .string appliesTo.text),
     ("binding", (binding.map Expr.string).getD .null)]

/-- The table of capability keys. -/
def capabilityTable (definitions : List Definition) : Expr :=
  .record (definitions.map fun definition =>
    (definition.key,
     capabilityEntry definition.capability definition.appliesTo definition.binding))

/-- The error of a user without the capability. -/
def forbidden : Expr :=
  .newOf "WP_Error"
    [.string "wpk_forbidden", .string "You are not allowed to perform this action.",
     .record
       [("status", .fn "rest_authorization_required_code" []), ("capability", .var "key")]]

/-- The statements of the check. -/
def enforceBody : List Stmt :=
  let field (key : String) : Expr := (Expr.var "definition").entry key
  let table := Expr.classConstant ⟨["self"]⟩ "CAPABILITIES"
  let fallback := Expr.classConstant ⟨["self"]⟩ "FALLBACK"
  let bound :=
    Expr.binary .booleanAnd (.binary .identical (.string "object") (field "appliesTo"))
      (Expr.var "binding").notNull
  [.setVar "definition" (.binary .coalesce (.dim table (.var "key")) fallback),
   .setVar "capability" (field "capability"),
   .setVar "binding" (.binary .coalesce (field "binding") .null),
   .blank,
   .cond bound
     [.setVar "allowed" (.fn "current_user_can"
       [.var "capability", request.send "get_param" [.var "binding"]])]
     (some [.setVar "allowed" (.fn "current_user_can" [.var "capability"])]),
   .blank,
   .when (.var "allowed") [.returning (.bool true)],
   .blank,
   .returning forbidden]

/-- The method that checks a capability. -/
def enforceMethod : Php.Method where
  name := "enforce"
  isStatic := true
  params := [.known "string" "key", .known "WP_REST_Request" "request"]
  body := enforceBody
  doc := some
    ["Check the capability mapped to `$key` for the current user.",
     "",
     "@param string          $key     Capability key.",
     "@param WP_REST_Request $request Request being authorised.",
     "@return true|WP_Error"]

/-- The class of capability checks. -/
def policyClass (map : CapabilityMap) : Php.Class where
  name := "Policy"
  isFinal := true
  doc := some ["Capability checks for the generated REST controllers."]
  consts :=
    [{ name := "CAPABILITIES", visibility := .isPrivate, value := capabilityTable map.definitions },
     { name := "FALLBACK"
       visibility := .isPrivate
       value := capabilityEntry map.fallback.capability map.fallback.appliesTo none }]
  methods := [enforceMethod]

/-- The source of the capability checks in a namespace. -/
def policySource (space : String) (map : CapabilityMap) : Build Php.File := do
  let name ← Name.of space
  .ok
    { strictTypes := true
      doc := some [generatedNote]
      space := some name
      uses := [⟨["WP_Error"]⟩, ⟨["WP_REST_Request"]⟩]
      stmts := [.classDecl (policyClass map)] }

end RestPlugin.Plugin
