import RestPlugin.Snippet.Basic

/-!
# Post statuses

Checking the status a request asks for, and the method that settles on a permitted one.
-/

namespace RestPlugin.Snippet

open Php

/-- The statuses of a post type that declares none. -/
def defaultStatuses : List String := ["draft", "pending", "private", "publish", "future"]

/-- Whether a status is always set or only if the request has one. -/
inductive StatusTarget where
  | always
  | whenPresent
deriving DecidableEq, Repr

/-- Refuses a status outside the declared ones. -/
def statusGuard (pascal resource : String) (statuses : List String) : List Stmt :=
  if statuses.isEmpty then []
  else
    let outside :=
      Expr.not (.fn "in_array" [.var "status", .stringList statuses, .bool true])
    [.when (.binary .booleanAnd (Expr.var "status").notNull outside)
      [returnError (errorCode resource "invalid_status") s!"Invalid status for {pascal}." 400]]

/-- Reads the requested status, refuses a wrong one and puts it into the post data. -/
def statusValidation (pascal resource : String) (statuses : List String) (target : StatusTarget) :
    Build (List Stmt) := do
  let normalised ← Expr.thisCall s!"normalise{pascal}Status" [.var "status"]
  let set := Stmt.set ((Expr.var "post_data").entry "post_status") normalised
  .ok ([Audit.channel.marker "status-validation", Audit.status.marker "normalise",
      .setVar "status" (requestParam "status")] ++
    statusGuard pascal resource statuses ++
    [match target with
      | .always => set
      | .whenPresent => .when (Expr.var "status").notNull [set]])

/-- The method that gives the status if it is permitted, and the first permitted one otherwise. -/
def statusMethod (pascal : String) (statuses : List String) : Build Php.Method := do
  let allowed := if statuses.isEmpty then defaultStatuses else statuses
  let fallback := allowed.head?.getD "draft"
  let method ← Php.Method.of s!"normalise{pascal}Status"
  .ok
    { method with
      visibility := .isPrivate
      params := [.mk "status" none none]
      returnType := some "string"
      body :=
        [.setVar "allowed" (.stringList allowed),
         .setVar "status"
           (.ternary (.fn "is_string" [.var "status"])
             (some (.fn "sanitize_key" [.var "status"])) (.string "")),
         .blank,
         .when (.fn "in_array" [.var "status", .var "allowed", .bool true])
           [.returning (.var "status")],
         .blank,
         .returning (.string fallback)] }

end RestPlugin.Snippet
