import RestPlugin.Ir.Basic
import RestPlugin.Snippet.Basic

/-!
# Identities in handlers

Reading the identity of the addressed item from the request and refusing one that cannot be right.
-/

namespace RestPlugin.Snippet

open Ir Php

/-- Reads the identity into a variable of its name. -/
def readIdentity (identity : Identity) : Build Stmt := do
  let target ← Expr.ofVariable identity.param
  .ok (.set target (requestParam identity.param))

/-- Refuses an identity.  A number has to be there and positive after a cast; a string must not be
blank and is trimmed. -/
def identityGuard (identity : Identity) (pascal resource : String) : Build (List Stmt) := do
  let value ← Expr.ofVariable identity.param
  let missing :=
    returnError (errorCode resource "missing_identifier") s!"Missing identifier for {pascal}." 400
  match identity.kind with
  | .number =>
      let invalid :=
        returnError (errorCode resource "invalid_identifier")
          s!"Invalid identifier for {pascal}." 400
      .ok [.when (.binary .identical .null value) [missing],
        .set value value.toInt,
        .when (.binary .smallerOrEqual value (.int 0)) [invalid]]
  | .string =>
      let blank := Expr.binary .identical (.string "") (.fn "trim" [value])
      .ok [.when (.binary .booleanOr (.not (.fn "is_string" [value])) blank) [missing],
        .set value (.fn "trim" [value.toText])]

/-- Reads an identity and refuses a wrong one. -/
def takeIdentity (identity : Identity) (pascal resource : String) : Build (List Stmt) := do
  let read ← readIdentity identity
  let guarded ← identityGuard identity pascal resource
  .ok (read :: guarded ++ [.blank])

end RestPlugin.Snippet
