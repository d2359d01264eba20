import RestPlugin.Php.Marker
import RestPlugin.Php.Shape
import RestPlugin.Text.Naming

/-!
# Recurring pieces of handlers

Requests, errors and capability checks, as every generated handler uses them.
-/

namespace RestPlugin.Snippet

open Php

/-- The request variable. -/
def request : Expr := .var "request"

/-- The parameter of the request with a given name. -/
def requestParam (name : String) : Expr := request.send "get_param" [.string name]

/-- The code of an error of a resource. -/
def errorCode (resource suffix : String) : String :=
  "wpk_" ++ Text.snakeCase resource ++ "_" ++ suffix

/-- A new error object with an HTTP status. -/
def errorObject (code message : String) (status : Int) : Expr :=
  .newOf "WP_Error" [.string code, .string message, .record [("status", .int status)]]

/-- A statement that returns an error. -/
def returnError (code message : String) (status : Int) : Stmt :=
  .returning (errorObject code message status)

/-- A statement that returns a value if it is an error. -/
def returnIfError (value : Expr) : Stmt := .when (.fn "is_wp_error" [value]) [.returning value]

/-- A statement for values that are no post. -/
def unlessPost (value : Expr) (body : List Stmt) : Stmt := .when (.not (value.isA "WP_Post")) body

/-- The check of a capability, which ends the handler when it is denied. -/
def capabilityGuard (key : String) : List Stmt :=
  [.setVar "permission" (.staticCall ⟨["Policy"]⟩ "enforce" [.string key, request]),
   returnIfError (.var "permission")]

/-- What is done under an audit marker of a handler that changes posts. -/
inductive Audit where
  | channel
  | status
  | metaFields
  | taxonomies
  | cache
  | cacheSegment
deriving DecidableEq, Repr

/-- The key of a marker. -/
def Audit.key : Audit → String
  | channel => "resource.wpPost.mutation"
  | status => "resource.wpPost.mutation.status"
  | metaFields => "resource.wpPost.mutation.meta"
  | taxonomies => "resource.wpPost.mutation.taxonomies"
  | cache => "resource.wpPost.mutation.cache"
  | cacheSegment => "resource.wpPost.mutation.cacheSegment"

/-- The marker with a value. -/
def Audit.marker (audit : Audit) (value : String) : Stmt := Php.marker audit.key value

end RestPlugin.Snippet
