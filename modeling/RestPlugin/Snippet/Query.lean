import RestPlugin.Ir.Basic
import RestPlugin.Snippet.Basic

/-!
# Queries over posts

The pages of a listing, and the clauses that restrict it by meta values and taxonomy terms.
-/

namespace RestPlugin.Snippet

open Ir Php

/-- The size of a page when none is asked for. -/
def defaultPageSize : Int := 10

/-- The largest size of a page. -/
def maxPageSize : Int := 100

/-- Reads the page and its size from the request. -/
def pagination : List Stmt :=
  [.setVar "page" (.fn "max" [.int 1, (requestParam "page").toInt]),
   .setVar "per_page" (requestParam "per_page").toInt,
   .when (.binary .smallerOrEqual (.var "per_page") (.int 0))
     [.setVar "per_page" (.int defaultPageSize)],
   .when (.binary .greater (.var "per_page") (.int maxPageSize))
     [.setVar "per_page" (.int maxPageSize)]]

/-- The arguments of a paged query for the ids of posts. -/
def queryArgs (pascal : String) (statuses : List String) : Build Stmt := do
  let postType ← Expr.thisCall s!"get{pascal}PostType" []
  .ok (.setVar "query_args" (.record
    [("post_type", postType),
     ("post_status", if statuses.isEmpty then .string "any" else .stringList statuses),
     ("fields", .string "ids"),
     ("paged", .var "page"),
     ("posts_per_page", .var "per_page")]))

/-- Adds a clause to the query arguments. -/
def addClause (clause : String) (fields : List (String × Expr)) : Stmt :=
  .set (.append ((Expr.var "query_args").entry clause)) (.record fields)

/-- A single meta value made safe; structured values cannot be queried. -/
def scalarFilter (type : MetaType) (value : Expr) : Option Expr :=
  match type with
  | .string => some (.fn "sanitize_text_field" [value.toText])
  | .integer => some value.toInt
  | .number => some (.cast .float value)
  | .boolean => some (.fn "rest_sanitize_boolean" [value])
  | .array | .object => none

/-- The function that makes one of several meta values safe. -/
def listFilter : MetaType → String
  | .integer => "intval"
  | .number => "floatval"
  | .boolean => "rest_sanitize_boolean"
  | .string | .array | .object => "sanitize_text_field"

/-- A test that a list is not empty. -/
def hasItems (value : Expr) : Expr := .binary .greater (.fn "count" [value]) (.int 0)

/-- The requested values of a meta key, made safe; blank texts are dropped. -/
def listValues (type : MetaType) (value : Expr) : Expr :=
  let mapped := Expr.fn "array_map" [.string (listFilter type), value.toArray]
  match type with
  | .string =>
      .fn "array_filter" [mapped,
        .arrow true [.mk "value" none none] (.binary .notIdentical (.string "") (.var "value"))]
  | _ => mapped

/-- The clause for a meta key: single values are compared, several are looked up in a list. -/
def metaClause (key : String) (field : MetaField) (value : Expr) : Option (List Stmt) :=
  if field.single then
    (scalarFilter field.type value).map fun filtered =>
      [addClause "meta_query"
        [("key", .string key), ("value", filtered), ("compare", .string "=")]]
  else
    some
      [.set value (.fn "array_values" [listValues field.type value]),
       .when (hasItems value)
         [addClause "meta_query"
           [("key", .string key), ("value", value), ("compare", .string "IN")]]]

/-- Restricts a query by a meta key of the request. -/
def metaFieldQuery (key : String) (field : MetaField) : Build (List Stmt) := do
  let value ← Expr.ofVariable (Text.snakeCase key ++ "_meta")
  match metaClause key field value with
  | none => .ok []
  | some body => .ok [.set value (requestParam key), .when value.notNull body, .blank]

/-- Restricts a query by the meta keys of the request. -/
def metaQuery (fields : List (String × MetaField)) : Build (List Stmt) := do
  let parts ← fields.mapM fun field => metaFieldQuery field.1 field.2
  .ok parts.flatten

/-- The requested term ids. -/
def termIds (value : Expr) : Expr :=
  .fn "array_filter" [.fn "array_map" [.string "intval", value.toArray]]

/-- Restricts a query by a taxonomy of the request. -/
def termQuery (key : String) (taxonomy : Taxonomy) : Build (List Stmt) := do
  let value ← Expr.ofVariable (Text.snakeCase key ++ "_terms")
  .ok [.set value (requestParam key),
    .when value.notNull
      [.set value (.fn "array_values" [termIds value]),
       .when (hasItems value)
         [addClause "tax_query"
           [("taxonomy", .string taxonomy.taxonomy), ("field", .string "term_id"),
            ("terms", value)]]],
    .blank]

/-- Restricts a query by the taxonomies of the request. -/
def taxonomyQuery (taxonomies : List (String × Taxonomy)) : Build (List Stmt) := do
  let parts ← taxonomies.mapM fun taxonomy => termQuery taxonomy.1 taxonomy.2
  .ok parts.flatten

end RestPlugin.Snippet
