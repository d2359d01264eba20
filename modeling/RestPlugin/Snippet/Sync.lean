import RestPlugin.Snippet.Query

/-!
# Storing meta values and terms

The methods that write the meta values and terms of a request to a post, and the calls of them.
-/

namespace RestPlugin.Snippet

open Ir Php

/-- Stores the meta values of the request. -/
def syncMeta (pascal : String) (post : Expr) : Build (List Stmt) := do
  let call ← Expr.thisCall s!"sync{pascal}Meta" [post, request]
  .ok [Audit.channel.marker "sync-meta", Audit.metaFields.marker "update", .expression call]

/-- Stores the terms of the request and ends the handler on an error. -/
def syncTaxonomies (pascal : String) (post : Expr) : Build (List Stmt) := do
  let call ← Expr.thisCall s!"sync{pascal}Taxonomies" [post, request]
  .ok [Audit.channel.marker "sync-taxonomies", Audit.taxonomies.marker "update",
    .setVar "taxonomy_result" call, returnIfError (.var "taxonomy_result")]

/-- A meta value made safe; structured values stay as they are. -/
def storedValue (type : MetaType) (value : Expr) : Expr := (scalarFilter type value).getD value

/-- The parameters of the storing methods. -/
def syncParams : List Param := [.known "int" "post_id", .known "WP_REST_Request" "request"]

/-- Stores one meta key if the request has it. -/
def storeMeta (key : String) (field : MetaField) : Build (List Stmt) := do
  let slug := Text.snakeCase key
  let value ← Expr.ofVariable (slug ++ "_meta")
  let body ←
    if field.single then
      pure [Stmt.expression (.fn "update_post_meta"
        [.var "post_id", .string key, storedValue field.type value])]
    else do
      let item ← Expr.ofVariable (slug ++ "_value")
      pure
        [.expression (.fn "delete_post_meta" [.var "post_id", .string key]),
         .foreach value.toArray none item
           [.expression (.fn "add_post_meta"
             [.var "post_id", .string key, storedValue field.type item])]]
  .ok [.set value (requestParam key), .when value.notNull body]

/-- Groups of statements with a blank line between neighbours. -/
def spaced : List (List Stmt) → List Stmt
  | [] => []
  | [group] => group
  | group :: rest => group ++ .blank :: spaced rest

/-- A property that survives a blank line between statements holds of spaced groups if it holds of
each group. -/
theorem spaced_of_forall_mem {holds : List Stmt → Prop} (empty : holds [])
    (apart : ∀ group later, holds group → holds later → holds (group ++ .blank :: later))
    {groups : List (List Stmt)} (each : ∀ group ∈ groups, holds group) : holds (spaced groups) := by
  induction groups with
  | nil => exact empty
  | cons group groups ih =>
      rw [List.forall_mem_cons] at each
      cases groups with
      | nil => exact each.1
      | cons second groups => exact apart _ _ each.1 (ih each.2)

/-- The method that stores every declared meta key of a request. -/
def metaMethod (pascal : String) (fields : List (String × MetaField)) : Build Php.Method := do
  let groups ← fields.mapM fun field => storeMeta field.1 field.2
  let method ← Php.Method.of s!"sync{pascal}Meta"
  .ok
    { method with
      visibility := .isPrivate
      params := syncParams
      returnType := some "void"
      body := spaced groups }

/-- Stores the terms of one taxonomy if the request has them. -/
def storeTerms (key : String) (taxonomy : Taxonomy) : Build (List Stmt) := do
  let slug := Text.snakeCase key
  let terms ← Expr.ofVariable (slug ++ "_terms")
  let result ← Expr.ofVariable (slug ++ "_result")
  .ok [.set terms (requestParam key),
    .when terms.notNull
      [.set terms (termIds terms),
       .set result (.fn "wp_set_object_terms"
         [.var "post_id", terms, .string taxonomy.taxonomy, .bool false]),
       returnIfError result],
    .blank]

/-- The method that stores the terms of every declared taxonomy; it gives the first error, or
`true`. -/
def taxonomiesMethod (pascal : String) (taxonomies : List (String × Taxonomy)) :
    Build Php.Method := do
  let groups ← taxonomies.mapM fun taxonomy => storeTerms taxonomy.1 taxonomy.2
  let method ← Php.Method.of s!"sync{pascal}Taxonomies"
  .ok
    { method with
      visibility := .isPrivate
      params := syncParams
      body := groups.flatten ++ [.returning (.bool true)] }

end RestPlugin.Snippet
