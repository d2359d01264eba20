import RestPlugin.Config.Load
import RestPlugin.Ir.Basic
import RestPlugin.Ir.Error
import RestPlugin.Text.Naming

/-!
# Schemas

A declared schema document is taken as it is and hashed.  For a resource with the reference `auto`,
or with storage and no reference, a schema is made up from the meta keys of its post storage.
-/

namespace RestPlugin.Ir

/-- The dialect of schemas that are made up. -/
def schemaDialect : String := "https://json-schema.org/draft/2020-12/schema"

/-- The beginning of the ids of schemas that are made up. -/
def schemaBaseUrl : String := "https://schemas.wpkernel.dev"

/-- Schemas under their keys, ascending. -/
abbrev SchemaTable : Type := List (String × Schema)

/-- Adds a schema under its key. -/
def SchemaTable.add (table : SchemaTable) (schema : Schema) : SchemaTable :=
  Keyed.insert schema.key schema table

/-- The schemas in the order of their keys. -/
def SchemaTable.schemas (table : SchemaTable) : List Schema := table.map (·.2)

/-- The table of a list of schemas. -/
def SchemaTable.ofSchemas (schemas : List Schema) : SchemaTable :=
  schemas.foldl SchemaTable.add []

/-- A path with forward slashes. -/
def displayPath (path : String) : String := Text.replaceChar '\\' "/" path

/-- The schema of a declared document. -/
def Schema.declared (key path : String) (document : Json) : Schema where
  key := key
  sourcePath := displayPath path
  hash := document.contentHash
  document := document
  provenance := .manual
  generatedFrom := none

/-- Adds the declared schemas, each of which has to have its document. -/
def addDeclared (documents : List (String × Config.LoadedSchema)) :
    SchemaTable → List (String × Config.SchemaFile) → Except Error SchemaTable
  | table, [] => .ok table
  | table, (key, file) :: rest =>
      match Keyed.get? key documents with
      | none => .error (.schemaNotLoaded key file.path)
      | some loaded =>
          addDeclared documents (table.add (.declared key file.path loaded.document)) rest

/-- The declared schemas of a configuration. -/
def buildSchemas (loaded : Config.Loaded) : Except Error SchemaTable :=
  addDeclared loaded.schemas [] loaded.config.schemas

/-- The schema of a meta value. -/
def metaProperty (type : MetaType) : Json := .obj [("type", .str type.text)]

/-- The schema of a meta key. -/
def fieldProperty (field : Config.MetaField) : Json :=
  if field.isSingle then metaProperty field.type
  else .obj [("type", .str "array"), ("items", metaProperty field.type)]

/-- The properties of a schema that is made up: the meta keys of a post storage. -/
def schemaProperties : Option Config.Storage → List (String × Json)
  | some (.post post) => Keyed.sorted (Keyed.mapValues fieldProperty post.metaFields)
  | _ => []

/-- The schema made up for a resource. -/
def synthesize (resource : Config.Resource) (slug : String) : Json :=
  Json.sortKeys <| .obj
    [("$schema", .str schemaDialect),
     ("$id", .str (schemaBaseUrl ++ "/" ++ slug ++ "/" ++ resource.name ++ ".json")),
     ("title", .str (Text.titleCase resource.name ++ " Resource")),
     ("type", .str "object"),
     ("additionalProperties", .bool false),
     ("properties", .obj (schemaProperties resource.storage))]

/-- The key of the schema made up for a resource. -/
def autoKey (key : String) : String := "auto:" ++ key

/-- The schema entry made up for a resource. -/
def Schema.synthesized (key : String) (resource : Config.Resource) (slug : String) : Schema :=
  let document := synthesize resource slug
  { key := autoKey key
    sourcePath := s!"[storage:{key}]"
    hash := document.contentHash
    document
    provenance := .auto
    generatedFrom := some key }

/-- The schema a resource comes to. -/
structure SchemaAssignment where
  key : String
  provenance : Provenance
deriving DecidableEq, Repr, Inhabited

/-- The schema reference of a resource: the declared one, or `auto` if it has storage. -/
def schemaReference (resource : Config.Resource) : Option Config.SchemaRef :=
  match resource.schema, resource.storage with
  | some reference, _ => some reference
  | none, some _ => some .auto
  | none, none => none

/-- Resolves the schema of the resource under a configuration key. -/
def resolveSchema (table : SchemaTable) (key : String) (resource : Config.Resource)
    (slug : String) : Except Error (SchemaAssignment × SchemaTable) :=
  match schemaReference resource with
  | none => .error (.developer resource.name (.schemaMissing key))
  | some (.key schema) =>
      if Keyed.contains schema table then .ok (⟨schema, .manual⟩, table)
      else .error (.developer resource.name (.schemaUndeclared schema))
  | some .auto =>
      .ok (⟨autoKey key, .auto⟩, table.add (.synthesized key resource slug))

end RestPlugin.Ir
