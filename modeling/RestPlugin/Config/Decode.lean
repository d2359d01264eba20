import RestPlugin.Config.Model
import RestPlugin.Number.Range
import RestPlugin.Source.Decode

/-!
# Decoding configurations

The decoders of the configuration model.  Most records refuse unknown fields; an identity, a storage
and a detailed capability pass over them.  Fields that are absent take their defaults.
-/

namespace RestPlugin.Config

open Source Source.Decode Number

/-- The words of a closed set under their spellings. -/
def spellings {α : Type} (text : α → String) (all : List α) : List (String × α) :=
  all.map fun value => (text value, value)

/-- A request method. -/
def decodeMethod : Decoder Method := word (spellings Method.text Method.all)

/-- A capability target. -/
def decodeAppliesTo : Decoder AppliesTo := word (spellings AppliesTo.text AppliesTo.all)

/-- A schema file. -/
def decodeSchemaFile : Decoder SchemaFile := fun access start node => do
  let (path, description) ← record ["path", "description"] true set (none, none) access start node
  let path ← required path
  .ok { path, description }
where
  /-- Sets a field of a schema file. -/
  set : Setter (Option String × Option String) := fun name draft access start node =>
    if name == "path" then (text access start node).map (some ·, draft.2)
    else (optional text access start node).map (draft.1, ·)

/-- The fields of a detailed capability read so far. -/
structure CapabilityDraft where
  capability : Option String := none
  appliesTo : AppliesTo := .resource
  binding : Option String := none

/-- A capability: a text, or a table.  The tree is checked for flaws first. -/
def decodeCapability : Decoder Capability := fun _ start node => do
  node.force
  match node with
  | .scalar (.str value) => .ok (.simple value)
  | .table _ _ _ =>
      let draft ← record ["capability", "appliesTo", "binding"] false set {} .lent start node
      let capability ← required draft.capability
      .ok (.detailed capability draft.appliesTo draft.binding)
  | _ => .error .unfit
where
  /-- Sets a field of a detailed capability. -/
  set : Setter CapabilityDraft := fun name draft access start node =>
    if name == "capability" then
      (text access start node).map fun value => { draft with capability := some value }
    else if name == "appliesTo" then
      (decodeAppliesTo access start node).map fun value => { draft with appliesTo := value }
    else (optional text access start node).map fun value => { draft with binding := value }

/-- The fields of a route read so far. -/
structure RouteDraft where
  path : Option String := none
  method : Option Method := none
  capability : Option String := none

/-- A route. -/
def decodeRoute : Decoder Route := fun access start node => do
  let draft ← record ["path", "method", "capability"] true set {} access start node
  let path ← required draft.path
  let method ← required draft.method
  .ok { path, method, capability := draft.capability }
where
  /-- Sets a field of a route. -/
  set : Setter RouteDraft := fun name draft access start node =>
    if name == "path" then
      (text access start node).map fun value => { draft with path := some value }
    else if name == "method" then
      (decodeMethod access start node).map fun value => { draft with method := some value }
    else (optional text access start node).map fun value => { draft with capability := value }

/-- At most one value for each operation, under the names of the operations. -/
def decodePerOperation {α : Type} (decode : Decoder α) : Decoder (PerOperation α) :=
  record (Operation.all.map Operation.text) true set {}
where
  /-- Sets the value of an operation. -/
  set : Setter (PerOperation α) := fun name values access start node =>
    match Keyed.get? name (spellings Operation.text Operation.all) with
    | none => .ok values
    | some operation =>
        (optional decode access start node).map fun value => values.set operation value

/-- An identity, tagged by its kind. -/
def decodeIdentity : Decoder Identity := fun access start node => do
  let (kind, content) ←
    tagged "type" (spellings IdentityKind.text IdentityKind.all) access start node
  let declared ← record ["param"] false set none .held start content
  .ok { kind, declared }
where
  /-- Sets the request parameter. -/
  set : Setter (Option String) := fun _ _ => optional text

/-- The fields of a meta key read so far. -/
structure MetaFieldDraft where
  type : Option MetaType := none
  single : Option Bool := none

/-- A meta key of a post type. -/
def decodeMetaField : Decoder MetaField := fun access start node => do
  let draft ← record ["type", "single"] true set {} access start node
  let type ← required draft.type
  .ok { type, single := draft.single }
where
  /-- Sets a field of a meta key. -/
  set : Setter MetaFieldDraft := fun name draft access start node =>
    if name == "type" then
      (word (spellings MetaType.text MetaType.all) access start node).map fun value =>
        { draft with type := some value }
    else (optional flag access start node).map fun value => { draft with single := value }

/-- The fields of a taxonomy read so far. -/
structure TaxonomyDraft where
  taxonomy : Option String := none
  hierarchical : Bool := false
  register : Option Bool := none

/-- A taxonomy of a post type. -/
def decodeTaxonomy : Decoder Taxonomy := fun access start node => do
  let draft ← record ["taxonomy", "hierarchical", "register"] true set {} access start node
  let taxonomy ← required draft.taxonomy
  .ok { taxonomy, hierarchical := draft.hierarchical, register := draft.register }
where
  /-- Sets a field of a taxonomy. -/
  set : Setter TaxonomyDraft := fun name draft access start node =>
    if name == "taxonomy" then
      (text access start node).map fun value => { draft with taxonomy := some value }
    else if name == "hierarchical" then
      (flag access start node).map fun value => { draft with hierarchical := value }
    else (optional flag access start node).map fun value => { draft with register := value }

/-- A post storage without its tag. -/
def decodePostStorage : Decoder PostStorage :=
  record ["postType", "statuses", "supports", "meta", "taxonomies"] false set
    { postType := none, statuses := [], supports := [], metaFields := [], taxonomies := [] }
where
  /-- Sets a field of a post storage. -/
  set : Setter PostStorage := fun name storage access start node =>
    if name == "postType" then
      (optional text access start node).map fun value => { storage with postType := value }
    else if name == "statuses" then
      (list text access start node).map fun value => { storage with statuses := value }
    else if name == "supports" then
      (list (word (spellings Support.text Support.all)) access start node).map fun value =>
        { storage with supports := value }
    else if name == "meta" then
      (keyed decodeMetaField access start node).map fun value =>
        { storage with metaFields := value }
    else
      (keyed decodeTaxonomy access start node).map fun value =>
        { storage with taxonomies := value }

/-- The modes of a storage. -/
inductive Mode where
  | transient
  | option
  | taxonomy
  | post
deriving DecidableEq, Repr

/-- The spellings of the modes. -/
def modes : List (String × Mode) :=
  [("transient", .transient), ("wp-option", .option), ("wp-taxonomy", .taxonomy),
   ("wp-post", .post)]

/-- A storage without its tag. -/
def decodeStorageContent (mode : Mode) : Decoder Storage := fun access start node =>
  match mode with
  | .transient =>
      match node with
      | .list (_ :: _) _ => .error .unfit
      | _ => .ok .transient
  | .option => do
      let name ← record ["option"] false setOption none access start node
      .ok (.option (← required name))
  | .taxonomy => do
      let (taxonomy, hierarchical) ←
        record ["taxonomy", "hierarchical"] false setTaxonomy (none, false) access start node
      .ok (.taxonomy (← required taxonomy) hierarchical)
  | .post => (decodePostStorage access start node).map .post
where
  /-- Sets the option name. -/
  setOption : Setter (Option String) := fun _ _ access start node =>
    (text access start node).map some
  /-- Sets a field of a taxonomy storage. -/
  setTaxonomy : Setter (Option String × Bool) := fun name draft access start node =>
    if name == "taxonomy" then (text access start node).map (some ·, draft.2)
    else (flag access start node).map (draft.1, ·)

/-- A storage, tagged by its mode. -/
def decodeStorage : Decoder Storage := fun access start node => do
  let (mode, content) ← tagged "mode" modes access start node
  decodeStorageContent mode .held start content

/-- A segment of a cache key.  An integer that does not fit into 64 signed bits is a float. -/
def decodeSegment : Decoder Segment
  | _, _, .scalar (.bool value) => .ok (.bool value)
  | _, _, .scalar (.int value) =>
      if leastSigned ≤ value && value ≤ greatestSigned then .ok (.int value)
      else .ok (.float (.ofInt value))
  | _, _, .scalar (.float value) => .ok (.float value)
  | _, _, .scalar (.str value) => .ok (.text value)
  | _, _, node => do
      node.force
      .error .unfit

/-- The fields of a query parameter read so far. -/
structure QueryParamDraft where
  type : Option QueryType := none
  optional : Bool := false
  values : Option (List String) := none
  description : Option String := none

/-- A query parameter. -/
def decodeQueryParam : Decoder QueryParam := fun access start node => do
  let draft ← record ["type", "optional", "enum", "description"] true set {} access start node
  let type ← required draft.type
  .ok { type, optional := draft.optional, values := draft.values, description := draft.description }
where
  /-- Sets a field of a query parameter. -/
  set : Setter QueryParamDraft := fun name draft access start node =>
    if name == "type" then
      (word (spellings QueryType.text QueryType.all) access start node).map fun value =>
        { draft with type := some value }
    else if name == "optional" then
      (flag access start node).map fun value => { draft with optional := value }
    else if name == "enum" then
      (Decode.optional (list text) access start node).map fun value =>
        { draft with values := value }
    else
      (Decode.optional text access start node).map fun value => { draft with description := value }

/-- The fields of a resource read so far. -/
structure ResourceDraft where
  name : Option String := none
  rest : Resource :=
    { name := "", routes := {}, identity := none, storage := none, schema := none,
      cacheKeys := none, queryParams := none, capabilities := none }

/-- A resource. -/
def decodeResource : Decoder Resource := fun access start node => do
  let names := ["name", "routes", "identity", "storage", "schema", "cacheKeys", "queryParams",
    "capabilities"]
  let draft ← record names true set {} access start node
  let name ← required draft.name
  .ok { draft.rest with name }
where
  /-- Sets a field of a resource. -/
  set : Setter ResourceDraft := fun name draft access start node =>
    let rest := draft.rest
    let update (rest : Resource) : ResourceDraft := { draft with rest }
    if name == "name" then
      (text access start node).map fun value => { draft with name := some value }
    else if name == "routes" then
      (decodePerOperation decodeRoute access start node).map fun value =>
        update { rest with routes := value }
    else if name == "identity" then
      (Decode.optional decodeIdentity access start node).map fun value =>
        update { rest with identity := value }
    else if name == "storage" then
      (Decode.optional decodeStorage access start node).map fun value =>
        update { rest with storage := value }
    else if name == "schema" then
      (Decode.optional text access start node).map fun value =>
        update { rest with schema := value.map SchemaRef.ofText }
    else if name == "cacheKeys" then
      (Decode.optional (decodePerOperation (list decodeSegment)) access start node).map fun value =>
        update { rest with cacheKeys := value }
    else if name == "queryParams" then
      (Decode.optional (keyed decodeQueryParam) access start node).map fun value =>
        update { rest with queryParams := value }
    else
      (Decode.optional (keyed decodeCapability) access start node).map fun value =>
        update { rest with capabilities := value }

/-- The fields of a configuration read so far. -/
structure Draft where
  declaredNamespace : Option String := none
  rest : Config :=
    { version := none, declaredNamespace := "", schemas := [], resources := [],
      capabilities := none }

/-- A configuration. -/
def decode : Decoder Config := fun access start node => do
  let names := ["version", "namespace", "schemas", "resources", "capabilities"]
  let draft ← record names true set {} access start node
  let declaredNamespace ← required draft.declaredNamespace
  .ok { draft.rest with declaredNamespace }
where
  /-- Sets a field of a configuration. -/
  set : Setter Draft := fun name draft access start node =>
    let rest := draft.rest
    let update (rest : Config) : Draft := { draft with rest }
    if name == "version" then
      (Decode.optional (natBelow 4294967296) access start node).map fun value =>
        update { rest with version := value }
    else if name == "namespace" then
      (text access start node).map fun value => { draft with declaredNamespace := some value }
    else if name == "schemas" then
      (keyed decodeSchemaFile access start node).map fun value =>
        update { rest with schemas := value }
    else if name == "resources" then
      (keyed decodeResource access start node).map fun value =>
        update { rest with resources := value }
    else
      (Decode.optional (keyed decodeCapability) access start node).map fun value =>
        update { rest with capabilities := value }

end RestPlugin.Config
