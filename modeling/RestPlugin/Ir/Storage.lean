import RestPlugin.Config.Model
import RestPlugin.Ir.Basic
import RestPlugin.Ir.Error
import RestPlugin.Text.Naming

/-!
# Resolving storage

A post storage without a post type takes one from the namespace and the resource name, within the
20 characters that WordPress allows.  Resources that come to the same post type are reported.
-/

namespace RestPlugin.Ir

/-- The greatest length of a post type. -/
def maxPostTypeLength : Nat := 20

/-- The post type of a resource without slugs. -/
def defaultPostType : String := "wpk_resource"

/-- A storage with the warnings about it, and the post type if it was inferred. -/
structure StorageResolution where
  storage : Option Storage
  warnings : List Warning := []
  inferredPostType : Option String := none
deriving Repr, Inhabited

/-- The slugs of a namespace and a resource name, joined. -/
def joinedSlugs (resource slug : String) : String :=
  let parts := [Text.underscoreSlug slug, Text.underscoreSlug resource].filter (· != "")
  if parts.isEmpty then defaultPostType else Text.join "_" parts

/-- The post type of a resource, with a warning if it had to be cut. -/
def inferPostType (resource slug : String) : String × Option Warning :=
  let joined := joinedSlugs resource slug
  if joined.length ≤ maxPostTypeLength then (joined, none)
  else
    let cut := String.ofList (joined.toList.take maxPostTypeLength)
    (cut, some
      { code := "storage.wpPost.postType.truncated"
        message := s!"Derived post type \"{joined}\" for resource \"{resource}\" exceeds " ++
          s!"{maxPostTypeLength} characters; truncated to \"{cut}\"."
        context := some (.obj [("resource", .str resource), ("postType", .str cut)]) })

/-- A meta key with its defaults filled in. -/
def MetaField.ofConfig (field : Config.MetaField) : MetaField := ⟨field.type, field.isSingle⟩

/-- A taxonomy with its defaults filled in. -/
def Taxonomy.ofConfig (taxonomy : Config.Taxonomy) : Taxonomy :=
  ⟨taxonomy.taxonomy, taxonomy.hierarchical, taxonomy.register.getD false⟩

/-- A post storage with a given post type. -/
def PostStorage.ofConfig (postType : String) (storage : Config.PostStorage) : PostStorage where
  postType := postType
  statuses := storage.statuses
  supports := storage.supports
  metaFields := Keyed.sorted (Keyed.mapValues MetaField.ofConfig storage.metaFields)
  taxonomies := Keyed.sorted (Keyed.mapValues Taxonomy.ofConfig storage.taxonomies)

/-- Resolves the storage of a resource. -/
def resolveStorage (resource : String) (storage : Option Config.Storage) (slug : String) :
    StorageResolution :=
  match storage with
  | none => { storage := none }
  | some .transient => { storage := some .transient }
  | some (.option name) => { storage := some (.option (Text.trim name)) }
  | some (.taxonomy taxonomy hierarchical) =>
      { storage := some (.taxonomy (Text.trim taxonomy) hierarchical) }
  | some (.post post) =>
      match post.postType with
      | some postType => { storage := some (.post (.ofConfig postType post)) }
      | none =>
          let (postType, warning) := inferPostType resource slug
          { storage := some (.post (.ofConfig postType post))
            warnings := warning.toList
            inferredPostType := some postType }

/-- The post types seen so far, with the resources that came first. -/
abbrev PostTypeRegistry : Type := List (String × String)

/-- The warning about a post type that another resource uses. -/
def collisionWarning (label postType resource existing : String) : Warning :=
  { code := "storage.wpPost.postType.collision"
    message := s!"{label} \"{postType}\" for resource \"{resource}\" collides with " ++
      s!"resource \"{existing}\"."
    context := some (.obj [("resource", .str resource), ("postType", .str postType),
      ("existing", .str existing)]) }

/-- Notes the post type of a resource, and reports one that another resource came to before. -/
def PostTypeRegistry.record (registry : PostTypeRegistry) (resource : String)
    (resolution : StorageResolution) : Option Warning × PostTypeRegistry :=
  match resolution.storage with
  | some (.post post) =>
      match registry.lookup post.postType with
      | none => (none, registry ++ [(post.postType, resource)])
      | some existing =>
          if existing == resource then (none, registry)
          else
            let label :=
              if resolution.inferredPostType.isSome then "Inferred post type" else "Post type"
            (some (collisionWarning label post.postType resource existing), registry)
  | _ => (none, registry)

/-- Refuses identities that a storage cannot serve. -/
def checkStorageIdentity (resource : String) (storage : Option Config.Storage)
    (declared : Option Config.Identity) (identity : Option Identity) (routes : List Route) :
    Except Error Unit :=
  match storage with
  | some (.option _) =>
      if declared.isSome then .error (.developer resource .optionIdentity)
      else
        match routes.find? fun route => !route.params.isEmpty with
        | some route => .error (.developer resource (.optionItemRoute route.method route.path))
        | none => .ok ()
  | some (.taxonomy _ _) =>
      match identity with
      | some ⟨.number, param⟩ =>
          if param == "id" then .ok () else .error (.developer resource (.numericTermParam param))
      | some ⟨.string, param⟩ =>
          if param == "slug" then .ok () else .error (.developer resource (.textTermParam param))
      | none => .ok ()
  | _ => .ok ()

end RestPlugin.Ir
