import Mathlib.Data.List.Forall2
import RestPlugin.Config.Load
import RestPlugin.Proofs.Keyed

/-!
# Reordered configurations

What it means that two configurations differ only in the order of the entries of their maps.  A
resource is compared through its canonical form, in which every map has ascending keys: the
canonical forms of reordered resources agree.
-/

namespace RestPlugin.Config

/-! ## Orders of entries -/

/-- The same storage, with the meta keys and taxonomies of a post type in any order. -/
inductive Storage.Reordered : Storage → Storage → Prop
  | same (storage : Storage) : Reordered storage storage
  | post {first second : PostStorage} (postType : first.postType = second.postType)
      (statuses : first.statuses = second.statuses) (supports : first.supports = second.supports)
      (metaFields : first.metaFields.Perm second.metaFields)
      (taxonomies : first.taxonomies.Perm second.taxonomies) :
      Reordered (.post first) (.post second)

/-- The same resource, with the entries of its maps in any order. -/
structure Resource.Reordered (first second : Resource) : Prop where
  name : first.name = second.name
  routes : first.routes = second.routes
  identity : first.identity = second.identity
  storage : Option.Rel Storage.Reordered first.storage second.storage
  schema : first.schema = second.schema
  cacheKeys : first.cacheKeys = second.cacheKeys
  queryParams : Option.Rel List.Perm first.queryParams second.queryParams
  capabilities : Option.Rel List.Perm first.capabilities second.capabilities

/-- The same entry of the resources. -/
def EntryReordered (first second : String × Resource) : Prop :=
  first.1 = second.1 ∧ first.2.Reordered second.2

/-- The same configuration, with the entries of all maps and the loaded schema documents in any
order.  The warnings about the configuration follow its order and are left open. -/
structure Loaded.Reordered (first second : Loaded) : Prop where
  sourcePath : first.sourcePath = second.sourcePath
  version : first.config.version = second.config.version
  declaredNamespace : first.config.declaredNamespace = second.config.declaredNamespace
  schemas : first.config.schemas.Perm second.config.schemas
  resources : ∃ entries, first.config.resources.Perm entries ∧
    List.Forall₂ EntryReordered entries second.config.resources
  capabilities : Option.Rel List.Perm first.config.capabilities second.config.capabilities
  documents : first.schemas.Perm second.schemas

/-- In the maps of a storage no key occurs twice. -/
def Storage.DistinctKeys : Storage → Prop
  | .post settings => Keyed.Distinct settings.metaFields ∧ Keyed.Distinct settings.taxonomies
  | _ => True

/-- In the maps of a resource no key occurs twice. -/
structure Resource.DistinctKeys (resource : Resource) : Prop where
  storage : ∀ storage ∈ resource.storage, storage.DistinctKeys
  queryParams : ∀ params ∈ resource.queryParams, Keyed.Distinct params
  capabilities : ∀ capabilities ∈ resource.capabilities, Keyed.Distinct capabilities

/-- In the maps of a configuration no key occurs twice. -/
structure Loaded.DistinctKeys (loaded : Loaded) : Prop where
  schemas : Keyed.Distinct loaded.config.schemas
  resources : Keyed.Distinct loaded.config.resources
  resource : ∀ entry ∈ loaded.config.resources, entry.2.DistinctKeys
  capabilities : Keyed.Distinct (loaded.config.capabilities.getD [])
  documents : Keyed.Distinct loaded.schemas

/-! ## Canonical resources -/

/-- A storage with ascending keys. -/
def Storage.canonical : Storage → Storage
  | .post settings =>
      .post { settings with
        metaFields := Keyed.sorted settings.metaFields
        taxonomies := Keyed.sorted settings.taxonomies }
  | storage => storage

/-- A resource with ascending keys in the maps that are resolved with it. -/
def Resource.canonical (resource : Resource) : Resource :=
  { resource with
    storage := resource.storage.map Storage.canonical
    queryParams := resource.queryParams.map Keyed.sorted
    capabilities := resource.capabilities.map Keyed.sorted }

/-- Reordered storages with different keys have the same canonical form. -/
theorem Storage.Reordered.canonical_eq {first second : Storage} (reordered : first.Reordered second)
    (distinct : first.DistinctKeys) : first.canonical = second.canonical := by
  cases reordered with
  | same => rfl
  | @post first second postType statuses supports metaFields taxonomies =>
      simp only [canonical, postType, statuses, supports, distinct.1.sorted_eq_of_perm metaFields,
        distinct.2.sorted_eq_of_perm taxonomies]

theorem map_eq_of_rel {α β γ : Type} {relation : α → β → Prop} {first : Option α}
    {second : Option β} {f : α → γ} {g : β → γ} (related : Option.Rel relation first second)
    (same : ∀ value ∈ first, ∀ value', relation value value' → f value = g value') :
    first.map f = second.map g := by
  cases related with
  | none => rfl
  | some related => exact congrArg some (same _ rfl _ related)

/-- Reordered resources have the same canonical form. -/
theorem Resource.Reordered.canonical_eq {first second : Resource}
    (reordered : first.Reordered second) (distinct : first.DistinctKeys) :
    first.canonical = second.canonical := by
  have storageEq : first.storage.map Storage.canonical = second.storage.map Storage.canonical :=
    map_eq_of_rel reordered.storage
      fun storage member _ related => related.canonical_eq (distinct.storage storage member)
  have paramsEq : first.queryParams.map Keyed.sorted = second.queryParams.map Keyed.sorted :=
    map_eq_of_rel reordered.queryParams
      fun params member _ perm => (distinct.queryParams params member).sorted_eq_of_perm perm
  have capabilitiesEq :
      first.capabilities.map Keyed.sorted = second.capabilities.map Keyed.sorted :=
    map_eq_of_rel reordered.capabilities
      fun entries member _ perm => (distinct.capabilities entries member).sorted_eq_of_perm perm
  simp only [canonical, reordered.name, reordered.routes, reordered.identity, storageEq,
    reordered.schema, reordered.cacheKeys, paramsEq, capabilitiesEq]

end RestPlugin.Config
