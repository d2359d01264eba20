import RestPlugin.Proofs.Ir.Names
import RestPlugin.Proofs.Ir.Paths
import RestPlugin.Proofs.Pipeline.Core

/-!
# What declarations come to

Every resource of a representation is resolved from a declaration and every declaration is resolved
to a resource, with the declared routes.  A declared identity is kept, and its parameter is still a
placeholder of the routes that have to hold it.
-/

namespace RestPlugin

open Ir

namespace Pipeline.Core.Parts

variable {loaded : Config.Loaded} (parts : Core.Parts loaded)

/-! ## Resources -/

/-- Every resource is resolved from a declaration. -/
theorem exists_declaration : ∀ resource ∈ parts.ir.resources,
    ∃ entry ∈ loaded.config.resources, ∃ before after,
      buildResource parts.info.slug before entry.1 entry.2 = .ok (resource, after) := by
  intro resource member
  exact exists_origin_of_buildResources parts.resources_eq resource (List.mem_mergeSort.mp member)

/-- Every declaration is resolved to a resource. -/
theorem exists_resource : ∀ entry ∈ loaded.config.resources,
    ∃ resource ∈ parts.ir.resources, ∃ before after,
      buildResource parts.info.slug before entry.1 entry.2 = .ok (resource, after) := by
  intro entry member
  obtain ⟨resource, resourceMem, resolved⟩ :=
    exists_resolved_of_buildResources parts.resources_eq entry member
  exact ⟨resource, List.mem_mergeSort.mpr resourceMem, resolved⟩

/-- The resources of a representation have the names that are configured, up to their order. -/
theorem map_name_resources :
    (parts.ir.resources.map Resource.name).Perm (loaded.config.resources.map (·.2.name)) :=
  ((List.mergeSort_perm _ _).map _).trans (map_name_of_buildResources parts.resources_eq)

/-- Resources of an accepted configuration differ in their names. -/
theorem eq_of_name_eq {warnings : List Config.Warning}
    (accepted : Config.check loaded.config = .ok warnings) {first second : Resource}
    (firstMem : first ∈ parts.ir.resources) (secondMem : second ∈ parts.ir.resources)
    (same : first.name = second.name) : first = second := by
  have nodup := Config.nodup_names_of_check accepted
  rw [← parts.map_name_resources.nodup_iff] at nodup
  exact List.inj_on_of_nodup_map nodup firstMem secondMem same

/-! ## Routes -/

/-- The routes claim what the declared ones do, each method and path once. -/
theorem claims : (claimsOf loaded.config.resources).Nodup ∧
    ((parts.ir.resources.flatMap Resource.routes).map Route.claim).Perm
      (claimsOf loaded.config.resources) := by
  obtain ⟨nodup, perm⟩ := claims_of_buildResources parts.resources_eq
  rw [List.map_flatMap]
  exact ⟨nodup, ((List.mergeSort_perm _ _).flatMap_right _).trans perm⟩

/-- A route that is declared is resolved to the one route with its method and path. -/
theorem exists_route {entry : String × Config.Resource} {resource : Resource} {slug : String}
    {before after : Claims} (member : resource ∈ parts.ir.resources)
    (resolved : buildResource slug before entry.1 entry.2 = .ok (resource, after))
    {declared : Operation × Config.Route} (declaredMem : declared ∈ entry.2.routes.toList) :
    ∃ route ∈ resource.routes, route.BuiltFrom declared.2 ∧
      ∀ other ∈ parts.ir.resources, ∀ route' ∈ other.routes,
        route'.method = route.method → route'.path = route.path → route' = route := by
  obtain ⟨⟨routes, perm, builtFrom⟩, -⟩ := builtFrom_of_buildResource resolved
  obtain ⟨route, routeMem, routeFrom⟩ := exists_left_of_forall₂ builtFrom _ declaredMem
  have inResource := perm.mem_iff.mp routeMem
  refine ⟨route, inResource, routeFrom, fun other otherMem route' routeMem' method path => ?_⟩
  obtain ⟨nodup, claimed⟩ := parts.claims
  refine List.inj_on_of_nodup_map (claimed.nodup_iff.mpr nodup)
    (List.mem_flatMap.mpr ⟨other, otherMem, routeMem'⟩)
    (List.mem_flatMap.mpr ⟨resource, member, inResource⟩) ?_
  rw [Route.claim, Route.claim, method, path]

end Pipeline.Core.Parts

namespace Ir

open Pipeline

/-! ## Declared identities -/

/-- A declared identity is taken over, whatever the storage. -/
theorem resourceIdentity_of_declared {resource : Config.Resource} {identity : Config.Identity}
    (declared : resource.identity = some identity) (routes : List Route) :
    (resourceIdentity resource routes).identity = some ⟨identity.kind, identity.param⟩ := by
  rw [resourceIdentity, declared]
  split
  · contradiction
  · rfl

/-- A route uses the parameters that are placeholders of its declaration. -/
theorem usesParam_of_builtFrom {route : Route} {declared : Config.Route}
    (builtFrom : route.BuiltFrom declared) {param : String}
    (used : param ∈ placeholders declared.path) : route.usesParam param = true := by
  rw [Route.usesParam, Route.params, placeholders_of_normalisePath builtFrom.path,
    List.contains_iff_mem]
  exact used

/-- Normalising a path keeps its placeholders.  So in the representation of a validated
configuration, a resource that declares an identity has the one it declares, some route of it uses
the parameter, and so does the route of every operation on a single item. -/
theorem declared_identity_kept :
    (∀ path normal, normalisePath path = .ok normal → placeholders normal = placeholders path) ∧
    ∀ (source : String) (loaded : Config.Loaded) (warnings : List Config.Warning) (ir : Ir),
      Config.validate source loaded.config = .ok warnings → build loaded = .ok ir →
      ∀ entry ∈ loaded.config.resources, ∀ identity, entry.2.identity = some identity →
        ∃ resource ∈ ir.resources, resource.name = entry.2.name ∧
          (∀ other ∈ ir.resources, other.name = entry.2.name → other = resource) ∧
          resource.identity = some ⟨identity.kind, identity.param⟩ ∧
          (∃ route ∈ resource.routes, route.usesParam identity.param = true) ∧
          ∀ declared ∈ entry.2.routes.toList, declared.1.isItemLevel = true →
            ∃ route ∈ resource.routes, route.BuiltFrom declared.2 ∧
              (∀ other ∈ ir.resources, ∀ route' ∈ other.routes,
                route'.method = route.method → route'.path = route.path → route' = route) ∧
              route.usesParam identity.param = true := by
  refine ⟨fun _ _ => placeholders_of_normalisePath, ?_⟩
  intro source loaded warnings ir validated built entry entryMem identity declaredEq
  have accepted := mapError_eq_ok_iff.mp validated
  have consistent := Config.consistent_of_check accepted entry entryMem
  obtain ⟨parts, rfl⟩ := Core.exists_parts_of_build built
  obtain ⟨resource, resourceMem, _, _, resolved⟩ := parts.exists_resource entry entryMem
  obtain ⟨nameEq, identityEq, -⟩ := buildResource_fields resolved
  refine ⟨resource, resourceMem, nameEq, ?_, ?_, ?_, ?_⟩
  · exact fun other otherMem same =>
      parts.eq_of_name_eq accepted otherMem resourceMem (same.trans nameEq.symm)
  · rw [identityEq, resourceIdentity_of_declared declaredEq]
  · obtain ⟨declared, declaredMem, used⟩ := consistent.used identity declaredEq
    obtain ⟨route, routeMem, builtFrom, -⟩ := parts.exists_route resourceMem resolved declaredMem
    exact ⟨route, routeMem, usesParam_of_builtFrom builtFrom used⟩
  · intro declared declaredMem itemLevel
    obtain ⟨route, routeMem, builtFrom, unique⟩ :=
      parts.exists_route resourceMem resolved declaredMem
    exact ⟨route, routeMem, builtFrom, unique, usesParam_of_builtFrom builtFrom
      (consistent.items identity declaredEq declared declaredMem itemLevel)⟩

/-- A configuration whose one resource declares that the slug identifies an item. -/
def notes : Config.Loaded where
  config :=
    { version := some 1
      declaredNamespace := "acme"
      schemas := []
      resources :=
        [("note",
          { name := "note"
            routes :=
              { list := some ⟨"/acme/v1/notes", .get, none⟩
                get := some ⟨" acme//v1/notes/:slug.txt ", .get, none⟩ }
            identity := some ⟨.string, none⟩
            storage := some .transient
            schema := none
            cacheKeys := none
            queryParams := none
            capabilities := none })]
      capabilities := none }
  sourcePath := "wpk.config.toml"

/-- The path of a note is normalised, and still has the slug. -/
theorem declared_identity_kept_notes :
    placeholders "/acme/v1/notes/:slug.txt" = placeholders " acme//v1/notes/:slug.txt " ∧
    ∃ ir, Config.validate "" notes.config = .ok [] ∧ build notes = .ok ir ∧
      ∃ resource ∈ ir.resources, resource.identity = some ⟨.string, "slug"⟩ ∧
        ∃ route ∈ resource.routes, route.usesParam "slug" = true := by
  constructor
  · exact declared_identity_kept.1 _ _ (eq_ok_of_toOption (by decide +kernel))
  · have validated : Config.validate "" notes.config = .ok [] :=
      eq_ok_of_toOption (by decide +kernel)
    have sortedEq : notes.config.resources.mergeSort declarationLe = notes.config.resources :=
      List.mergeSort_singleton _
    have succeeds : (build notes).isOk = true := by
      rw [build]
      simp only [buildResources, sortedEq]
      decide +kernel
    obtain ⟨ir, built⟩ := exists_eq_ok succeeds
    obtain ⟨resource, resourceMem, -, -, identityEq, used, -⟩ :=
      declared_identity_kept.2 "" notes [] ir validated built _ List.mem_cons_self _ rfl
    exact ⟨ir, validated, built, resource, resourceMem, identityEq, used⟩

end Ir

end RestPlugin
