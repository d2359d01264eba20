import RestPlugin.Proofs.Config.Warnings
import RestPlugin.Proofs.Ir.Declarations
import RestPlugin.Proofs.Plugin.Capabilities

/-!
# Unguarded write routes

A route whose capability is blank is resolved to one without a capability, and so is left open.
Validating a configuration only warns about routes that declare no capability at all.
-/

namespace RestPlugin.Plugin

open Ir Pipeline

/-! ## Declared routes -/

theorem claimOf_eq_of_trim {first second : Config.Route} (method : first.method = second.method)
    (path : Text.trim first.path = Text.trim second.path) : claimOf first = claimOf second := by
  rw [claimOf, claimOf, method, normalisePath, normalisePath, path]

/-- Two declared routes with one claim are one route. -/
theorem eq_of_claimOf_eq {resources : List (String × Config.Resource)}
    (nodup : (claimsOf resources).Nodup) {first second : String × Config.Resource}
    (firstMem : first ∈ resources) (secondMem : second ∈ resources)
    {route route' : Operation × Config.Route} (routeMem : route ∈ first.2.routes.toList)
    (routeMem' : route' ∈ second.2.routes.toList) (same : claimOf route.2 = claimOf route'.2) :
    route = route' := by
  have flat : claimsOf resources =
      (resources.flatMap fun entry => entry.2.routes.toList).map fun route => claimOf route.2 := by
    rw [claimsOf, List.map_flatMap]
  rw [flat] at nodup
  exact List.inj_on_of_nodup_map nodup (List.mem_flatMap.mpr ⟨first, firstMem, routeMem⟩)
    (List.mem_flatMap.mpr ⟨second, secondMem, routeMem'⟩) same

/-- A route that is declared is resolved to the one route with its method and path. -/
theorem exists_route_of_declared {loaded : Config.Loaded} (parts : Core.Parts loaded)
    {entry : String × Config.Resource} (entryMem : entry ∈ loaded.config.resources)
    {declared : Operation × Config.Route} (declaredMem : declared ∈ entry.2.routes.toList) :
    ∃ resource ∈ parts.ir.resources, resource.name = entry.2.name ∧
      ∃ route ∈ resource.routes, route.BuiltFrom declared.2 ∧
        ∀ other ∈ parts.ir.resources, ∀ route' ∈ other.routes,
          route'.method = route.method → route'.path = route.path → route' = route := by
  obtain ⟨resource, resourceMem, _, _, resolved⟩ := parts.exists_resource entry entryMem
  exact ⟨resource, resourceMem, (buildResource_fields resolved).1,
    parts.exists_route resourceMem resolved declaredMem⟩

/-- A capability is dropped exactly if it is blank. -/
theorem bind_nonBlank_eq_none_iff {key : String} :
    (some key).bind nonBlank = none ↔ Text.trim key = "" := by
  rw [Option.bind_some, nonBlank]
  simp

/-! ## Warnings -/

/-- The warning about a declared route is raised if it declares no capability, and for no other
reason. -/
theorem missingCapability_mem_iff {loaded : Config.Loaded} {warnings : List Config.Warning}
    (accepted : Config.check loaded.config = .ok warnings)
    (nodup : (claimsOf loaded.config.resources).Nodup) {entry : String × Config.Resource}
    (entryMem : entry ∈ loaded.config.resources) {declared : Operation × Config.Route}
    (declaredMem : declared ∈ entry.2.routes.toList)
    (writes : Config.Writes declared.1 declared.2) :
    Config.missingCapability (Text.trim entry.2.name) declared.2 ∈ warnings ↔
      declared.2.capability = none := by
  rw [Config.mem_check_iff accepted rfl]
  constructor
  · rintro ⟨other, otherMem, route, routeMem, -, unguarded, same⟩
    obtain ⟨-, method, path⟩ := Config.missingCapability_inj same
    rw [eq_of_claimOf_eq nodup entryMem otherMem declaredMem routeMem
      (claimOf_eq_of_trim method path)]
    exact unguarded
  · exact fun unguarded => ⟨entry, entryMem, declared, declaredMem, writes, unguarded, rfl⟩

/-- A route that writes is reported if it declares no capability.  It is left open also if it
declares a blank one, but is not reported then. -/
theorem write_reported_iff_undeclared {source : String} {loaded : Config.Loaded}
    {warnings : List Config.Warning}
    (accepted : Config.validate source loaded.config = .ok warnings) {ir : Ir}
    (built : Ir.build loaded = .ok ir) :
    ∀ entry ∈ loaded.config.resources, ∀ declared ∈ entry.2.routes.toList,
      Config.Writes declared.1 declared.2 →
      ∃ resource ∈ ir.resources, resource.name = entry.2.name ∧ ∃ route ∈ resource.routes,
        (route.method = declared.2.method ∧ normalisePath declared.2.path = .ok route.path) ∧
        (∀ other ∈ ir.resources, ∀ route' ∈ other.routes,
          route'.method = route.method → route'.path = route.path → route' = route) ∧
        (declared.2.capability = none → route.capability = none ∧
          Config.missingCapability (Text.trim entry.2.name) declared.2 ∈ warnings) ∧
        ∀ key, declared.2.capability = some key →
          (route.capability = none ↔ Text.trim key = "") ∧
          Config.missingCapability (Text.trim entry.2.name) declared.2 ∉ warnings := by
  intro entry entryMem declared declaredMem writes
  obtain ⟨parts, rfl⟩ := Core.exists_parts_of_build built
  obtain ⟨resource, resourceMem, nameEq, route, routeMem, builtFrom, unique⟩ :=
    exists_route_of_declared parts entryMem declaredMem
  have reported := missingCapability_mem_iff (mapError_eq_ok_iff.mp accepted)
    (claims_of_buildResources parts.resources_eq).1 entryMem declaredMem writes
  refine ⟨resource, resourceMem, nameEq, route, routeMem, ⟨builtFrom.method, builtFrom.path⟩,
    unique, fun undeclared => ⟨?_, reported.mpr undeclared⟩, fun key isDeclared => ⟨?_, ?_⟩⟩
  · rw [builtFrom.capability, undeclared, Option.bind_none]
  · rw [builtFrom.capability, isDeclared, bind_nonBlank_eq_none_iff]
  · rw [reported, isDeclared]
    exact Option.some_ne_none key

theorem write_reported_iff_undeclared_profile :
    Config.validate "" (acme (profile "profile.edit")).config = .ok [] ∧
    ∃ ir, Ir.build (acme (profile "profile.edit")) = .ok ir ∧
      ∃ resource ∈ ir.resources, ∃ route ∈ resource.routes,
        route.method = .put ∧ route.capability ≠ none := by
  obtain ⟨parts, -⟩ := exists_sources_profile
  have accepted : Config.validate "" (acme (profile "profile.edit")).config = .ok [] :=
    mapError_eq_ok_iff.mpr check_profile
  obtain ⟨resource, resourceMem, -, route, routeMem, ⟨method, -⟩, -, -, guarded⟩ :=
    write_reported_iff_undeclared accepted parts.build_eq _ List.mem_cons_self
      (.update, ⟨"/acme/v1/profile", .put, some "profile.edit"⟩) (by decide) (.inl rfl)
  have notBlank : Text.trim "profile.edit" ≠ "" := by decide
  exact ⟨accepted, parts.ir, parts.build_eq, resource, resourceMem, route, routeMem, method,
    (guarded "profile.edit" rfl).1.not.mpr notBlank⟩

/-- Editing the profile asks for a blank capability.  The configuration is accepted without a
warning, but the route that edits it is open. -/
theorem blank_write_unreported :
    (∀ source, Config.validate source (acme (profile " ")).config = .ok []) ∧
    ∃ ir, Ir.build (acme (profile " ")) = .ok ir ∧
      ∃ resource ∈ ir.resources, ∃ route ∈ resource.routes,
        route.method = .put ∧ route.path = "/acme/v1/profile" ∧ route.capability = none := by
  have accepted : Config.check (acme (profile " ")).config = .ok [] :=
    eq_ok_of_toOption (by decide +kernel)
  obtain ⟨parts, -⟩ := exists_parts_acme (profile " ") (List.pairwise_singleton _ _)
    (exists_eq_ok (by decide +kernel)) (exists_eq_ok (by decide +kernel))
  have declared : (.update, ⟨"/acme/v1/profile", .put, some " "⟩) ∈
      (profile " ").head!.2.routes.toList := by
    decide
  obtain ⟨resource, resourceMem, -, route, routeMem, builtFrom, -⟩ :=
    exists_route_of_declared parts List.mem_cons_self declared
  have path := builtFrom.path
  rw [normalisePath_profile, Except.ok.injEq] at path
  refine ⟨fun source => mapError_eq_ok_iff.mpr accepted, parts.ir, parts.build_eq, resource,
    resourceMem, route, routeMem, builtFrom.method, path.symm, ?_⟩
  rw [builtFrom.capability, bind_nonBlank_eq_none_iff]
  decide

end RestPlugin.Plugin
