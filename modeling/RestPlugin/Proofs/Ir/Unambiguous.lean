import RestPlugin.Proofs.Ir.Declarations
import RestPlugin.Proofs.Ir.Encode
import RestPlugin.Proofs.Lists

/-!
# Unambiguous routes

The routes of a representation are the declared ones with normalised paths.  Over all resources no
method and path occur twice, however the paths were spelled, and a configuration in which two routes
come to one method and path has no representation.
-/

namespace RestPlugin.Ir

open Pipeline

/-! ## The order of the routes of a resource -/

/-- What a route is sorted by: the text of its method, then its path. -/
def Route.sortKey (route : Route) : String ×ₗ String := toLex (route.method.text, route.path)

theorem Route.compares : Compares Route.le Route.sortKey := fun first second => by
  rw [sortKey, sortKey, Prod.Lex.toLex_le_toLex, Route.le, Bool.or_eq_true, decide_eq_true_iff,
    Bool.and_eq_true, beq_iff_eq, Bool.not_eq_true', decide_eq_false_iff_not, not_lt,
    Method.text_injective.eq_iff]

/-- One route stands strictly before another: by the text of the method, then by path. -/
def Route.Before (first second : Route) : Prop :=
  first.method.text < second.method.text ∨
    first.method = second.method ∧ first.path < second.path

theorem Route.before_of_le {first second : Route} (le : first.sortKey ≤ second.sortKey)
    (differ : first.claim ≠ second.claim) : first.Before second := by
  rw [sortKey, sortKey, Prod.Lex.toLex_le_toLex, Method.text_injective.eq_iff] at le
  refine le.imp_right fun same => ⟨same.1, lt_of_le_of_ne same.2 fun pathEq => differ ?_⟩
  rw [Route.claim, Route.claim, same.1, pathEq]

/-- The routes of a built resource are sorted. -/
theorem pairwise_le_of_buildResource {slug key : String} {claims after : Claims}
    {resource : Config.Resource} {built : Resource}
    (resolved : buildResource slug claims key resource = .ok (built, after)) :
    built.routes.Pairwise fun first second => first.sortKey ≤ second.sortKey := by
  rw [buildResource] at resolved
  simp only [bind_eq_ok_iff] at resolved
  obtain ⟨routes, routesEq, _, -, _, -, resolved⟩ := resolved
  cases resolved
  obtain ⟨claimed, -, rfl⟩ := map_eq_ok_iff.mp routesEq
  exact Route.compares.pairwise_mergeSort claimed

/-! ## The routes of a configuration -/

/-- The routes that the resources of a configuration declare. -/
def declaredRoutes (config : Config) : List Config.Route :=
  config.resources.flatMap fun entry => entry.2.routes.toList.map (·.2)

theorem claimsOf_eq_map (config : Config) :
    claimsOf config.resources = (declaredRoutes config).map claimOf := by
  rw [claimsOf, declaredRoutes, List.map_flatMap]
  simp only [List.map_map]
  rfl

/-- Two declared routes, of one resource or of two, come to the same method and path. -/
def Colliding (config : Config) : Prop :=
  ∃ first second path, List.Sublist [first, second] (declaredRoutes config) ∧
    first.method = second.method ∧
      normalisePath first.path = .ok path ∧ normalisePath second.path = .ok path

/-- Routes that collide claim one method and path twice. -/
theorem not_nodup_of_colliding {config : Config} (colliding : Colliding config) :
    ¬((declaredRoutes config).map claimOf).Nodup := by
  obtain ⟨first, second, path, declared, methodEq, firstEq, secondEq⟩ := colliding
  have same : claimOf first = claimOf second := by
    rw [claimOf, claimOf, methodEq, firstEq, secondEq]
  rw [List.nodup_iff_sublist]
  intro distinct
  refine distinct (claimOf first) ?_
  have claimed := declared.map claimOf
  rwa [List.map_cons, List.map_cons, List.map_nil, ← same] at claimed

section Parts

variable {loaded : Config.Loaded} (parts : Core.Parts loaded)

/-- The routes of a representation claim what the declared ones do, each method and path once. -/
theorem map_claim_routes : ((declaredRoutes loaded.config).map claimOf).Nodup ∧
    ((parts.ir.resources.flatMap Resource.routes).map Route.claim).Perm
      ((declaredRoutes loaded.config).map claimOf) := by
  rw [← claimsOf_eq_map]
  exact parts.claims

/-- A route has the method of a declared one, and its path, normalised. -/
theorem exists_declaredRoute_of_parts {route : Route}
    (member : route ∈ parts.ir.resources.flatMap Resource.routes) :
    ∃ declared ∈ declaredRoutes loaded.config,
      declared.method = route.method ∧ normalisePath declared.path = .ok route.path := by
  have claimed := (map_claim_routes parts).2.mem_iff.mp (List.mem_map_of_mem member)
  obtain ⟨declared, declaredMem, same⟩ := List.mem_map.mp claimed
  exact ⟨declared, declaredMem, Prod.mk.inj same⟩

/-- The routes of a resource stand in strict order. -/
theorem pairwise_before_of_parts {resource : Resource} (member : resource ∈ parts.ir.resources) :
    resource.routes.Pairwise Route.Before := by
  obtain ⟨entry, -, before, after, resolved⟩ := parts.exists_declaration resource member
  have distinct : (resource.routes.map Route.claim).Nodup := by
    obtain ⟨nodup, perm⟩ := map_claim_routes parts
    rw [← perm.nodup_iff, List.map_flatMap, List.nodup_flatMap] at nodup
    exact nodup.1 resource member
  exact (pairwise_le_of_buildResource resolved).imp₂ (fun _ _ => Route.before_of_le)
    (List.pairwise_map.mp distinct)

end Parts

/-- Whatever configuration is built, the routes of its representation are the declared ones with
normal paths, no method and path occur twice over all resources, and those of a resource are in
strict order of method and path.  A configuration in which two routes come to one method and path is
not built. -/
theorem routes_unambiguous (loaded : Config.Loaded) :
    (∀ ir, build loaded = .ok ir →
      ((ir.resources.flatMap Resource.routes).map fun route => (route.method, route.path)).Nodup ∧
        ((ir.resources.flatMap Resource.routes).map Route.claim).Perm
          ((declaredRoutes loaded.config).map claimOf) ∧
        ∀ resource ∈ ir.resources, resource.routes.Pairwise Route.Before ∧
          ∀ route ∈ resource.routes, IsNormal route.path) ∧
    (Colliding loaded.config → ∃ error, build loaded = .error error) := by
  constructor
  · intro ir built
    obtain ⟨parts, rfl⟩ := Core.exists_parts_of_build built
    obtain ⟨nodup, perm⟩ := map_claim_routes parts
    refine ⟨?_, perm, fun resource member => ⟨pairwise_before_of_parts parts member, ?_⟩⟩
    · let claim (taken : Method × String) : Method × Except PathFault String :=
        (taken.1, .ok taken.2)
      refine List.Nodup.of_map claim ?_
      rw [List.map_map]
      exact perm.nodup_iff.mpr nodup
    · intro route routeMem
      obtain ⟨declared, -, -, normalised⟩ :=
        exists_declaredRoute_of_parts parts (List.mem_flatMap.mpr ⟨resource, member, routeMem⟩)
      exact isNormal_of_normalisePath normalised
  · intro colliding
    cases built : build loaded with
    | error error => exact ⟨error, rfl⟩
    | ok ir =>
        obtain ⟨parts, -⟩ := Core.exists_parts_of_build built
        exact absurd (map_claim_routes parts).1 (not_nodup_of_colliding colliding)

/-- A resource with one listing. -/
def listed (name path : String) : Config.Resource where
  name := name
  routes := { list := some ⟨path, .get, none⟩ }
  identity := none
  storage := none
  schema := some .auto
  cacheKeys := none
  queryParams := none
  capabilities := none

/-- A configuration of two listings. -/
def twoListings (first second : String) : Config.Loaded where
  config :=
    { version := some 1
      declaredNamespace := "acme"
      schemas := []
      resources := [("job", listed "job" first), ("task", listed "task" second)]
      capabilities := none }
  sourcePath := "wpk.config.toml"

/-- Two spellings of one path collide, two paths that differ in case do not. -/
theorem routes_unambiguous_twoListings :
    (∃ error, build (twoListings "/acme/v1/jobs" " acme//v1/jobs/") = .error error) ∧
    ∃ ir, build (twoListings "/acme/v1/jobs" " acme//v1/Jobs/") = .ok ir ∧
      ∀ resource ∈ ir.resources, ∀ route ∈ resource.routes, IsNormal route.path := by
  constructor
  · have declaredEq : declaredRoutes (twoListings "/acme/v1/jobs" " acme//v1/jobs/").config =
        [⟨"/acme/v1/jobs", .get, none⟩, ⟨" acme//v1/jobs/", .get, none⟩] := rfl
    have colliding : Colliding (twoListings "/acme/v1/jobs" " acme//v1/jobs/").config := by
      rw [Colliding, declaredEq]
      exact ⟨_, _, "/acme/v1/jobs", List.Sublist.refl _, rfl,
        eq_ok_of_toOption (by decide +kernel), eq_ok_of_toOption (by decide +kernel)⟩
    exact (routes_unambiguous _).2 colliding
  · have sortedEq : (twoListings "/acme/v1/jobs" " acme//v1/Jobs/").config.resources.mergeSort
        declarationLe = (twoListings "/acme/v1/jobs" " acme//v1/Jobs/").config.resources :=
      List.mergeSort_of_pairwise (by decide)
    have succeeds : (build (twoListings "/acme/v1/jobs" " acme//v1/Jobs/")).isOk = true := by
      rw [build]
      simp only [buildResources, sortedEq]
      decide +kernel
    obtain ⟨ir, built⟩ := exists_eq_ok succeeds
    obtain ⟨-, -, resources⟩ := (routes_unambiguous _).1 ir built
    exact ⟨ir, built, fun resource member => (resources resource member).2⟩

end RestPlugin.Ir
