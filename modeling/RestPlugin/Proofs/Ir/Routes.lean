import RestPlugin.Proofs.Ir.Resource

/-!
# Resolved routes

A route keeps the method of its declaration, has its path normalised, and has its capability unless
that is blank.  Over all resources no method and normalised path are declared twice, as every route
claims them in a registry.
-/

namespace RestPlugin.Ir

/-- What a resolved route has from its declaration. -/
structure Route.BuiltFrom (built : Route) (declared : Config.Route) : Prop where
  path : normalisePath declared.path = .ok built.path
  method : built.method = declared.method
  capability : built.capability = declared.capability.bind nonBlank

/-- The method and normalised path of a declaration, if the path can be normalised. -/
def claimOf (declared : Config.Route) : Method × Except PathFault String :=
  (declared.method, normalisePath declared.path)

/-- The method and path of a resolved route. -/
def Route.claim (route : Route) : Method × Except PathFault String :=
  (route.method, .ok route.path)

/-- Built routes claim what their declarations claim. -/
theorem map_claim_of_builtFrom {declared : List (Operation × Config.Route)} {built : List Route}
    (builtFrom : List.Forall₂ (fun route entry => route.BuiltFrom entry.2) built declared) :
    built.map Route.claim = declared.map fun entry => claimOf entry.2 := by
  induction builtFrom with
  | nil => rfl
  | cons first _ ih =>
      rw [List.map_cons, List.map_cons, ih, Route.claim, claimOf, first.path, first.method]

/-- The methods and paths in a registry. -/
def RouteRegistry.claims (registry : RouteRegistry) : List (Method × Except PathFault String) :=
  registry.map fun entry => (entry.1.1, .ok entry.1.2)

theorem RouteRegistry.not_mem_claims {registry : RouteRegistry} {method : Method} {path : String}
    (free : registry.owner? method path = none) : (method, .ok path) ∉ registry.claims := by
  intro claimed
  obtain ⟨⟨⟨taken, owned⟩, owner⟩, member, same⟩ := List.mem_map.mp claimed
  obtain ⟨rfl, pathEq⟩ := Prod.mk.inj same
  cases pathEq
  have differs := List.lookup_eq_none_iff.mp free _ member
  simp at differs

/-! ## One resource -/

/-- A route is resolved from its declaration, and claims what nothing has claimed before. -/
theorem builtFrom_of_buildRoute {resource : String} {operation : Operation}
    {registry after : RouteRegistry} {declared : Config.Route} {built : Route}
    (claimed : buildRoute registry resource operation declared = .ok (built, after)) :
    built.BuiltFrom declared ∧ claimOf declared ∉ registry.claims ∧
      after.claims = claimOf declared :: registry.claims := by
  rw [buildRoute] at claimed
  split at claimed
  · cases claimed
  · rename_i path pathEq
    have claimEq : claimOf declared = (declared.method, .ok path) := by rw [claimOf, pathEq]
    split at claimed
    · cases claimed
    · rename_i free
      cases claimed
      rw [claimEq]
      exact ⟨⟨pathEq, rfl, rfl⟩, RouteRegistry.not_mem_claims free, rfl⟩

/-- Routes that are claimed are built from their declarations, and their claims are added. -/
theorem builtFrom_of_claimRoutes {resource : String} {registry after : RouteRegistry}
    {declared : List (Operation × Config.Route)} {built : List Route}
    (claimed : claimRoutes resource registry declared = (.ok built, after)) :
    List.Forall₂ (fun route entry => route.BuiltFrom entry.2) built declared ∧
      after.claims.Perm (declared.map (fun entry => claimOf entry.2) ++ registry.claims) ∧
      (registry.claims.Nodup → after.claims.Nodup) := by
  induction declared generalizing registry built with
  | nil =>
      cases claimed
      exact ⟨.nil, List.Perm.refl _, id⟩
  | cons entry rest ih =>
      rcases entry with ⟨operation, route⟩
      rw [claimRoutes] at claimed
      split at claimed
      · cases claimed
      · rename_i first between routeEq
        obtain ⟨claimedRest, rfl⟩ := Prod.mk.inj claimed
        obtain ⟨others, othersEq, rfl⟩ := map_eq_ok_iff.mp claimedRest
        obtain ⟨builtFrom, free, betweenEq⟩ := builtFrom_of_buildRoute routeEq
        obtain ⟨othersFrom, perm, nodup⟩ := ih (Prod.ext othersEq rfl)
        rw [betweenEq] at perm nodup
        exact ⟨.cons builtFrom othersFrom, perm.trans List.perm_middle,
          fun registryNodup => nodup (List.nodup_cons.mpr ⟨free, registryNodup⟩)⟩

/-- The routes of a resolved resource are those of its declaration, in another order. -/
theorem builtFrom_of_buildResource {slug key : String} {claims after : Claims}
    {resource : Config.Resource} {built : Resource}
    (resolved : buildResource slug claims key resource = .ok (built, after)) :
    (∃ routes, routes.Perm built.routes ∧
      List.Forall₂ (fun route entry => route.BuiltFrom entry.2) routes resource.routes.toList) ∧
    after.routes.claims.Perm
      (resource.routes.toList.map (fun entry => claimOf entry.2) ++ claims.routes.claims) ∧
    (claims.routes.claims.Nodup → after.routes.claims.Nodup) := by
  rw [buildResource] at resolved
  simp only [bind_eq_ok_iff] at resolved
  obtain ⟨routes, routesEq, _, -, _, -, resolved⟩ := resolved
  cases resolved
  obtain ⟨claimed, claimedEq, rfl⟩ := map_eq_ok_iff.mp routesEq
  obtain ⟨builtFrom, perm, nodup⟩ := builtFrom_of_claimRoutes (Prod.ext claimedEq rfl)
  exact ⟨⟨claimed, (List.mergeSort_perm claimed Route.le).symm, builtFrom⟩, perm, nodup⟩

/-! ## All resources -/

/-- All claims that declarations make. -/
def claimsOf (declared : List (String × Config.Resource)) :
    List (Method × Except PathFault String) :=
  declared.flatMap fun entry => entry.2.routes.toList.map fun route => claimOf route.2

/-- Resources that are resolved claim every method and path at most once. -/
theorem nodup_claims_of_buildResourceList {slug : String} {claims : Claims}
    {declared : List (String × Config.Resource)} {resources : List Resource} {table : SchemaTable}
    (resolved : buildResourceList slug claims declared = .ok (resources, table))
    (nodup : claims.routes.claims.Nodup) :
    (claimsOf declared ++ claims.routes.claims).Nodup := by
  induction declared generalizing claims resources with
  | nil => exact nodup
  | cons entry rest ih =>
      rw [buildResourceList] at resolved
      simp only [bind_eq_ok_iff] at resolved
      obtain ⟨⟨built, between⟩, builtEq, ⟨others, last⟩, othersEq, resolved⟩ := resolved
      cases resolved
      obtain ⟨-, perm, kept⟩ := builtFrom_of_buildResource builtEq
      have later := ih othersEq (kept nodup)
      rw [((perm.append_left _).trans (List.perm_append_comm_assoc _ _ _)).nodup_iff] at later
      rwa [claimsOf, List.flatMap_cons, List.append_assoc]

/-- Resolved routes have the methods and normalised paths of the declared ones. -/
theorem claims_of_buildResourceList {slug : String} {claims : Claims}
    {declared : List (String × Config.Resource)} {resources : List Resource} {table : SchemaTable}
    (resolved : buildResourceList slug claims declared = .ok (resources, table)) :
    (resources.flatMap fun resource => resource.routes.map Route.claim).Perm
      (claimsOf declared) := by
  induction declared generalizing claims resources with
  | nil =>
      cases resolved
      exact List.Perm.refl _
  | cons entry rest ih =>
      rw [buildResourceList] at resolved
      simp only [bind_eq_ok_iff] at resolved
      obtain ⟨⟨built, between⟩, builtEq, ⟨others, last⟩, othersEq, resolved⟩ := resolved
      cases resolved
      obtain ⟨⟨routes, perm, builtFrom⟩, -⟩ := builtFrom_of_buildResource builtEq
      rw [claimsOf, List.flatMap_cons, List.flatMap_cons, ← map_claim_of_builtFrom builtFrom]
      exact (perm.symm.map _).append (ih othersEq)

/-- No two routes of a configuration have one method and one normalised path, and the resolved
routes have the same methods and paths. -/
theorem claims_of_buildResources {loaded : Config.Loaded} {slug : String}
    {declared table : SchemaTable} {resources : List Resource}
    (built : buildResources loaded slug declared = .ok (resources, table)) :
    (claimsOf loaded.config.resources).Nodup ∧
      (resources.flatMap fun resource => resource.routes.map Route.claim).Perm
        (claimsOf loaded.config.resources) := by
  obtain ⟨resolved, resolvedEq, rfl⟩ := exists_list_of_buildResources built
  have sorted := nodup_claims_of_buildResourceList resolvedEq List.nodup_nil
  change (claimsOf _ ++ []).Nodup at sorted
  rw [List.append_nil] at sorted
  have entries : (claimsOf (loaded.config.resources.mergeSort declarationLe)).Perm
      (claimsOf loaded.config.resources) := (List.mergeSort_perm _ _).flatMap_right _
  exact ⟨entries.nodup_iff.mp sorted, ((List.mergeSort_perm _ _).flatMap_right _).trans
    ((claims_of_buildResourceList resolvedEq).trans entries)⟩

end RestPlugin.Ir
