import RestPlugin.Proofs.Controller.Total

/-!
# Endpoints

The endpoints of a resource are its routes in order.  The kind of each depends on its own method and
path alone, so what the metadata hold under that method and path is about that route.  The names of
the handlers number the routes of one kind, and no name is given twice.
-/

namespace RestPlugin.Controller

open Ir Php Text

/-! ## Kinds -/

/-- The kind of a route among the routes of a resource. -/
def kindOf (resource : Resource) (route : Route) : RouteKind :=
  let param := resource.identity.map Identity.param
  routeKind param (basePaths resource.routes param) route

theorem kindOf_congr {resource : Resource} {route other : Route}
    (method : route.method = other.method) (path : route.path = other.path) :
    kindOf resource route = kindOf resource other := by
  simp only [kindOf, routeKind, method, path]

theorem routeKinds_eq (resource : Resource) :
    routeKinds resource = resource.routes.map (kindOf resource) := rfl

/-! ## Metadata -/

theorem routes_ofResource (resource : Resource) : (Metadata.ofResource resource).routes =
    resource.routes.map fun route => routeMetadata resource (kindOf resource route) route := by
  rw [Metadata.ofResource, routeKinds_eq, List.zipWith_map_left, List.zipWith_self]

/-- The tags under a method and path are those of the first route with them. -/
theorem tagsFor_ofResource (resource : Resource) (route : Route) :
    (Metadata.ofResource resource).tagsFor route =
      ((resource.routes.find? fun found =>
        found.method == route.method && found.path == route.path).bind fun found =>
          routeTags resource (kindOf resource found)).getD [] := by
  rw [Metadata.tagsFor, routes_ofResource, List.find?_map, Option.bind_map]
  rfl

/-- The tags under the method and path of a route are its own, even if other routes have both. -/
theorem tagsFor_of_mem {resource : Resource} {route : Route} (member : route ∈ resource.routes) :
    (Metadata.ofResource resource).tagsFor route =
      (routeTags resource (kindOf resource route)).getD [] := by
  rw [tagsFor_ofResource]
  cases found : resource.routes.find? fun found =>
      found.method == route.method && found.path == route.path with
  | none => simpa using List.find?_eq_none.mp found route member
  | some first =>
      have agrees := List.find?_some found
      rw [Bool.and_eq_true, beq_iff_eq, beq_iff_eq] at agrees
      rw [Option.bind_some, kindOf_congr agrees.1 agrees.2]

/-! ## Endpoints in route order -/

theorem map_endpointsFrom (earlier : List RouteKind) (classified : List (Route × RouteKind)) :
    (endpointsFrom earlier classified).map (fun endpoint => (endpoint.route, endpoint.kind)) =
      classified := by
  induction classified generalizing earlier with
  | nil => rfl
  | cons first rest ih => rw [endpointsFrom, List.map_cons, ih]

theorem map_endpoints (resource : Resource) :
    (endpoints resource).map (fun endpoint => (endpoint.route, endpoint.kind)) =
      resource.routes.map fun route => (route, kindOf resource route) := by
  rw [endpoints, map_endpointsFrom, routeKinds_eq, List.zip_map_right, List.zip_eq_zipWith,
    List.zipWith_self, List.map_map]
  rfl

/-- There is one endpoint for each route, in order. -/
theorem route_endpoints (resource : Resource) :
    (endpoints resource).map (·.route) = resource.routes := by
  have routes := congrArg (List.map Prod.fst) (map_endpoints resource)
  rw [List.map_map, List.map_map] at routes
  exact routes.trans (List.map_id' _)

section Member

variable {resource : Resource} {endpoint : Endpoint} (member : endpoint ∈ endpoints resource)
include member

theorem route_mem_routes : endpoint.route ∈ resource.routes := by
  rw [← route_endpoints resource]
  exact List.mem_map_of_mem member

/-- An endpoint has the kind of its route. -/
theorem kind_of_mem_endpoints : endpoint.kind = kindOf resource endpoint.route := by
  have classified :=
    List.mem_map_of_mem (f := fun endpoint => (endpoint.route, endpoint.kind)) member
  rw [map_endpoints, List.mem_map] at classified
  obtain ⟨route, -, classifiedEq⟩ := classified
  obtain ⟨routeEq, kindEq⟩ := Prod.mk.inj classifiedEq
  rw [← kindEq, ← routeEq]

/-- The metadata have the tags of an endpoint under its route. -/
theorem tagsFor_endpoint : (Metadata.ofResource resource).tagsFor endpoint.route =
    (routeTags resource endpoint.kind).getD [] := by
  rw [tagsFor_of_mem (route_mem_routes member), kind_of_mem_endpoints member]

end Member

/-! ## Names of handlers -/

/-- What follows the kind in the name of a handler: nothing for the first one, a number later. -/
def ordinalSuffix (ordinal : Nat) : String :=
  if ordinal == 1 then "" else "_" ++ toString ordinal

/-- The name of the handler with a given place among the handlers of its kind. -/
def numberedName (kind : RouteKind) (ordinal : Nat) : String :=
  "handle_" ++ kind.text ++ ordinalSuffix ordinal

/-- The number of routes of a kind. -/
def countKind (kind : RouteKind) (kinds : List RouteKind) : Nat :=
  (kinds.filter (· == kind)).length

theorem handlerName_eq (earlier : List RouteKind) (kind : RouteKind) :
    handlerName earlier kind = numberedName kind (countKind kind earlier + 1) := by
  change (if countKind kind earlier + 1 == 1 then "handle_" ++ kind.text
    else "handle_" ++ kind.text ++ "_" ++ toString (countKind kind earlier + 1)) = _
  rw [numberedName, ordinalSuffix]
  cases countKind kind earlier + 1 == 1 <;> simp [String.append_assoc]

theorem toString_injective {m n : Nat} (same : toString m = toString n) : m = n := by
  have digits := congrArg (fun text => Nat.ofDigitChars 10 text.toList 0) same
  simpa [Nat.toString_eq_repr, Nat.ofDigitChars_toDigits] using digits

theorem ordinalSuffix_injective {m n : Nat} (same : ordinalSuffix m = ordinalSuffix n) : m = n := by
  simp only [ordinalSuffix] at same
  have nonempty (n : Nat) : "_" ++ toString n ≠ "" := by simp
  split at same <;> split at same
  · exact (beq_iff_eq.mp ‹(m == 1) = true›).trans (beq_iff_eq.mp ‹(n == 1) = true›).symm
  · exact absurd same.symm (nonempty n)
  · exact absurd same (nonempty m)
  · exact toString_injective ((String.append_right_inj "_").mp same)

/-- The letters at the beginning of a name without its first word are the kind. -/
theorem takeWhile_numberedName (kind : RouteKind) (ordinal : Nat) :
    ((numberedName kind ordinal).toList.drop 7).takeWhile isLower = kind.text.toList := by
  have letters : ∀ c ∈ kind.text.toList, isLower c = true := by
    rw [← List.all_eq_true]
    cases kind <;> decide
  have suffix : (ordinalSuffix ordinal).toList.takeWhile isLower = [] := by
    rw [ordinalSuffix]
    split
    · rfl
    · rw [String.toList_append]
      rfl
  rw [numberedName, String.append_assoc, String.toList_append, String.toList_append,
    List.drop_left' (by decide), List.takeWhile_append_of_pos letters, suffix, List.append_nil]

theorem text_injective {kind other : RouteKind} (same : kind.text = other.text) : kind = other := by
  cases kind <;> cases other <;> first | rfl | (revert same; decide)

theorem numberedName_injective {kind other : RouteKind} {m n : Nat}
    (same : numberedName kind m = numberedName other n) : kind = other ∧ m = n := by
  have kinds := takeWhile_numberedName kind m
  rw [same, takeWhile_numberedName other n, String.toList_inj] at kinds
  obtain rfl := text_injective kinds
  exact ⟨rfl, ordinalSuffix_injective ((String.append_right_inj _).mp same)⟩

/-- The ordinal of a handler is larger than the number of earlier handlers of its kind. -/
theorem exists_ordinal_of_mem {earlier : List RouteKind} {classified : List (Route × RouteKind)}
    {endpoint : Endpoint} (member : endpoint ∈ endpointsFrom earlier classified) :
    ∃ ordinal, countKind endpoint.kind earlier < ordinal ∧
      endpoint.handler = numberedName endpoint.kind ordinal := by
  induction classified generalizing earlier with
  | nil => cases member
  | cons first rest ih =>
      rcases List.mem_cons.mp member with rfl | later
      · exact ⟨_, Nat.lt_succ_self _, handlerName_eq _ _⟩
      · obtain ⟨ordinal, larger, handlerEq⟩ := ih later
        refine ⟨ordinal, Nat.lt_of_le_of_lt ?_ larger, handlerEq⟩
        rw [countKind, countKind, List.filter_append]
        simp

theorem nodup_handlersFrom (earlier : List RouteKind) (classified : List (Route × RouteKind)) :
    ((endpointsFrom earlier classified).map (·.handler)).Nodup := by
  induction classified generalizing earlier with
  | nil => exact List.nodup_nil
  | cons first rest ih =>
      rw [endpointsFrom, List.map_cons, List.nodup_cons]
      refine ⟨fun repeated => ?_, ih _⟩
      obtain ⟨endpoint, later, handlerEq⟩ := List.mem_map.mp repeated
      obtain ⟨ordinal, larger, numbered⟩ := exists_ordinal_of_mem later
      rw [numbered, handlerName_eq] at handlerEq
      -- the number of the first handler is one that its kind has used up afterwards
      obtain ⟨sameKind, sameOrdinal⟩ := numberedName_injective handlerEq
      have counted : countKind first.2 (earlier ++ [first.2]) = countKind first.2 earlier + 1 := by
        rw [countKind, List.filter_append]
        simp [countKind]
      rw [sameKind, counted] at larger
      omega

theorem nodup_handlers (resource : Resource) : ((endpoints resource).map (·.handler)).Nodup :=
  nodup_handlersFrom _ _

end RestPlugin.Controller
