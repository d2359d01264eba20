import RestPlugin.Proofs.Controller.Endpoints
import RestPlugin.Proofs.Controller.Pieces
import RestPlugin.Proofs.Handler.Calls

/-!
# Handlers of controllers

Every route of a resource has its own handler and its own entry in the route table, and the guard of
a handler is the capability of its route.  No two methods of a controller have the same name, not
even up to case: the names of the private methods have no underscore, and all others have one.
-/

namespace RestPlugin

open Ir Php Text

/-! ## Names around a resource -/

/-- A text without capital letters is its own lower case. -/
theorem lowerString_eq_self {text : String} (small : ∀ c ∈ text.toList, isUpper c = false) :
    lowerString text = text := by
  have kept : ∀ c ∈ text.toList, lower c = c := fun c member => by rw [lower, small c member]; rfl
  rw [lowerString, List.map_congr_left kept, List.map_id', String.ofList_toList]

theorem eq_underscore_of_lower {c : Char} (small : lower c = '_') : c = '_' := by
  cases capital : isUpper c with
  | false =>
      rw [lower, capital] at small
      exact small
  | true =>
      have alnum : isAlnum c = true := by simp [isAlnum, isLetter, capital]
      exact absurd small (forall_isAlnum (p := fun c => lower c ≠ '_') (by decide +kernel) alnum)

/-- The first and the last character of a name. -/
def nameEnds (name : String) : Option Char × Option Char :=
  (name.toList.head?, name.toList.getLast?)

section Around

variable {pascal before after : String}

theorem nameEnds_around (start : before.toList ≠ []) (rest : after.toList ≠ []) :
    nameEnds (lowerString (before ++ pascal ++ after)) =
      (before.toList.head?.map lower, after.toList.getLast?.map lower) := by
  rw [nameEnds, lowerString, String.toList_ofList, String.toList_append, String.toList_append,
    List.head?_map, List.getLast?_map, List.getLast?_append_of_ne_nil _ rest, List.append_assoc,
    List.head?_append_of_ne_nil _ start]

end Around

namespace Handler

variable {resource : Resource} {pascal : String}

/-- The names of private methods have no underscore. -/
theorem notMem_name_of_mem_signatures (word : IsPascal pascal) :
    ∀ signature ∈ signatures resource pascal, '_' ∉ signature.1.toList := by
  have middle : '_' ∉ (toString pascal).toList := fun member => absurd (word _ member) (by decide)
  unfold signatures
  split
  · simp
  · simp +decide [Post.signatures, middle]
  · simp +decide [Transient.signatures, middle]
  · simp +decide [Single.signatures, middle]
  · simp +decide [Term.signatures, middle]

theorem nodup_lowerString_signatures (resource : Resource) (pascal : String) :
    ((signatures resource pascal).map fun signature => lowerString signature.1).Nodup := by
  apply List.Nodup.of_map nameEnds
  unfold signatures
  split
  · exact List.nodup_nil
  · simp (disch := decide) only [Post.signatures, List.map_cons, List.map_nil, nameEnds_around]
    decide
  · exact List.nodup_singleton _
  · exact List.nodup_singleton _
  · simp (disch := decide) only [Term.signatures, List.map_cons, List.map_nil, nameEnds_around]
    decide

end Handler

namespace Php

/-- Among methods without repeated names, every method is found under its name. -/
theorem find?_name_eq_some {methods : List Method} (nodup : (methods.map (·.name)).Nodup)
    {method : Method} (member : method ∈ methods) :
    methods.find? (fun found => found.name == method.name) = some method := by
  induction methods with
  | nil => cases member
  | cons first rest ih =>
      rw [List.map_cons, List.nodup_cons] at nodup
      rcases List.mem_cons.mp member with rfl | later
      · rw [List.find?_cons_of_pos (by simp)]
      · have apart : first.name ≠ method.name := fun same =>
          nodup.1 (same ▸ List.mem_map_of_mem (f := (·.name)) later)
        rw [List.find?_cons_of_neg (by simpa using apart)]
        exact ih nodup.2 later

end Php

namespace Controller

/-! ## Names of methods -/

theorem isUpper_of_isDigit {c : Char} (digit : isDigit c = true) : isUpper c = false := by
  rw [isDigit, Bool.and_eq_true, decide_eq_true_iff, decide_eq_true_iff] at digit
  rw [isUpper, Bool.and_eq_false_iff]
  have small : ¬ 'A' ≤ c := fun large => absurd (le_trans large digit.2) (by decide)
  exact .inl (decide_eq_false small)

/-- A numbered name has no capital letters. -/
theorem lowerString_numberedName (kind : RouteKind) (ordinal : Nat) :
    lowerString (numberedName kind ordinal) = numberedName kind ordinal := by
  have noUpper : ("handle_" ++ kind.text).toList.any isUpper = false := by cases kind <;> decide
  have fixed : ∀ c ∈ ("handle_" ++ kind.text).toList, isUpper c = false := by
    simpa only [List.any_eq_false, Bool.not_eq_true] using noUpper
  have digits : ∀ c ∈ (ordinalSuffix ordinal).toList, isUpper c = false := by
    rw [ordinalSuffix]
    split
    · simp
    · rw [String.toList_append]
      intro c member
      rcases List.mem_append.mp member with underscore | digit
      · rw [List.mem_singleton.mp underscore]
        rfl
      · exact isUpper_of_isDigit
          (Json.isDigit_of_mem_toDigits (by simpa [Nat.toString_eq_repr] using digit))
  apply lowerString_eq_self
  rw [numberedName, String.toList_append]
  exact List.forall_mem_append.mpr ⟨fixed, digits⟩

theorem exists_numberedName {resource : Resource} {endpoint : Endpoint}
    (member : endpoint ∈ endpoints resource) :
    ∃ ordinal, endpoint.handler = numberedName endpoint.kind ordinal := by
  obtain ⟨ordinal, -, handlerEq⟩ := exists_ordinal_of_mem member
  exact ⟨ordinal, handlerEq⟩

theorem startsWith_numberedName (kind : RouteKind) (ordinal : Nat) :
    startsWith (numberedName kind ordinal) "handle_" = true := by
  rw [startsWith, List.isPrefixOf_iff_prefix, numberedName, String.append_assoc,
    String.toList_append]
  exact List.prefix_append _ _

section Handlers

variable {resource : Resource} {endpoint : Endpoint} (member : endpoint ∈ endpoints resource)
include member

theorem startsWith_handler : startsWith endpoint.handler "handle_" = true := by
  obtain ⟨ordinal, handlerEq⟩ := exists_numberedName member
  rw [handlerEq, startsWith_numberedName]

theorem lowerString_handler : lowerString endpoint.handler = endpoint.handler := by
  obtain ⟨ordinal, handlerEq⟩ := exists_numberedName member
  rw [handlerEq, lowerString_numberedName]

theorem underscore_mem_handler : '_' ∈ endpoint.handler.toList :=
  (List.isPrefixOf_iff_prefix.mp (startsWith_handler member)).subset (by decide)

end Handlers

/-- The names of the methods by which a controller describes itself. -/
def selfNames : List String :=
  ["get_resource_name", "get_schema_key", "get_rest_args", "get_routes"]

theorem name_selfDescription (resource : Resource) :
    (selfDescription resource).map (·.name) = selfNames := rfl

theorem startsWith_of_mem_selfNames :
    ∀ name ∈ selfNames, startsWith name "handle_" = false := by decide

section Names

variable {resource : Resource} {pascal : String} (word : IsPascal pascal)
include word

/-- No private method of a controller has an underscore in its name, in whatever case. -/
theorem underscore_notMem_lowerString {signature : Signature}
    (listed : signature ∈ Handler.signatures resource pascal) :
    '_' ∉ (lowerString signature.1).toList := by
  rw [lowerString, String.toList_ofList]
  intro lowered
  obtain ⟨c, inName, small⟩ := List.mem_map.mp lowered
  obtain rfl := eq_underscore_of_lower small
  exact Handler.notMem_name_of_mem_signatures word signature listed inName

/-- The names of the methods of a controller are different, even up to case. -/
theorem nodup_lowerString_names :
    ((selfNames ++ (endpoints resource).map (·.handler) ++
      (Handler.signatures resource pascal).map (·.1)).map lowerString).Nodup := by
  have selfLower : selfNames.map lowerString = selfNames := by decide
  have handlersLower : ((endpoints resource).map (·.handler)).map lowerString =
      (endpoints resource).map (·.handler) := by
    rw [List.map_map]
    exact List.map_congr_left fun endpoint member => lowerString_handler member
  have underscore : ∀ name ∈ selfNames ++ (endpoints resource).map (·.handler),
      '_' ∈ name.toList :=
    List.forall_mem_append.mpr ⟨by decide,
      List.forall_mem_map.mpr fun endpoint member => underscore_mem_handler member⟩
  rw [List.map_append, List.map_append, selfLower, handlersLower, List.nodup_append,
    List.nodup_append]
  refine ⟨⟨by decide, nodup_handlers resource, fun name self handler isHandler same => ?_⟩, ?_, ?_⟩
  · obtain ⟨endpoint, member, rfl⟩ := List.mem_map.mp isHandler
    have other := startsWith_of_mem_selfNames name self
    rw [same, startsWith_handler member] at other
    cases other
  · rw [List.map_map]
    exact Handler.nodup_lowerString_signatures resource pascal
  · intro name before helper after same
    obtain ⟨original, originalMem, rfl⟩ := List.mem_map.mp after
    obtain ⟨signature, listed, rfl⟩ := List.mem_map.mp originalMem
    exact underscore_notMem_lowerString word listed (same ▸ underscore name before)

end Names

/-! ## Composed controllers -/

/-- The handler of an endpoint consists of the capability check and what the storage composed. -/
theorem exists_body_of_method {resource : Resource} {metadata : Metadata} {endpoint : Endpoint}
    {made : Php.Method × List CacheEvent} (done : endpoint.method resource metadata = .ok made) :
    ∃ handler, Handler.ofRoute resource (pascalCase resource.name) endpoint.route endpoint.kind
        metadata = .ok handler ∧
      made.1 =
        { name := endpoint.handler
          params := [.known "WP_REST_Request" "request"]
          body := endpoint.checks ++ handler.body
          doc := some (endpoint.doc metadata) } := by
  obtain ⟨handler, handlerEq, rest⟩ := bind_eq_ok_iff.mp done
  obtain ⟨method, methodEq, result⟩ := bind_eq_ok_iff.mp rest
  cases result
  rw [ensures_method_of _ method methodEq]
  exact ⟨handler, handlerEq, rfl⟩

/-- The private methods of a controller are those of its storage. -/
theorem Pieces.answered {ir : Ir} {resource : Resource} (pieces : Pieces ir resource) :
    Handler.Answered (Handler.signatures resource (pascalCase resource.name)) pieces.helpers :=
  Handler.answered_methods _ pieces.helpers pieces.helpers_eq

/-- A controller is one class with the methods that describe it, the handlers and the private
methods. -/
theorem exists_class_of_compose {ir : Ir} {resource : Resource} {composed : Composed}
    (done : compose ir resource = .ok composed) :
    ∃ decl handlers helpers,
      (endpoints resource).mapM (Endpoint.method resource (Metadata.ofResource resource)) =
        .ok handlers ∧
      Handler.Answered (Handler.signatures resource (pascalCase resource.name)) helpers ∧
      composed.file.stmts = [.classDecl decl] ∧ decl.consts = [] ∧
      decl.methods = selfDescription resource ++ handlers.map (·.1) ++ helpers ∧
      composed.metadata.routes = (Metadata.ofResource resource).routes := by
  obtain ⟨pieces, rfl⟩ := exists_pieces_of_compose done
  exact ⟨pieces.decl, pieces.handlers, pieces.helpers, pieces.handlers_eq, pieces.answered,
    pieces.stmts_composed, rfl, rfl, rfl⟩

theorem not_closed_guard (methods : List Signature) (key : String) :
    ¬ AllClosed methods (Snippet.capabilityGuard key) := by
  intro closed
  have checked := (closed_setVar.mp (closed _ List.mem_cons_self)).2
  exact (Expr.closed_iff.mp checked).1.2

/-- A handler begins with a capability check exactly for the capability of its route. -/
theorem capabilityGuard_prefix_iff {endpoint : Endpoint} {methods : List Signature}
    {body : List Stmt} (closed : AllClosed methods body) (key : String) :
    Snippet.capabilityGuard key <+: endpoint.checks ++ body ↔
      endpoint.route.capability = some key := by
  rw [Endpoint.checks]
  cases endpoint.route.capability with
  | none =>
      refine ⟨fun begins => ?_, fun isSome => by cases isSome⟩
      exact absurd (fun stmt member => closed stmt (begins.subset member))
        (not_closed_guard methods key)
  | some actual =>
      constructor
      · intro begins
        have same := (List.cons_prefix_cons.mp begins).1
        cases same
        rfl
      · rintro ⟨⟩
        exact ⟨.blank :: body, by simp⟩

/-- A route is noted, listed in the route table and handled. -/
structure Serves (resource : Resource) (route : Route) (noted : RouteMetadata) (item : ArrayItem)
    (handler : Php.Method) : Prop where
  method_eq : noted.method = route.method
  path_eq : noted.path = route.path
  kind_eq : noted.kind = kindOf resource route
  tags_eq : noted.tags = routeTags resource noted.kind
  item_eq : item = .plain (.record
    [("namespace", .string (restRoute route.path resource.identity).1),
     ("route", .string (restRoute route.path resource.identity).2),
     ("methods", .string route.method.text), ("callback", .string handler.name)])
  doc_eq : handler.doc = some (
    ["Handle [" ++ route.method.text ++ "] " ++ route.path ++ ".", "",
      "@wp-kernel route-kind " ++ noted.kind.text] ++
    (noted.tags.getD []).map (fun tag => "@wp-kernel " ++ tag.1 ++ " " ++ tag.2) ++
    ["@param WP_REST_Request $request Request instance.", "@return mixed"])
  params_eq : handler.params = [.known "WP_REST_Request" "request"]
  body : ∃ composed, Handler.ofRoute resource (pascalCase resource.name) route noted.kind
      (Metadata.ofResource resource) = .ok composed ∧
    handler.body = ((route.capability.map fun key =>
      Snippet.capabilityGuard key ++ [.blank]).getD []) ++ composed.body
  guard : ∀ key, Snippet.capabilityGuard key <+: handler.body ↔ route.capability = some key

/-- The method made for an endpoint serves its route. -/
theorem serves_of_method {resource : Resource} {endpoint : Endpoint}
    {made : Php.Method × List CacheEvent} (member : endpoint ∈ endpoints resource)
    (done : endpoint.method resource (Metadata.ofResource resource) = .ok made) :
    Serves resource endpoint.route (routeMetadata resource endpoint.kind endpoint.route)
      (.plain (endpoint.entry resource.identity)) made.1 := by
  obtain ⟨handler, handlerEq, madeEq⟩ := exists_body_of_method done
  have closed := Handler.closed_ofRoute _ _ handler handlerEq
  rw [madeEq]
  refine ⟨rfl, rfl, kind_of_mem_endpoints member, rfl, rfl, ?_, rfl, ⟨handler, handlerEq, ?_⟩,
    capabilityGuard_prefix_iff closed⟩
  · change some (endpoint.doc _) = _
    rw [Endpoint.doc, tagsFor_endpoint member]
    rfl
  · change endpoint.checks ++ _ = _
    rw [Endpoint.checks]
    cases endpoint.route.capability <;> rfl

theorem getElem?_endpoints {resource : Resource} {index : Nat} {route : Route}
    (found : resource.routes[index]? = some route) :
    ∃ endpoint, (endpoints resource)[index]? = some endpoint ∧ endpoint.route = route ∧
      endpoint ∈ endpoints resource := by
  rw [← route_endpoints resource, List.getElem?_map, Option.map_eq_some_iff] at found
  obtain ⟨endpoint, endpointEq, routeEq⟩ := found
  exact ⟨endpoint, endpointEq, routeEq, List.mem_of_getElem? endpointEq⟩

section Composed

variable {resource : Resource} {made : List (Php.Method × List CacheEvent)}
  {helpers : List Php.Method}
  (madeEq : (endpoints resource).mapM (Endpoint.method resource (Metadata.ofResource resource)) =
    .ok made)
  (answered : Handler.Answered (Handler.signatures resource (pascalCase resource.name)) helpers)

include madeEq in
/-- The handlers made for the endpoints have their names, in order. -/
theorem map_name_handlers :
    (made.map (·.1)).map (·.name) = (endpoints resource).map (·.handler) := by
  rw [List.map_map]
  refine map_eq_of_mapM_eq_ok (fun endpoint result resultEq => ?_) madeEq
  obtain ⟨handler, -, resultForm⟩ := exists_body_of_method resultEq
  rw [Function.comp_apply, resultForm]

include answered in
/-- The private methods have the names of the signatures, in order. -/
theorem map_name_helpers : helpers.map (·.name) =
    (Handler.signatures resource (pascalCase resource.name)).map (·.1) := by
  rw [← map_signature_of_answers answered, List.map_map]
  rfl

include madeEq answered in
/-- The handlers are the methods that are named as handlers. -/
theorem filter_handlers :
    ((selfDescription resource ++ made.map (·.1) ++ helpers).filter fun method =>
      startsWith method.name "handle_") = made.map (·.1) := by
  have self : (selfDescription resource).filter (fun method =>
      startsWith method.name "handle_") = [] := by
    rw [List.filter_eq_nil_iff]
    intro method member
    have named : method.name ∈ selfNames :=
      name_selfDescription resource ▸ List.mem_map_of_mem member
    exact ne_true_of_eq_false (startsWith_of_mem_selfNames _ named)
  have handled : (made.map (·.1)).filter (fun method => startsWith method.name "handle_") =
      made.map (·.1) := by
    rw [List.filter_eq_self]
    intro method member
    have named := List.mem_map_of_mem (f := (·.name)) member
    rw [map_name_handlers madeEq, List.mem_map] at named
    obtain ⟨endpoint, endpointMem, nameEq⟩ := named
    rw [← nameEq, startsWith_handler endpointMem]
  have helper : helpers.filter (fun method => startsWith method.name "handle_") = [] := by
    rw [List.filter_eq_nil_iff]
    intro method member begins
    have named := List.mem_map_of_mem (f := (·.name)) member
    rw [map_name_helpers answered, List.mem_map] at named
    obtain ⟨signature, listed, nameEq⟩ := named
    rw [← nameEq, startsWith, List.isPrefixOf_iff_prefix] at begins
    exact Handler.notMem_name_of_mem_signatures (isPascal_pascalCase _) signature listed
      (begins.subset (by decide))
  rw [List.filter_append, List.filter_append, self, handled, helper, List.nil_append,
    List.append_nil]

end Composed

/-- Routes, handlers, entries of the route table and guards correspond one to one. -/
theorem exists_handlers_serving_routes {ir : Ir} {resource : Resource} {composed : Composed}
    (done : compose ir resource = .ok composed) :
    ∃ (decl : Php.Class) (handlers : List Php.Method) (items : List ArrayItem),
      composed.file.stmts = [.classDecl decl] ∧
      (decl.methods.filter fun method => startsWith method.name "handle_") = handlers ∧
      (decl.methods.map fun method => lowerString method.name).Nodup ∧
      (decl.method? "get_routes").map (·.body) = some [.returning (.array items)] ∧
      handlers.length = resource.routes.length ∧ items.length = resource.routes.length ∧
      ∀ (index : Nat) (route : Route), resource.routes[index]? = some route →
        ∃ (noted : RouteMetadata) (item : ArrayItem) (handler : Php.Method),
          composed.metadata.routes[index]? = some noted ∧ items[index]? = some item ∧
          handlers[index]? = some handler ∧ decl.method? handler.name = some handler ∧
          Serves resource route noted item handler := by
  obtain ⟨decl, made, helpers, madeEq, answered, stmts, -, methods, routes⟩ :=
    exists_class_of_compose done
  have lowerNodup : (decl.methods.map fun method => lowerString method.name).Nodup := by
    have names := @nodup_lowerString_names resource _ (isPascal_pascalCase resource.name)
    rw [← map_name_helpers answered, ← map_name_handlers madeEq, ← name_selfDescription resource,
      ← List.map_append, ← List.map_append, ← methods, List.map_map] at names
    exact names
  have nodup : (decl.methods.map (·.name)).Nodup := by
    apply List.Nodup.of_map lowerString
    rw [List.map_map]
    exact lowerNodup
  have find {method : Php.Method} (member : method ∈ decl.methods) :
      decl.method? method.name = some method := find?_name_eq_some nodup member
  have endpointsLength : (endpoints resource).length = resource.routes.length := by
    rw [← congrArg List.length (route_endpoints resource), List.length_map]
  have madeLength : made.length = (endpoints resource).length := by
    simpa using congrArg List.length (map_name_handlers madeEq)
  refine ⟨decl, made.map (·.1),
    (endpoints resource).map fun endpoint => .plain (endpoint.entry resource.identity), stmts,
    methods ▸ filter_handlers madeEq answered, lowerNodup, ?_,
    by rw [List.length_map, madeLength, endpointsLength],
    by rw [List.length_map, endpointsLength], fun index route routeEq => ?_⟩
  · have listed : answering "get_routes" "array" (.array ((endpoints resource).map fun endpoint =>
        .plain (endpoint.entry resource.identity))) ∈ decl.methods := by
      rw [methods, selfDescription]
      simp
    exact congrArg (Option.map (·.body)) (find listed)
  · obtain ⟨endpoint, endpointEq, rfl, member⟩ := getElem?_endpoints routeEq
    obtain ⟨pair, pairEq, methodEq⟩ := exists_getElem?_of_mapM_eq_ok madeEq endpointEq
    have handlerEq : (made.map (·.1))[index]? = some pair.1 := by
      rw [List.getElem?_map, pairEq]
      rfl
    refine ⟨_, _, pair.1, ?_, ?_, handlerEq, ?_, serves_of_method member methodEq⟩
    · rw [routes, routes_ofResource, List.getElem?_map, routeEq, kind_of_mem_endpoints member]
      rfl
    · rw [List.getElem?_map, endpointEq]
      rfl
    · apply find
      rw [methods]
      exact List.mem_append_left _ (List.mem_append_right _ (List.mem_of_getElem? handlerEq))

/-- A resource with two routes that read an item, of which the second one asks for a capability. -/
def task : Resource where
  name := "task"
  schemaKey := "task"
  schemaProvenance := .auto
  routes :=
    [⟨.get, "/acme/v1/tasks/:id", none, ""⟩,
     ⟨.get, "/acme/v1/jobs/:id", some "job.read", ""⟩]
  cacheKeys :=
    { list := ⟨[.text "task"], .default⟩
      get := ⟨[.text "task"], .default⟩
      create := none
      update := none
      remove := none }
  identity := some ⟨.number, "id"⟩
  storage := some .transient
  queryParams := none
  hash := ""
  warnings := []

/-- A project with that resource. -/
def tasks : Ir where
  info := ⟨1, "acme", "acme", "wpk.config.toml", "wpk.config.toml"⟩
  schemas := []
  resources := [task]
  capabilityMap := ⟨none, ⟨"manage_options", .resource⟩, [], [], [], []⟩
  php := ⟨"Acme", "includes", "generated"⟩
  hash := ""

theorem exists_handlers_serving_tasks :
    ∃ (composed : Composed) (decl : Php.Class) (noted : RouteMetadata) (item : ArrayItem)
      (handler : Php.Method),
      compose tasks task = .ok composed ∧ composed.file.stmts = [.classDecl decl] ∧
      (decl.methods.filter fun method => startsWith method.name "handle_").length = 2 ∧
      decl.method? handler.name = some handler ∧
      Serves task ⟨.get, "/acme/v1/jobs/:id", some "job.read", ""⟩ noted item handler ∧
      Snippet.capabilityGuard "job.read" <+: handler.body := by
  have named : task.WellNamed :=
    ⟨by rintro identity ⟨⟩; decide, by rintro storage ⟨⟩, by rintro storage ⟨⟩⟩
  obtain ⟨composed, done⟩ : Succeeds (compose tasks task) :=
    (succeeds_compose_iff named (exists_eq_ok (by decide +kernel))
      (exists_eq_ok (by decide +kernel))).mpr (by decide +kernel)
  obtain ⟨decl, handlers, items, stmts, filtered, -, -, length, -, each⟩ :=
    exists_handlers_serving_routes done
  obtain ⟨noted, item, handler, -, -, -, found, serves⟩ := each 1 _ rfl
  exact ⟨composed, decl, noted, item, handler, done, stmts, filtered ▸ length, found, serves,
    (serves.guard "job.read").mpr rfl⟩

end Controller

end RestPlugin
