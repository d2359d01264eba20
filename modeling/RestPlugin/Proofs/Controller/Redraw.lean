import RestPlugin.Proofs.Controller.Endpoints
import RestPlugin.Proofs.Controller.Segments
import RestPlugin.Proofs.Ir.Encode

/-!
# What a controller shows of its cache segments

Handlers see the cache segments of a resource only in the events that they cause: with other
segments they have the same statements, and their events carry the other segments.  So a controller
does not depend on more of a segment than its spelling, as long as every segment equals itself.  The
undefined number does not, and an event with such a segment is noted as often as it is caused.
-/

namespace RestPlugin

open Json Number

/-! ## Segments that equal themselves -/

/-- Whether a segment equals itself: all do but the undefined number. -/
def Segment.Defined (segment : Segment) : Prop := segment ≠ .float .nan

theorem Segment.Defined.sameValue_self {segment : Segment} (defined : segment.Defined) :
    segment.sameValue segment = true := by
  cases segment with
  | float value =>
      cases value with
      | finite => simp [sameValue, Binary64.sameValue]
      | infinite => simp [sameValue, Binary64.sameValue]
      | nan => exact absurd rfl defined
  | _ => simp [sameValue]

/-- Whether the segments of all cache keys of a resource equal themselves. -/
def Ir.Resource.Defined (resource : Ir.Resource) : Prop :=
  ∀ operation key, resource.cacheKeys.at? operation = some key →
    ∀ segment ∈ key.segments, segment.Defined

namespace Controller

open Ir

/-- Defined segments equal themselves. -/
theorem sameSegments_self {segments : List Segment}
    (defined : ∀ segment ∈ segments, segment.Defined) : sameSegments segments segments = true := by
  induction segments with
  | nil => rfl
  | cons segment segments ih =>
      rw [List.forall_mem_cons] at defined
      rw [sameSegments, defined.1.sameValue_self, ih defined.2]
      rfl

/-! ## The segments of a kind of route -/

theorem map_kind_routes (resource : Resource) :
    (Metadata.ofResource resource).routes.map (·.kind) =
      List.zipWith (fun kind _ => kind) (routeKinds resource) resource.routes := by
  rw [Metadata.ofResource, List.map_zipWith]
  rfl

/-- A kind that occurs among the routes has the segments of its operation. -/
theorem segmentsFor_ofResource (resource : Resource) (kind : RouteKind) :
    (Metadata.ofResource resource).segmentsFor kind =
      if kind ∈ (Metadata.ofResource resource).routes.map (·.kind) then
        (cacheSegments resource.cacheKeys kind).getD [] else [] := by
  rw [Metadata.segmentsFor, Metadata.route?]
  cases found : (Metadata.ofResource resource).routes.find? fun route => route.kind == kind with
  | none =>
      have absent : kind ∉ (Metadata.ofResource resource).routes.map (·.kind) := by
        simpa using found
      rw [if_neg absent]
      rfl
  | some route =>
      have member := List.mem_of_find?_eq_some found
      have kindEq : route.kind = kind := by simpa using List.find?_some found
      rw [if_pos (kindEq ▸ List.mem_map_of_mem member)]
      rw [Metadata.ofResource, ← List.map_uncurry_zip_eq_zipWith] at member
      obtain ⟨⟨own, origin⟩, -, rfl⟩ := List.mem_map.mp member
      rw [← kindEq]
      rfl

/-- The segments that the metadata draw from a defined resource are defined. -/
theorem defined_segmentsFor {resource : Resource} (defined : resource.Defined) (kind : RouteKind) :
    ∀ segment ∈ (Metadata.ofResource resource).segmentsFor kind, segment.Defined := by
  rw [segmentsFor_ofResource]
  split
  · cases segmentsEq : cacheSegments resource.cacheKeys kind with
    | none => simp
    | some segments =>
        obtain ⟨operation, -, rfl⟩ := Option.map_eq_some_iff.mp segmentsEq
        cases keyEq : resource.cacheKeys.at? operation with
        | none => simp
        | some key => exact defined operation key keyEq
  · simp

/-! ## Events drawn from other metadata -/

/-- The event with the segments that metadata has for its scope. -/
def CacheEvent.redraw (metadata : Metadata) (event : CacheEvent) : CacheEvent :=
  { event with segments := metadata.segmentsFor event.scope }

@[simp]
theorem redraw_event (first second : Metadata) (scope : RouteKind) (operation : CacheOperation)
    (description : Option String) :
    (first.event scope operation description).redraw second =
      second.event scope operation description := rfl

/-- Whether all events of a list carry the segments that metadata has for their scopes. -/
def Drawn (metadata : Metadata) (events : List CacheEvent) : Prop :=
  ∀ event ∈ events, event.segments = metadata.segmentsFor event.scope

/-- Events with defined segments that are drawn from one place are told apart by their scope, their
operation and their description. -/
theorem same_eq_of_drawn {metadata : Metadata}
    (defined : ∀ kind, ∀ segment ∈ metadata.segmentsFor kind, segment.Defined)
    {first second : CacheEvent} (drawn : first.segments = metadata.segmentsFor first.scope)
    (drawn' : second.segments = metadata.segmentsFor second.scope) :
    first.same second = (first.scope == second.scope && first.operation == second.operation &&
      first.description == second.description) := by
  rw [CacheEvent.same]
  by_cases scopeEq : first.scope = second.scope
  · rw [drawn, drawn', scopeEq, sameSegments_self (defined second.scope), Bool.and_true]
  · rw [beq_false_of_ne scopeEq]
    rfl

/-- The plan with the events drawn from other metadata. -/
def CachePlan.redraw (metadata : Metadata) (plan : CachePlan) : CachePlan :=
  { events := plan.events.map (CacheEvent.redraw metadata) }

variable {first second : Metadata}

/-- Noting an event and redrawing the plan commute. -/
theorem CachePlan.redraw_note
    (defined : ∀ kind, ∀ segment ∈ first.segmentsFor kind, segment.Defined)
    (defined' : ∀ kind, ∀ segment ∈ second.segmentsFor kind, segment.Defined)
    {plan : CachePlan} {event : CacheEvent} (planDrawn : Drawn first plan.events)
    (drawn : event.segments = first.segmentsFor event.scope) :
    (plan.note event).redraw second = (plan.redraw second).note (event.redraw second) := by
  have known : (plan.redraw second).events.any (·.same (event.redraw second)) =
      plan.events.any (·.same event) := by
    rw [Bool.eq_iff_iff, redraw, List.any_map, List.any_eq_true, List.any_eq_true]
    apply exists_congr
    intro other
    apply and_congr_right
    intro member
    rw [Function.comp_apply, same_eq_of_drawn defined (planDrawn other member) drawn,
      same_eq_of_drawn defined' rfl rfl]
    rfl
  rw [note, note, known]
  split
  · rfl
  · simp [redraw]

/-- Noting events and redrawing the plan commute. -/
theorem CachePlan.redraw_foldl_note
    (defined : ∀ kind, ∀ segment ∈ first.segmentsFor kind, segment.Defined)
    (defined' : ∀ kind, ∀ segment ∈ second.segmentsFor kind, segment.Defined)
    {plan : CachePlan} {events : List CacheEvent} (planDrawn : Drawn first plan.events)
    (drawn : Drawn first events) :
    (events.foldl CachePlan.note plan).redraw second =
      (events.map (CacheEvent.redraw second)).foldl CachePlan.note (plan.redraw second) := by
  induction events generalizing plan with
  | nil => rfl
  | cons event events ih =>
      rw [Drawn, List.forall_mem_cons] at drawn
      rw [List.map_cons, List.foldl_cons, List.foldl_cons,
        ← redraw_note defined defined' planDrawn drawn.1]
      apply ih _ drawn.2
      intro other member
      rcases mem_events_note member with earlier | rfl
      · exact planDrawn other earlier
      · exact drawn.1

end Controller

/-! ## Handlers -/

namespace Handler

open Controller Ir Php

/-- The handler with its events drawn from other metadata. -/
def redraw (metadata : Metadata) (handler : Handler) : Handler :=
  { handler with events := handler.events.map (CacheEvent.redraw metadata) }

/-- Whether a handler composed with other metadata is the same handler with its events redrawn. -/
def Redraws (compose : Metadata → Composed) : Prop :=
  ∀ first second : Metadata, first.name = second.name →
    compose second = (compose first).map (Option.map (redraw second))

namespace Redraws

theorem unsupported : Redraws fun _ => .ok none := fun _ _ _ => rfl

/-- A handler whose body does not depend on the metadata is redrawn with its events. -/
theorem ofEvents {body : List Stmt} {events : Metadata → List CacheEvent}
    (drawn : ∀ first second : Metadata, first.name = second.name →
      (events first).map (CacheEvent.redraw second) = events second) :
    Redraws fun metadata => .ok (some ⟨body, events metadata⟩) := by
  intro first second nameEq
  dsimp only
  rw [← drawn first second nameEq]
  rfl

/-- What follows a computation that does not depend on the metadata is redrawn. -/
theorem bind {α : Type} {first : Build α} {next : α → Metadata → Composed}
    (each : ∀ value, Redraws (next value)) :
    Redraws fun metadata => first >>= fun value => next value metadata := by
  intro metadata other nameEq
  cases first with
  | error error => rfl
  | ok value => exact each value metadata other nameEq

/-- A handler that computes its body without the metadata is redrawn with its events. -/
theorem ofBody {α : Type} {first : Build α} {body : α → List Stmt}
    {events : Metadata → List CacheEvent}
    (drawn : ∀ first second : Metadata, first.name = second.name →
      (events first).map (CacheEvent.redraw second) = events second) :
    Redraws fun metadata => first >>= fun value => .ok (some ⟨body value, events metadata⟩) :=
  bind fun _ => ofEvents drawn

end Redraws

variable (resource : Resource) (pascal : String) (route : Route) (kind : RouteKind)

theorem Single.redraws : Redraws (Single.handler pascal route kind) := by
  apply Redraws.ofBody
  simp

theorem Transient.redraws : Redraws (Transient.handler resource pascal route kind) := by
  unfold Transient.handler
  cases addresses resource route with
  | false => exact Redraws.unsupported
  | true =>
      apply Redraws.bind
      intro taken
      apply Redraws.bind
      intro key
      apply Redraws.ofBody
      simp

theorem Term.redraws : Redraws (Term.handler resource pascal route kind) := by
  unfold Term.handler
  cases lists route kind with
  | true =>
      apply Redraws.ofBody
      simp
  | false =>
      cases kind <;> cases resource.identity
      case get.some identity =>
          apply Redraws.ofBody
          simp
      all_goals exact Redraws.unsupported

namespace Post

variable (identity : Identity)

theorem redraws_list : Redraws (list resource pascal) := by
  unfold list
  cases resource.post? with
  | none => exact Redraws.unsupported
  | some storage =>
      apply Redraws.ofBody
      intro first second nameEq
      simp [nameEq]

theorem redraws_get : Redraws (get resource pascal identity) := by
  unfold get
  cases resource.post? with
  | none => exact Redraws.unsupported
  | some storage =>
      apply Redraws.bind
      intro resolved
      apply Redraws.ofBody
      simp

theorem redraws_create : Redraws (create resource pascal) := by
  unfold create
  cases resource.post? with
  | none => exact Redraws.unsupported
  | some storage =>
      apply Redraws.ofBody
      simp [primeEvent]

theorem redraws_update : Redraws (update resource pascal identity) := by
  unfold update
  cases resource.post? with
  | none => exact Redraws.unsupported
  | some storage =>
      apply Redraws.ofBody
      simp [primeEvent]

theorem redraws_delete : Redraws (delete resource pascal identity) := by
  unfold delete
  cases resource.post? with
  | none => exact Redraws.unsupported
  | some storage =>
      apply Redraws.ofBody
      simp [staleEvent]

/-- The handler of a post is redrawn, whatever the route. -/
theorem redraws : Redraws (handler resource pascal kind) := by
  unfold handler
  cases kind with
  | list => exact redraws_list resource pascal
  | create => exact redraws_create resource pascal
  | custom => exact Redraws.unsupported
  | get =>
      cases resource.identity with
      | none => exact Redraws.unsupported
      | some identity => exact redraws_get resource pascal identity
  | update =>
      cases resource.identity with
      | none => exact Redraws.unsupported
      | some identity => exact redraws_update resource pascal identity
  | remove =>
      cases resource.identity with
      | none => exact Redraws.unsupported
      | some identity => exact redraws_delete resource pascal identity

end Post

theorem redraws_supported : Redraws (supported resource pascal route kind) := by
  unfold supported
  cases resource.storage with
  | none => exact Redraws.unsupported
  | some storage =>
      cases storage with
      | post storage => exact Post.redraws resource pascal kind
      | transient => exact Transient.redraws resource pascal route kind
      | option name => exact Single.redraws pascal route kind
      | taxonomy name hierarchical => exact Term.redraws resource pascal route kind

/-- The handler of any route, composed with other metadata. -/
theorem ofRoute_redraw {first second : Metadata} (nameEq : first.name = second.name) :
    ofRoute resource pascal route kind second =
      (ofRoute resource pascal route kind first).map (redraw second) := by
  rw [ofRoute, ofRoute, redraws_supported resource pascal route kind first second nameEq]
  cases supported resource pascal route kind first with
  | error error => rfl
  | ok handler => cases handler <;> rfl

end Handler

/-! ## Controllers -/

/-- Computations that begin alike can be compared by what follows. -/
theorem map_bind_congr {ε α β γ : Type} {image : β → γ} {start : Except ε α}
    {next next' : α → Except ε β}
    (each : ∀ value, (next value).map image = (next' value).map image) :
    (start >>= next).map image = (start >>= next').map image := by
  cases start with
  | error error => rfl
  | ok value => exact each value

/-- Computations that begin alike but for an image can be compared by what follows. -/
theorem map_bind_map_congr {ε α β γ δ : Type} {image : β → γ} {start : Except ε α} {f : α → δ}
    {next : α → Except ε β} {next' : δ → Except ε β}
    (each : ∀ value, start = .ok value → (next value).map image = (next' (f value)).map image) :
    (start >>= next).map image = (start.map f >>= next').map image := by
  cases start with
  | error error => rfl
  | ok value => exact each value rfl

namespace Controller

open Ir

/-- The method of an endpoint is the same with other metadata, and its events are redrawn. -/
theorem Endpoint.method_redraw (resource : Resource) (endpoint : Endpoint)
    {first second : Metadata} (nameEq : first.name = second.name)
    (tagsEq : ∀ route, second.tagsFor route = first.tagsFor route) :
    endpoint.method resource second = (endpoint.method resource first).map
      (Prod.map id (List.map (CacheEvent.redraw second))) := by
  rw [Endpoint.method, Endpoint.method, Handler.ofRoute_redraw _ _ _ _ nameEq, Endpoint.doc,
    Endpoint.doc, tagsEq]
  cases Handler.ofRoute resource (Text.pascalCase resource.name) endpoint.route endpoint.kind
      first with
  | error error => rfl
  | ok handler => cases Php.Method.of endpoint.handler <;> rfl

/-- The events of all handlers of a resource are drawn from its metadata. -/
theorem drawn_of_mapM_method {resource : Resource} {metadata : Metadata}
    {handlers : List (Php.Method × List CacheEvent)}
    (composed : (endpoints resource).mapM (Endpoint.method resource metadata) = .ok handlers) :
    Drawn metadata (handlers.flatMap (·.2)) := by
  intro event member
  obtain ⟨⟨method, events⟩, handlerMem, eventMem⟩ := List.mem_flatMap.mp member
  obtain ⟨endpoint, -, methodEq⟩ := exists_mem_of_mapM_eq_ok composed _ handlerMem
  exact segments_of_method methodEq event eventMem

/-! ## The documents of controllers -/

/-- Segments with the same spellings are spelled alike in a manifest. -/
theorem spelled_segments {first second : List Segment}
    (same : first.map Segment.spelling = second.map Segment.spelling) :
    (Json.arr (first.map Segment.toJson)).spelled =
      (Json.arr (second.map Segment.toJson)).spelled := by
  have texts : ∀ segments : List Segment, (Json.arr (segments.map Segment.toJson)).spelled =
      .arr ((segments.map Segment.spelling).map .str) := by
    intro segments
    rw [spelled_arr, List.map_map, List.map_map]
    congr 1
    exact List.map_congr_left fun segment _ => segment.isScalar_toJson.spelled_eq
  rw [texts, texts, same]

theorem map_spelling_getD (segments : Option (List Segment)) :
    (segments.getD []).map Segment.spelling =
      (segments.map (List.map Segment.spelling)).getD [] := by
  cases segments <;> rfl

section Alike

variable {first second : Resource}

/-- Alike resources spell the segments of a scope alike. -/
theorem spellings_cacheSegments (alike : first.cacheKeys.Alike second.cacheKeys)
    (kind : RouteKind) :
    (cacheSegments first.cacheKeys kind).map (List.map Segment.spelling) =
      (cacheSegments second.cacheKeys kind).map (List.map Segment.spelling) := by
  rw [cacheSegments, cacheSegments, Option.map_map, Option.map_map]
  cases kind.operation with
  | none => rfl
  | some operation =>
      rw [Option.map_some, Option.map_some, Function.comp_apply, Function.comp_apply,
        map_spelling_getD, map_spelling_getD, Option.map_map, Option.map_map]
      exact congrArg (fun spellings => some (spellings.getD [])) (alike operation)

theorem map_kind_routes_alike (alike : first.Alike second) :
    (Metadata.ofResource second).routes.map (·.kind) =
      (Metadata.ofResource first).routes.map (·.kind) := by
  rw [map_kind_routes, map_kind_routes, alike.eq]
  rfl

theorem spellings_segmentsFor (alike : first.Alike second) (kind : RouteKind) :
    ((Metadata.ofResource first).segmentsFor kind).map Segment.spelling =
      ((Metadata.ofResource second).segmentsFor kind).map Segment.spelling := by
  have segments := spellings_cacheSegments alike.cacheKeys kind
  rw [segmentsFor_ofResource, segmentsFor_ofResource, map_kind_routes_alike alike]
  split
  · rw [map_spelling_getD, map_spelling_getD, segments]
  · rfl

/-- Alike resources spell the metadata of a route alike. -/
theorem spelled_routeMetadata (alike : first.Alike second) (kind : RouteKind) (route : Route) :
    (routeMetadata first kind route).toJson.spelled =
      (routeMetadata second kind route).toJson.spelled := by
  have tags : routeTags second kind = routeTags first kind := by
    rw [alike.eq]
    rfl
  have segments := spellings_cacheSegments alike.cacheKeys kind
  rw [RouteMetadata.toJson, RouteMetadata.toJson, routeMetadata, routeMetadata, tags]
  cases firstSegments : cacheSegments first.cacheKeys kind with
  | none =>
      cases secondSegments : cacheSegments second.cacheKeys kind with
      | none => rfl
      | some segments' => simp [firstSegments, secondSegments] at segments
  | some segments' =>
      cases secondSegments : cacheSegments second.cacheKeys kind with
      | none => simp [firstSegments, secondSegments] at segments
      | some others =>
          rw [firstSegments, secondSegments, Option.map_some, Option.map_some,
            Option.some.injEq] at segments
          simp only [spelled_obj, Keyed.mapValues, List.map_append, Option.map_some,
            Option.toList_some, List.map_cons, List.map_nil, spelled_segments segments]

/-- An event and its redrawing from an alike resource are spelled alike. -/
theorem spelled_event (alike : first.Alike second) {event : CacheEvent}
    (drawn : event.segments = (Metadata.ofResource first).segmentsFor event.scope) :
    event.toJson.spelled =
      (event.redraw (Metadata.ofResource second)).toJson.spelled := by
  have segments := spelled_segments (spellings_segmentsFor alike event.scope)
  rw [CacheEvent.toJson, CacheEvent.toJson, drawn]
  simp only [spelled_obj, Keyed.mapValues, List.map_append, List.map_cons, segments]
  rfl

/-- What is made of a composed controller: its file, and its document up to spelling. -/
structure Shown where
  className : String
  file : Php.File
  name : String
  routes : Nat
  document : Json

/-- What is made of a composed controller. -/
def Composed.shown (composed : Composed) : Shown where
  className := composed.className
  file := composed.file
  name := composed.metadata.name
  routes := composed.metadata.routes.length
  document := composed.metadata.toJson.spelled

theorem spelled_routes (alike : first.Alike second) :
    (Metadata.ofResource first).routes.map (·.toJson.spelled) =
      (Metadata.ofResource second).routes.map (·.toJson.spelled) := by
  have kinds : routeKinds second = routeKinds first := by
    rw [alike.eq]
    rfl
  have routes : second.routes = first.routes := by rw [alike.eq]
  rw [Metadata.ofResource, Metadata.ofResource, List.map_zipWith, List.map_zipWith, kinds, routes]
  congr 1
  funext kind route
  exact spelled_routeMetadata alike kind route

/-- Noted events are spelled alike when they are drawn from the other resource. -/
theorem spelled_events (alike : first.Alike second) (defined : first.Defined)
    (defined' : second.Defined) {events : List CacheEvent}
    (drawn : Drawn (Metadata.ofResource first) events) :
    ((Metadata.ofResource first).note events).cache.events.map (·.toJson.spelled) =
      ((Metadata.ofResource second).note
        (events.map (CacheEvent.redraw (Metadata.ofResource second)))).cache.events.map
          (·.toJson.spelled) := by
  have start : Drawn (Metadata.ofResource first) (Metadata.ofResource first).cache.events := nofun
  have plans := CachePlan.redraw_foldl_note (defined_segmentsFor defined)
    (defined_segmentsFor defined') start drawn
  rw [Metadata.note, Metadata.note]
  dsimp only
  have startEq : (Metadata.ofResource second).cache =
      (Metadata.ofResource first).cache.redraw (Metadata.ofResource second) := rfl
  rw [startEq, ← plans, CachePlan.redraw, List.map_map]
  apply List.map_congr_left
  intro event member
  apply spelled_event alike
  rcases CachePlan.mem_events_foldl_note member with known | new
  · exact start event known
  · exact drawn event new

theorem Metadata.spelled_toJson (metadata : Metadata) :
    metadata.toJson.spelled =
      .obj [("kind", (Json.str "resource-controller").spelled),
        ("name", (Json.str metadata.name).spelled),
        ("identity", (Json.ofOption Identity.toJson metadata.identity).spelled),
        ("routes", .arr (metadata.routes.map (·.toJson.spelled))),
        ("cache", .obj [("events", .arr (metadata.cache.events.map (·.toJson.spelled)))])] := by
  rw [toJson, CachePlan.toJson]
  simp only [spelled_obj, spelled_arr, Keyed.mapValues, List.map_cons, List.map_nil, List.map_map]
  rfl

/-- Metadata with events and their redrawing from an alike resource are spelled alike. -/
theorem spelled_note (alike : first.Alike second) (defined : first.Defined)
    (defined' : second.Defined) {events : List CacheEvent}
    (drawn : Drawn (Metadata.ofResource first) events) :
    ((Metadata.ofResource first).note events).toJson.spelled =
      ((Metadata.ofResource second).note
        (events.map (CacheEvent.redraw (Metadata.ofResource second)))).toJson.spelled := by
  have names : (Metadata.ofResource second).name = (Metadata.ofResource first).name := by
    rw [alike.eq]
    rfl
  have identities : (Metadata.ofResource second).identity =
      (Metadata.ofResource first).identity := by
    rw [alike.eq]
    rfl
  rw [Metadata.spelled_toJson, Metadata.spelled_toJson, spelled_events alike defined defined' drawn]
  dsimp only [Metadata.note]
  rw [names, identities, spelled_routes alike]

/-- The methods of alike resources are the same, with the events drawn from the other resource. -/
theorem mapM_method_alike (alike : first.Alike second) :
    (endpoints second).mapM (Endpoint.method second (Metadata.ofResource second)) =
      ((endpoints first).mapM (Endpoint.method first (Metadata.ofResource first))).map
        (List.map (Prod.map id (List.map (CacheEvent.redraw (Metadata.ofResource second))))) := by
  have names : (Metadata.ofResource first).name = (Metadata.ofResource second).name := by
    rw [alike.eq]
    rfl
  have tags : ∀ route, (Metadata.ofResource second).tagsFor route =
      (Metadata.ofResource first).tagsFor route := by
    intro route
    rw [tagsFor_ofResource, tagsFor_ofResource, alike.eq]
    rfl
  rw [← mapM_eq_map_mapM fun endpoint => Endpoint.method_redraw first endpoint names tags]
  rw [alike.eq]
  rfl

/-- Controllers of alike resources show the same. -/
theorem shown_compose {ir other : Ir} (slug : ir.info.slug = other.info.slug)
    (php : ir.php = other.php) (alike : first.Alike second) (defined : first.Defined)
    (defined' : second.Defined) :
    (compose ir first).map Composed.shown = (compose other second).map Composed.shown := by
  rw [compose, compose, mapM_method_alike alike, slug, php]
  have counts : (Metadata.ofResource first).routes.length =
      (Metadata.ofResource second).routes.length := by
    simpa using congrArg List.length (spelled_routes alike)
  apply map_bind_map_congr
  intro handlers handlersEq
  have documents := spelled_note alike defined defined' (drawn_of_mapM_method handlersEq)
  have methods : (handlers.map (Prod.map id
      (List.map (CacheEvent.redraw (Metadata.ofResource second))))).map (·.1) =
      handlers.map (·.1) := by
    rw [List.map_map]
    rfl
  have events : (handlers.map (Prod.map id
      (List.map (CacheEvent.redraw (Metadata.ofResource second))))).flatMap (·.2) =
      (handlers.flatMap (·.2)).map (CacheEvent.redraw (Metadata.ofResource second)) := by
    rw [List.flatMap_map, List.map_flatMap]
    rfl
  rw [methods, events]
  generalize (handlers.flatMap (·.2)).map (CacheEvent.redraw (Metadata.ofResource second)) =
    redrawnEvents at documents ⊢
  -- What is left of the two computations differs in nothing but cache keys, which it does not read.
  obtain ⟨keys, warnings, rfl⟩ : ∃ keys warnings,
      second = { first with cacheKeys := keys, warnings := warnings } := ⟨_, _, alike.eq⟩
  apply map_bind_congr
  intro decl
  apply map_bind_congr
  intro helpers
  apply map_bind_congr
  intro space
  apply map_bind_congr
  intro uses
  apply congrArg Except.ok
  rw [Composed.shown, Composed.shown, Shown.mk.injEq]
  exact ⟨rfl, rfl, rfl, counts, documents⟩

end Alike

end Controller

end RestPlugin
