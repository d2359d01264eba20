import RestPlugin.Proofs.Controller.Pieces
import RestPlugin.Proofs.Ir.Resource
import RestPlugin.Proofs.Number.Binary64

/-!
# Where cache segments come from

Every segment that a controller notes, for a route or in an event, stands in a cache key of its
resource, and there it was configured or is a default text.  So whatever holds of the configured
segments and of all texts holds of the noted ones.  Here this is said of the cache keys in general,
and of the noted segments for those whose numbers fit into 64 bits.
-/

namespace RestPlugin

open Number

/-- Whether the number of a segment, if it is one, fits into 64 bits.  The segments of a
configuration are of this kind by their type: whole numbers with a sign, and floats. -/
def Segment.Representable : Segment → Prop
  | int value => leastSigned ≤ value ∧ value ≤ greatestSigned
  | float value => value.Proper
  | bool _ | text _ => True

instance : DecidablePred Segment.Representable
  | .int value => inferInstanceAs (Decidable (leastSigned ≤ value ∧ value ≤ greatestSigned))
  | .float value => inferInstanceAs (Decidable value.Proper)
  | .bool _ | .text _ => .isTrue trivial

/-- Whether all configured segments of a resource are representable. -/
def Config.Resource.Representable (resource : Config.Resource) : Prop :=
  ∀ keys, resource.cacheKeys = some keys → ∀ operation segments,
    keys.at? operation = some segments → ∀ segment ∈ segments, segment.Representable

/-- Whether all configured segments are representable. -/
def Config.Loaded.Representable (loaded : Config.Loaded) : Prop :=
  ∀ entry ∈ loaded.config.resources, entry.2.Representable

/-! ## Cache keys -/

namespace Ir

/-- Whether the segments of all cache keys of a resource are representable. -/
def Resource.Representable (resource : Resource) : Prop :=
  ∀ operation key, resource.cacheKeys.at? operation = some key →
    ∀ segment ∈ key.segments, segment.Representable

/-- What holds of the configured segments and of all texts holds of the segments of a cache key. -/
theorem forall_mem_cacheKey {holds : Segment → Prop} (texts : ∀ value, holds (.text value))
    (name : String) {config : PerOperation (List Segment)}
    (configured : ∀ operation segments, config.at? operation = some segments →
      ∀ segment ∈ segments, holds segment) (operation : Operation) :
    ∀ segment ∈ (cacheKey name config operation).segments, holds segment := by
  rw [cacheKey]
  split
  · rename_i segments segmentsEq
    exact configured operation segments segmentsEq
  · intro segment member
    cases operation <;> simp [defaultSegments] at member <;> rcases member with rfl | rfl | rfl <;>
      exact texts _

/-- A derived cache key is that of its operation; writing operations may have none. -/
theorem eq_cacheKey_of_deriveCacheKeys {name : String}
    {config : Option (PerOperation (List Segment))} {routes : PerOperation Config.Route}
    {operation : Operation} {key : CacheKey}
    (derived : (deriveCacheKeys name config routes).at? operation = some key) :
    key = cacheKey name (config.getD {}) operation := by
  cases operation <;> simp only [deriveCacheKeys, CacheKeys.at?, Option.some.injEq,
    Option.ite_none_right_eq_some] at derived
  · exact derived.symm
  · exact derived.symm
  · exact derived.2.symm
  · exact derived.2.symm
  · exact derived.2.symm

/-- A property of all texts holds of derived cache segments if it holds of the configured ones. -/
theorem forall_mem_deriveCacheKeys {holds : Segment → Prop} (texts : ∀ value, holds (.text value))
    {resource : Config.Resource}
    (configured : ∀ keys, resource.cacheKeys = some keys → ∀ operation segments,
      keys.at? operation = some segments → ∀ segment ∈ segments, holds segment)
    {operation : Operation} {key : CacheKey}
    (derived : (deriveCacheKeys resource.name resource.cacheKeys resource.routes).at? operation =
      some key) : ∀ segment ∈ key.segments, holds segment := by
  rw [eq_cacheKey_of_deriveCacheKeys derived]
  apply forall_mem_cacheKey texts
  cases keysEq : resource.cacheKeys with
  | none =>
      intro operation segments absent
      cases operation <;> cases absent
  | some keys => exact configured keys keysEq

/-- The cache keys of a resource are derived from its configuration. -/
theorem cacheKeys_of_buildResource {slug key : String} {claims after : Claims}
    {resource : Config.Resource} {built : Resource}
    (resolved : buildResource slug claims key resource = .ok (built, after)) :
    built.cacheKeys = deriveCacheKeys resource.name resource.cacheKeys resource.routes := by
  rw [buildResource] at resolved
  simp only [bind_eq_ok_iff] at resolved
  obtain ⟨routes, routesEq, _, _, assigned, schemaEq, resolved⟩ := resolved
  cases resolved
  rfl

/-- What holds of all configured segments and of all texts holds of the segments of all cache
keys. -/
theorem forall_mem_of_buildResources {holds : Segment → Prop} (texts : ∀ value, holds (.text value))
    {loaded : Config.Loaded} {slug : String} {declared table : SchemaTable}
    {resources : List Resource}
    (configured : ∀ entry ∈ loaded.config.resources, ∀ keys, entry.2.cacheKeys = some keys →
      ∀ operation segments, keys.at? operation = some segments →
        ∀ segment ∈ segments, holds segment)
    (built : buildResources loaded slug declared = .ok (resources, table)) :
    ∀ resource ∈ resources, ∀ operation key, resource.cacheKeys.at? operation = some key →
      ∀ segment ∈ key.segments, holds segment := by
  intro resource member operation key keyEq
  obtain ⟨entry, entryMem, _, _, resolved⟩ := exists_origin_of_buildResources built resource member
  rw [cacheKeys_of_buildResource resolved] at keyEq
  exact forall_mem_deriveCacheKeys texts (configured entry entryMem) keyEq

/-- The resources of a representable configuration are representable. -/
theorem representable_of_buildResources {loaded : Config.Loaded} {slug : String}
    {declared table : SchemaTable} {resources : List Resource} (configured : loaded.Representable)
    (built : buildResources loaded slug declared = .ok (resources, table)) :
    ∀ resource ∈ resources, resource.Representable :=
  forall_mem_of_buildResources (fun _ => trivial) configured built

end Ir

/-! ## Metadata -/

namespace Controller

open Ir

/-- Whether the segments of the routes and events of a controller are representable. -/
structure Metadata.Representable (metadata : Metadata) : Prop where
  routes : ∀ route ∈ metadata.routes, ∀ segments, route.cacheSegments = some segments →
    ∀ segment ∈ segments, segment.Representable
  events : ∀ event ∈ metadata.cache.events, ∀ segment ∈ event.segments, segment.Representable

/-- The segments that a representable resource has for a scope are representable. -/
theorem representable_cacheSegments {resource : Resource} (keys : resource.Representable)
    {kind : RouteKind} {segments : List Segment}
    (segmentsEq : cacheSegments resource.cacheKeys kind = some segments) :
    ∀ segment ∈ segments, segment.Representable := by
  obtain ⟨operation, -, rfl⟩ := Option.map_eq_some_iff.mp segmentsEq
  cases keyEq : resource.cacheKeys.at? operation with
  | none => simp
  | some key => exact keys operation key keyEq

theorem Metadata.representable_ofResource {resource : Resource} (keys : resource.Representable) :
    (Metadata.ofResource resource).Representable where
  routes := by
    intro route member segments segmentsEq
    rw [Metadata.ofResource, ← List.map_uncurry_zip_eq_zipWith] at member
    obtain ⟨⟨kind, origin⟩, -, rfl⟩ := List.mem_map.mp member
    exact representable_cacheSegments keys segmentsEq
  events := by simp [Metadata.ofResource]

/-- The segments that representable metadata have for a scope are representable. -/
theorem Metadata.Representable.segmentsFor {metadata : Metadata}
    (representable : metadata.Representable) (kind : RouteKind) :
    ∀ segment ∈ metadata.segmentsFor kind, segment.Representable := by
  rw [Metadata.segmentsFor, Metadata.route?]
  cases found : metadata.routes.find? fun route => route.kind == kind with
  | none => simp
  | some route =>
      cases segmentsEq : route.cacheSegments with
      | none => simp [segmentsEq]
      | some segments =>
          simp only [Option.bind_some, segmentsEq, Option.getD_some]
          exact representable.routes route (List.mem_of_find?_eq_some found) segments segmentsEq

/-- Noting an event adds at most this event. -/
theorem CachePlan.mem_events_note {plan : CachePlan} {event other : CacheEvent}
    (member : other ∈ (plan.note event).events) : other ∈ plan.events ∨ other = event := by
  rw [CachePlan.note] at member
  split at member
  · exact Or.inl member
  · simpa using member

/-- Noting events adds at most these events. -/
theorem CachePlan.mem_events_foldl_note {plan : CachePlan} {events : List CacheEvent}
    {other : CacheEvent} (member : other ∈ (events.foldl CachePlan.note plan).events) :
    other ∈ plan.events ∨ other ∈ events := by
  induction events generalizing plan with
  | nil => exact Or.inl member
  | cons event events ih =>
      rcases ih member with earlier | later
      · rcases mem_events_note earlier with known | rfl
        · exact Or.inl known
        · exact Or.inr List.mem_cons_self
      · exact Or.inr (List.mem_cons_of_mem _ later)

/-- Noting events that are drawn from representable metadata keeps them representable. -/
theorem Metadata.Representable.note {metadata : Metadata} (representable : metadata.Representable)
    {events : List CacheEvent}
    (noted : ∀ event ∈ events, event.segments = metadata.segmentsFor event.scope) :
    (metadata.note events).Representable where
  routes := representable.routes
  events := by
    intro event member
    rcases CachePlan.mem_events_foldl_note member with known | new
    · exact representable.events event known
    · rw [noted event new]
      exact representable.segmentsFor event.scope

end Controller

/-! ## Events of handlers -/

namespace Handler

open Controller Ir Php

/-- Every event of a composed handler carries the segments that the metadata has for its scope. -/
def Accounts (metadata : Metadata) (composed : Composed) : Prop :=
  ∀ handler, composed = .ok (some handler) →
    ∀ event ∈ handler.events, event.segments = metadata.segmentsFor event.scope

variable (resource : Resource) (pascal : String) (route : Route) (kind : RouteKind)
  (metadata : Metadata)

namespace Accounts

variable {metadata}

theorem unsupported : Accounts metadata (.ok none) := by
  rintro handler ⟨⟩

/-- A handler whose events are made by the metadata accounts for them. -/
theorem ofEvents {body : List Stmt} {events : List CacheEvent}
    (drawn : ∀ event ∈ events, ∃ scope operation description,
      event = metadata.event scope operation description) :
    Accounts metadata (.ok (some ⟨body, events⟩)) := by
  rintro handler ⟨⟩ event member
  obtain ⟨scope, operation, description, rfl⟩ := drawn event member
  rfl

theorem bind {α : Type} {first : Build α} {next : α → Composed}
    (each : ∀ value, Accounts metadata (next value)) : Accounts metadata (first >>= next) := by
  intro handler composed
  obtain ⟨value, -, rest⟩ := bind_eq_ok_iff.mp composed
  exact each value handler rest

/-- A handler that computes its body accounts for events that are made by the metadata. -/
theorem ofBody {α : Type} {first : Build α} {body : α → List Stmt} {events : List CacheEvent}
    (drawn : ∀ event ∈ events, ∃ scope operation description,
      event = metadata.event scope operation description) :
    Accounts metadata (first >>= fun value => .ok (some ⟨body value, events⟩)) :=
  bind fun _ => ofEvents drawn

end Accounts

theorem Single.accounts : Accounts metadata (Single.handler pascal route kind metadata) := by
  unfold Single.handler
  apply Accounts.ofBody
  simp

theorem Transient.accounts :
    Accounts metadata (Transient.handler resource pascal route kind metadata) := by
  unfold Transient.handler
  split
  · apply Accounts.bind
    intro taken
    apply Accounts.bind
    intro key
    apply Accounts.ofBody
    simp
  · exact Accounts.unsupported

theorem Term.accounts : Accounts metadata (Term.handler resource pascal route kind metadata) := by
  unfold Term.handler
  split
  · apply Accounts.ofBody
    simp
  · split
    · apply Accounts.ofBody
      simp
    · exact Accounts.unsupported

namespace Post

variable (identity : Identity)

theorem accounts_list : Accounts metadata (list resource pascal metadata) := by
  unfold list
  split
  · exact Accounts.unsupported
  · apply Accounts.ofBody
    simp

theorem accounts_get : Accounts metadata (get resource pascal identity metadata) := by
  unfold get
  split
  · exact Accounts.unsupported
  · apply Accounts.bind
    intro resolved
    apply Accounts.ofBody
    simp

theorem accounts_create : Accounts metadata (create resource pascal metadata) := by
  unfold create
  split
  · exact Accounts.unsupported
  · apply Accounts.ofBody
    simp [primeEvent]

theorem accounts_update : Accounts metadata (update resource pascal identity metadata) := by
  unfold update
  split
  · exact Accounts.unsupported
  · apply Accounts.ofBody
    simp [primeEvent]

theorem accounts_delete : Accounts metadata (delete resource pascal identity metadata) := by
  unfold delete
  split
  · exact Accounts.unsupported
  · apply Accounts.ofBody
    simp [staleEvent]

theorem accounts : Accounts metadata (handler resource pascal kind metadata) := by
  unfold handler
  split
  · exact accounts_list resource pascal metadata
  · exact accounts_create resource pascal metadata
  · exact accounts_get resource pascal metadata _
  · exact accounts_update resource pascal metadata _
  · exact accounts_delete resource pascal metadata _
  · exact Accounts.unsupported

end Post

theorem accounts_supported :
    Accounts metadata (supported resource pascal route kind metadata) := by
  unfold supported
  split
  · exact Accounts.unsupported
  · exact Post.accounts resource pascal kind metadata
  · exact Transient.accounts resource pascal route kind metadata
  · exact Single.accounts pascal route kind metadata
  · exact Term.accounts resource pascal route kind metadata

variable {resource pascal route kind metadata}

theorem segments_of_ofRoute {handler : Handler}
    (composed : ofRoute resource pascal route kind metadata = .ok handler) :
    ∀ event ∈ handler.events, event.segments = metadata.segmentsFor event.scope := by
  rw [ofRoute, bind_eq_ok_iff] at composed
  obtain ⟨supported?, supportedEq, composed⟩ := composed
  cases composed
  cases supported? with
  | none => simp
  | some handler => exact accounts_supported resource pascal route kind metadata handler supportedEq

end Handler

/-! ## Controllers -/

namespace Controller

open Ir

/-- The events of the method of an endpoint carry the segments of their scopes. -/
theorem segments_of_method {resource : Resource} {metadata : Metadata} {endpoint : Endpoint}
    {method : Php.Method} {events : List CacheEvent}
    (composed : endpoint.method resource metadata = .ok (method, events)) :
    ∀ event ∈ events, event.segments = metadata.segmentsFor event.scope := by
  rw [Endpoint.method] at composed
  simp only [bind_eq_ok_iff] at composed
  obtain ⟨handler, handlerEq, decl, -, composed⟩ := composed
  cases composed
  exact Handler.segments_of_ofRoute handlerEq

/-- The metadata of a composed controller has representable segments if the cache keys of its
resource have. -/
theorem representable_of_compose {ir : Ir} {resource : Resource} {composed : Composed}
    (keys : resource.Representable) (done : compose ir resource = .ok composed) :
    composed.metadata.Representable := by
  obtain ⟨pieces, rfl⟩ := exists_pieces_of_compose done
  apply (Metadata.representable_ofResource keys).note
  intro event member
  obtain ⟨⟨method, events⟩, handlerMem, eventMem⟩ := List.mem_flatMap.mp member
  obtain ⟨endpoint, -, methodEq⟩ := exists_mem_of_mapM_eq_ok pieces.handlers_eq _ handlerMem
  exact segments_of_method methodEq event eventMem

end Controller

end RestPlugin
