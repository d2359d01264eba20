import RestPlugin.Handler.Noting
import RestPlugin.Proofs.Controller.Redraw
import RestPlugin.Proofs.Handler.Markers

/-!
# Composing beside the metadata is atomic

A listing notes its event before its last statements are composed.  These ask for no more of the
name of the resource than the query did, so nothing fails any more once the event is there, and a
listing does the same as a composition that notes its events at the end.  All composers therefore
either leave the metadata as it was, or add at most two events to its cache plan.
-/

namespace RestPlugin

open Controller Ir Php Snippet Text

/-! ## Noted events -/

/-- The events that a plan gets are some of those that were to be noted, in their order, and none of
them is the same as an event before it. -/
theorem Controller.CachePlan.exists_added (plan : CachePlan) (events : List CacheEvent) :
    ∃ added, added.Sublist events ∧
      events.foldl CachePlan.note plan = ⟨plan.events ++ added⟩ ∧
      ∀ before event after, added = before ++ event :: after →
        ∀ other ∈ plan.events ++ before, other.same event = false := by
  induction events generalizing plan with
  | nil => exact ⟨[], .slnil, by simp, by simp⟩
  | cons first events ih =>
      obtain ⟨added, among, plansEq, isNew⟩ := ih (plan.note first)
      rw [List.foldl_cons, plansEq]
      by_cases known : plan.events.any (·.same first) = true
      · rw [note, if_pos known] at isNew ⊢
        exact ⟨added, among.cons _, rfl, isNew⟩
      · rw [note, if_neg known] at isNew ⊢
        refine ⟨first :: added, among.cons_cons _, by simp, ?_⟩
        intro before event after split other member
        rcases List.cons_eq_append_iff.mp split with ⟨rfl, here⟩ | ⟨later, rfl, rest⟩
        · obtain ⟨rfl, -⟩ := List.cons.inj here
          rw [List.append_nil] at member
          simpa using mt (List.any_eq_true.mpr ⟨other, member, ·⟩) known
        · exact isNew later event after rest other (by simpa using member)

/-- An event without undefined numbers is the same as itself. -/
theorem Controller.CacheEvent.same_self {event : CacheEvent}
    (defined : ∀ segment ∈ event.segments, segment.Defined) : event.same event = true := by
  simp [same, sameSegments_self defined]

namespace Handler

/-! ## Composing step by step -/

namespace Noting

variable {α β : Type} (host : Metadata)

@[simp]
theorem beside_pure (value : α) : (pure value : Noting α).beside host = (.ok value, host) := rfl

@[simp]
theorem beside_get : (get : Noting Metadata).beside host = (.ok host, host) := rfl

@[simp]
theorem beside_liftM (made : Build α) : (liftM made : Noting α).beside host = (made, host) := by
  cases made <;> rfl

/-- Of two compositions, the second one finds what the first one noted. -/
theorem beside_bind (first : Noting α) (next : α → Noting β) :
    (first >>= next).beside host = (match first.beside host with
      | (.ok value, noted) => (next value).beside noted
      | (.error error, noted) => (.error error, noted)) := by
  simp only [beside, ExceptT.run_bind, StateT.run_bind]
  rcases first.run.run host with ⟨error | value, noted⟩ <;> rfl

theorem beside_map (first : Noting α) (f : α → β) :
    (f <$> first).beside host = ((first.beside host).1.map f, (first.beside host).2) := by
  rw [← bind_pure_comp, beside_bind]
  rcases first.beside host with ⟨error | value, noted⟩ <;> rfl

/-- Computations beside a host are equal if they do the same beside every host. -/
theorem ext {first second : Noting α} (same : ∀ host, first.beside host = second.beside host) :
    first = second :=
  ExceptT.ext (funext same)

end Noting

namespace Composer

variable (resource : Resource) (pascal : String) (route : Route) (kind : RouteKind)
  (identity : Identity)

theorem beside_atEnd (compose : Metadata → Composed) (host : Metadata) :
    (atEnd compose).beside host =
      ((compose host).map (Option.map Handler.body), noted host (compose host)) := by
  rw [atEnd]
  simp only [Noting.beside_bind, Noting.beside_get, Noting.beside_liftM]
  rcases compose host with error | _ | handler <;> rfl

/-! ## Listings of posts -/

/-- If the call of one method of a resource can be composed, so can that of another. -/
theorem succeeds_prepared_of_queryArgs {pascal : String} {statuses : List String} {args : Stmt}
    (made : queryArgs pascal statuses = .ok args) (post : Expr) :
    Succeeds (Post.prepared pascal post) := by
  obtain ⟨type, typeEq, -⟩ := bind_eq_ok_iff.mp made
  have checked : isIdentifier ("get" ++ (pascal ++ "PostType")) = true := by
    rw [← String.append_assoc]
    exact (eq_of_thisCall_eq_ok typeEq).2
  have word : ∀ c ∈ pascal.toList, isWord c = true := fun c member =>
    (isIdentifier_append_iff (by decide)).mp checked c (by simp [member])
  have begun : isIdentifier ("prepare" ++ pascal) = true :=
    (isIdentifier_append_iff (by decide)).mpr word
  have rest : "Response".toList.all isWord = true := by decide
  exact ⟨_, thisCall_eq_ok (isIdentifier_append begun (List.all_eq_true.mp rest)) _⟩

/-- Noting the event of a listing with its query is noting it at the end. -/
theorem list_eq_atEnd : list resource pascal = atEnd (Post.list resource pascal) := by
  apply Noting.ext
  intro host
  rw [beside_atEnd, list, Post.list]
  cases resource.post? with
  | none => rfl
  | some storage =>
      dsimp only
      rw [Post.listBody]
      -- up to the query nothing is noted, whatever fails
      cases argsEq : queryArgs pascal storage.statuses with
      | error error => rfl
      | ok args =>
          cases metaQuery storage.metaFields with
          | error error => rfl
          | ok metaClauses =>
              cases taxonomyQuery storage.taxonomies with
              | error error => rfl
              | ok termClauses =>
                  obtain ⟨item, itemEq⟩ := succeeds_prepared_of_queryArgs argsEq (.var "post")
                  rw [itemEq]
                  rfl

theorem post_eq_atEnd : post resource pascal kind = atEnd (Post.handler resource pascal kind) := by
  unfold post Post.handler
  cases kind with
  | list => exact list_eq_atEnd resource pascal
  | create => rfl
  | custom => rfl
  | get | update | remove => cases resource.identity <;> rfl

/-- All handlers of storages are composed as if they noted their events at the end. -/
theorem supported_eq_atEnd :
    supported resource pascal route kind =
      atEnd (Handler.supported resource pascal route kind) := by
  unfold supported Handler.supported
  cases resource.storage with
  | none => rfl
  | some storage =>
      cases storage with
      | post storage => exact post_eq_atEnd resource pascal kind
      | transient | option name | taxonomy name hierarchical => rfl

theorem beside_ofRoute (host : Metadata) :
    (ofRoute resource pascal route kind).beside host =
      ((Handler.ofRoute resource pascal route kind host).map Handler.body,
        noted host (Handler.supported resource pascal route kind host)) := by
  rw [ofRoute, Handler.ofRoute, Noting.beside_bind, supported_eq_atEnd, beside_atEnd]
  rcases Handler.supported resource pascal route kind host with error | _ | handler <;> rfl

/-! ## Events of one handler -/

end Composer

/-- Whatever is composed has at most two events. -/
def FewEvents (composed : Composed) : Prop :=
  Ensures (fun handler => ∀ found ∈ handler, found.events.length ≤ 2) composed

theorem fewEvents_none : FewEvents (.ok none) := ensures_ok (by simp)

theorem fewEvents_some {body : List Stmt} {events : List CacheEvent} (few : events.length ≤ 2) :
    FewEvents (.ok (some ⟨body, events⟩)) :=
  ensures_ok (by simpa using few)

section FewEvents

variable (resource : Resource) (pascal : String) (route : Route) (kind : RouteKind)
  (identity : Identity) (metadata : Metadata)

theorem Transient.fewEvents :
    FewEvents (Transient.handler resource pascal route kind metadata) := by
  unfold Transient.handler
  split
  · exact ensures_bind fun _ => ensures_bind fun _ => ensures_bind fun _ => fewEvents_some (by simp)
  · exact fewEvents_none

theorem Single.fewEvents : FewEvents (Single.handler pascal route kind metadata) :=
  ensures_bind fun _ => fewEvents_some (by simp)

theorem Term.fewEvents : FewEvents (Term.handler resource pascal route kind metadata) := by
  unfold Term.handler
  split
  · exact ensures_bind fun _ => fewEvents_some (by simp)
  · split
    · exact ensures_bind fun _ => fewEvents_some (by simp)
    · exact fewEvents_none

/-- The composers of posts note at most two events. -/
theorem Post.fewEvents_of_mem_composers {composed : Composed}
    (member : composed ∈ Post.composers resource pascal identity metadata) :
    FewEvents composed := by
  have isNone := eq_none_iff_of_mem_composers member
  simp only [composers, List.mem_cons, List.not_mem_nil, or_false] at member
  cases stored : resource.post? with
  | none =>
      rw [isNone.mpr stored]
      exact fewEvents_none
  | some storage =>
      rcases member with rfl | rfl | rfl | rfl | rfl
      · rw [list, stored]
        exact ensures_bind fun _ => fewEvents_some (by simp)
      · rw [get, stored]
        exact ensures_bind fun _ => ensures_bind fun _ => fewEvents_some (by simp)
      · rw [create, stored]
        exact ensures_bind fun _ => fewEvents_some (by simp)
      · rw [update, stored]
        exact ensures_bind fun _ => fewEvents_some (by simp)
      · rw [delete, stored]
        exact ensures_bind fun _ => fewEvents_some (by simp)

theorem Post.fewEvents : FewEvents (Post.handler resource pascal kind metadata) := by
  unfold handler
  split
  case h_6 => exact fewEvents_none
  case h_1 | h_2 =>
      exact fewEvents_of_mem_composers resource pascal ⟨.number, "id"⟩ metadata
        (by simp [composers])
  all_goals
    rename_i identity _
    exact fewEvents_of_mem_composers resource pascal identity metadata (by simp [composers])

theorem fewEvents_supported : FewEvents (supported resource pascal route kind metadata) := by
  unfold supported
  split
  · exact fewEvents_none
  · exact Post.fewEvents resource pascal kind metadata
  · exact Transient.fewEvents resource pascal route kind metadata
  · exact Single.fewEvents pascal route kind metadata
  · exact Term.fewEvents resource pascal route kind metadata

end FewEvents

/-! ## Atomic composition -/

namespace Composer

variable (resource : Resource) (pascal : String) (route : Route) (kind : RouteKind)
  (identity : Identity)

/-- The composers of all storages, and the one that answers every route. -/
def composers : List Composer :=
  [list resource pascal,
    atEnd (Post.get resource pascal identity),
    atEnd (Post.create resource pascal),
    atEnd (Post.update resource pascal identity),
    atEnd (Post.delete resource pascal identity),
    atEnd (Transient.handler resource pascal route kind),
    atEnd (Single.handler pascal route kind),
    atEnd (Term.handler resource pascal route kind),
    some <$> ofRoute resource pascal route kind]

theorem map_ofRoute_eq_atEnd :
    some <$> ofRoute resource pascal route kind =
      atEnd fun host => (Handler.ofRoute resource pascal route kind host).map some := by
  apply Noting.ext
  intro host
  rw [Noting.beside_map, beside_ofRoute, beside_atEnd, Handler.ofRoute]
  rcases Handler.supported resource pascal route kind host with error | _ | handler <;> rfl

/-- Every composer notes what it notes as if it did so at the end, and that is little. -/
theorem exists_eq_atEnd {composer : Composer}
    (member : composer ∈ composers resource pascal route kind identity) :
    ∃ compose, composer = atEnd compose ∧ ∀ host, FewEvents (compose host) := by
  have ofPost {compose : Metadata → Composed}
      (known : ∀ host, compose host ∈ Post.composers resource pascal identity host) :
      ∀ host, FewEvents (compose host) := fun host =>
    Post.fewEvents_of_mem_composers resource pascal identity host (known host)
  simp only [composers, List.mem_cons, List.not_mem_nil, or_false] at member
  rcases member with rfl | rfl | rfl | rfl | rfl | rfl | rfl | rfl | rfl
  · exact ⟨_, list_eq_atEnd resource pascal, ofPost fun _ => by simp [Post.composers]⟩
  · exact ⟨_, rfl, ofPost fun _ => by simp [Post.composers]⟩
  · exact ⟨_, rfl, ofPost fun _ => by simp [Post.composers]⟩
  · exact ⟨_, rfl, ofPost fun _ => by simp [Post.composers]⟩
  · exact ⟨_, rfl, ofPost fun _ => by simp [Post.composers]⟩
  · exact ⟨_, rfl, Transient.fewEvents resource pascal route kind⟩
  · exact ⟨_, rfl, Single.fewEvents pascal route kind⟩
  · exact ⟨_, rfl, Term.fewEvents resource pascal route kind⟩
  · refine ⟨_, map_ofRoute_eq_atEnd resource pascal route kind, fun host => ?_⟩
    intro made madeEq
    obtain ⟨handler, handlerEq, rfl⟩ := map_eq_ok_iff.mp madeEq
    obtain ⟨found, foundEq, handlerEq⟩ := bind_eq_ok_iff.mp handlerEq
    cases handlerEq
    cases found with
    | none => simp
    | some handler => exact fewEvents_supported resource pascal route kind host _ foundEq

/-- Whatever the storage, the route, the name and the metadata: a composer that fails or does not
support the route leaves the metadata as it was.  One that gives statements adds at most two events
behind the noted ones and changes nothing else; no new event is the same as one before it, and none
without undefined numbers equals one before it. -/
theorem composers_atomic (host : Metadata) :
    ∀ composer ∈ composers resource pascal route kind identity,
      (∀ error, (composer.beside host).1 = .error error → (composer.beside host).2 = host) ∧
      ((composer.beside host).1 = .ok none → (composer.beside host).2 = host) ∧
      ∀ body, (composer.beside host).1 = .ok (some body) →
        ∃ added, added.length ≤ 2 ∧
          (composer.beside host).2 = { host with cache := ⟨host.cache.events ++ added⟩ } ∧
          ∀ before event after, added = before ++ event :: after →
            (∀ other ∈ host.cache.events ++ before, other.same event = false) ∧
            ((∀ segment ∈ event.segments, segment.Defined) →
              event ∉ host.cache.events ++ before) := by
  intro composer member
  obtain ⟨compose, rfl, few⟩ := exists_eq_atEnd resource pascal route kind identity member
  rw [beside_atEnd]
  cases made : compose host with
  | error error => exact ⟨fun _ _ => rfl, fun _ => rfl, nofun⟩
  | ok found =>
      cases found with
      | none => exact ⟨fun _ _ => rfl, fun _ => rfl, nofun⟩
      | some handler =>
          refine ⟨nofun, nofun, fun body _ => ?_⟩
          obtain ⟨added, among, plansEq, isNew⟩ := host.cache.exists_added handler.events
          refine ⟨added, among.length_le.trans (few host _ made handler rfl), ?_, ?_⟩
          · exact congrArg (fun cache => { host with cache := cache }) plansEq
          · intro before event after split
            have differs := isNew before event after split
            refine ⟨differs, fun defined known => ?_⟩
            exact absurd (CacheEvent.same_self defined) (by simp [differs event known])

/-- A listing under a name that is no identifier leaves the metadata as they were, and one under a
good name adds one event. -/
theorem composers_atomic_leaflet :
    let host := Metadata.ofResource Post.leaflet
    ((list Post.leaflet "no name").beside host).2 = host ∧
      ∃ event, ((list Post.leaflet "Leaflet").beside host).2 =
        { host with cache := ⟨[event]⟩ } := by
  intro host
  have atomic (pascal : String) :=
    composers_atomic Post.leaflet pascal default .list ⟨.number, "id"⟩ host
      (list Post.leaflet pascal) (by simp [composers])
  have refused : ((list Post.leaflet "no name").beside host).1.toBool = false := by decide +kernel
  have accepted : (((list Post.leaflet "Leaflet").beside host).1.toOption.join).isSome = true := by
    decide +kernel
  constructor
  · cases failed : ((list Post.leaflet "no name").beside host).1 with
    | error error => exact (atomic "no name").1 error failed
    | ok body =>
        rw [failed] at refused
        cases refused
  · obtain ⟨body, bodyEq⟩ := Option.isSome_iff_exists.mp accepted
    have made := eq_ok_of_toOption (Option.join_eq_some_iff.mp bodyEq)
    obtain ⟨added, -, leaves, -⟩ := (atomic "Leaflet").2.2 body made
    have events : ((list Post.leaflet "Leaflet").beside host).2.cache.events.length = 1 := by
      decide +kernel
    rw [leaves] at events
    have single : added.length = 1 := events
    obtain ⟨event, rfl⟩ := List.length_eq_one_iff.mp single
    exact ⟨event, leaves⟩

/-! ## All routes of a controller -/

theorem note_append (host : Metadata) (first later : List CacheEvent) :
    host.note (first ++ later) = (host.note first).note later := by
  rw [Metadata.note, List.foldl_append]
  rfl

/-- A handler does not depend on the events that were noted before it. -/
theorem method_note (host : Metadata) (events : List CacheEvent) :
    Endpoint.method resource (host.note events) = Endpoint.method resource host := rfl

/-- The composition of one endpoint beside the metadata gives the body of its handler and notes its
events. -/
theorem beside_ofRoute_of_method {host : Metadata} {endpoint : Endpoint}
    {made : Php.Method × List CacheEvent} (methodEq : endpoint.method resource host = .ok made) :
    ∃ body, (ofRoute resource (pascalCase resource.name) endpoint.route endpoint.kind).beside host =
      (.ok body, host.note made.2) ∧ made.1.body = endpoint.checks ++ body := by
  simp only [Endpoint.method, bind_eq_ok_iff] at methodEq
  obtain ⟨handler, handlerEq, method, -, methodEq⟩ := methodEq
  cases methodEq
  refine ⟨handler.body, ?_, rfl⟩
  rw [beside_ofRoute, handlerEq]
  obtain ⟨found, foundEq, handlerEq⟩ := bind_eq_ok_iff.mp handlerEq
  rw [foundEq]
  cases handlerEq
  cases found <;> rfl

/-- The handlers of endpoints, composed one after another beside a host, leave all their
events with it. -/
theorem beside_mapM_ofRoute {host : Metadata} {endpoints : List Endpoint}
    {handlers : List (Php.Method × List CacheEvent)}
    (done : endpoints.mapM (Endpoint.method resource host) = .ok handlers) :
    ∃ bodies, (endpoints.mapM fun endpoint =>
        ofRoute resource (pascalCase resource.name) endpoint.route endpoint.kind).beside host =
      (.ok bodies, host.note (handlers.flatMap (·.2))) := by
  induction endpoints generalizing host handlers with
  | nil =>
      cases done
      exact ⟨[], rfl⟩
  | cons endpoint endpoints ih =>
      simp only [List.mapM_cons, bind_eq_ok_iff] at done
      obtain ⟨first, firstEq, later, laterEq, done⟩ := done
      cases done
      obtain ⟨body, bodyEq, -⟩ := beside_ofRoute_of_method resource firstEq
      rw [← method_note resource host first.2] at laterEq
      obtain ⟨bodies, bodiesEq⟩ := ih laterEq
      refine ⟨body :: bodies, ?_⟩
      simp only [List.mapM_cons, Noting.beside_bind, bodyEq, bodiesEq, Noting.beside_pure]
      rw [List.flatMap_cons, note_append]

/-- A controller ends up with the metadata that its routes leave when they are composed one after
the other beside them. -/
theorem metadata_compose {ir : Ir} {composed : Controller.Composed}
    (done : compose ir resource = .ok composed) :
    ∃ bodies, ((endpoints resource).mapM fun endpoint =>
        ofRoute resource (pascalCase resource.name) endpoint.route endpoint.kind).beside
          (Metadata.ofResource resource) = (.ok bodies, composed.metadata) := by
  obtain ⟨pieces, rfl⟩ := exists_pieces_of_compose done
  exact beside_mapM_ofRoute resource pieces.handlers_eq

end Composer

end Handler

end RestPlugin
