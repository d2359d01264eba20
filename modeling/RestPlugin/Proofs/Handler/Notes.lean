import RestPlugin.Handler.Compose
import RestPlugin.Proofs.Except
import RestPlugin.Proofs.Php.Markers

/-!
# Comments of handlers

The only comments in the handlers of supported routes and in the methods they call are audit
markers, whose texts are fixed.  A stub carries the path of its route.
-/

namespace RestPlugin

open Controller Ir Php

namespace Snippet

/-- The audit markers that handlers carry, with their values. -/
def audits : List (Audit × String) :=
  [(.channel, "status-validation"), (.status, "normalise"), (.channel, "sync-meta"),
   (.metaFields, "update"), (.channel, "sync-taxonomies"), (.taxonomies, "update"),
   (.channel, "cache-priming"), (.cache, "prime"), (.cacheSegment, "prime")]

/-- The notes of the audit markers. -/
def auditNotes : List Note := stmtNotes (audits.map fun audit => audit.1.marker audit.2)

/-- The audit markers that a handler carries if it changes a post, in order. -/
def auditMarkers : List Stmt := audits.map fun audit => audit.1.marker audit.2

/-- The comments of statements are audit markers. -/
def Audited (stmts : List Stmt) : Prop := stmtNotes stmts ⊆ auditNotes

/-- No comment stands in statements. -/
def Silent (stmts : List Stmt) : Prop := stmtNotes stmts = []

/-- The comments in statements are exactly the given markers, in this order. -/
structure Marked (markers stmts : List Stmt) : Prop where
  notes : stmtNotes stmts = stmtNotes markers
  markers : markersIn stmts = markers

/-- A method is not documented, and the comments in it are audit markers. -/
structure Undocumented (method : Php.Method) : Prop where
  doc : method.doc = none
  body : Audited method.body

@[simp]
theorem audited_nil : Audited [] := List.nil_subset _

@[simp]
theorem audited_cons {stmt : Stmt} {stmts : List Stmt} :
    Audited (stmt :: stmts) ↔ stmt.notes ⊆ auditNotes ∧ Audited stmts := by
  simp [Audited]

@[simp]
theorem audited_append {stmts more : List Stmt} :
    Audited (stmts ++ more) ↔ Audited stmts ∧ Audited more := by
  simp [Audited]

@[simp]
theorem silent_nil : Silent [] := rfl

@[simp]
theorem silent_cons {stmt : Stmt} {stmts : List Stmt} :
    Silent (stmt :: stmts) ↔ stmt.notes = [] ∧ Silent stmts := by
  simp [Silent]

@[simp]
theorem silent_append {stmts more : List Stmt} :
    Silent (stmts ++ more) ↔ Silent stmts ∧ Silent more := by
  simp [Silent]

theorem Silent.audited {stmts : List Stmt} (silent : Silent stmts) : Audited stmts := by
  rw [Audited, silent]
  exact List.nil_subset _

/-- Statements without comments are marked by nothing. -/
theorem Silent.marked {stmts : List Stmt} (silent : Silent stmts) : Marked [] stmts :=
  ⟨silent, markersIn_of_stmtNotes_eq_nil stmts silent⟩

namespace Marked

variable {markers more stmts later : List Stmt}

/-- A marker in front is one more marker. -/
theorem marker (marked : Marked markers stmts) (audit : Audit) (value : String) :
    Marked (audit.marker value :: markers) (audit.marker value :: stmts) := by
  constructor
  · rw [stmtNotes_cons, stmtNotes_cons, marked.notes]
  · rw [markersIn_cons, marked.markers, Audit.marker, markers_marker, List.singleton_append]

/-- Statements one after another carry their markers one after another. -/
theorem append (marked : Marked markers stmts) (markedLater : Marked more later) :
    Marked (markers ++ more) (stmts ++ later) := by
  constructor
  · rw [stmtNotes_append, stmtNotes_append, marked.notes, markedLater.notes]
  · rw [markersIn_append, marked.markers, markedLater.markers]

theorem audited (marked : Marked auditMarkers stmts) : Audited stmts := by
  rw [Audited, marked.notes]
  exact List.Subset.refl _

end Marked

theorem silent_flatten {groups : List (List Stmt)} (each : ∀ group ∈ groups, Silent group) :
    Silent groups.flatten := by
  induction groups with
  | nil => exact silent_nil
  | cons group groups ih =>
      rw [List.forall_mem_cons] at each
      rw [List.flatten_cons, silent_append]
      exact ⟨each.1, ih each.2⟩

theorem silent_spaced {groups : List (List Stmt)} (each : ∀ group ∈ groups, Silent group) :
    Silent (spaced groups) := by
  refine spaced_of_forall_mem silent_nil (fun group later here there => ?_) each
  rw [silent_append, silent_cons]
  exact ⟨here, rfl, there⟩

variable {pascal resource : String} {identity : Identity}

theorem silent_readIdentity : Ensures (fun stmt => stmt.notes = []) (readIdentity identity) :=
  ensures_bind fun _ => ensures_ok (by simp)

theorem silent_identityGuard : Ensures Silent (identityGuard identity pascal resource) := by
  refine ensures_bind fun value => ?_
  cases identity.kind <;> exact ensures_ok (by simp [returnError])

theorem silent_takeIdentity : Ensures Silent (takeIdentity identity pascal resource) :=
  silent_readIdentity.bind fun _ read => silent_identityGuard.bind fun _ guarded =>
    ensures_ok (by simp [read, guarded])

theorem silent_pagination : Silent pagination := by simp [pagination]

theorem silent_queryArgs (statuses : List String) :
    Ensures (fun stmt => stmt.notes = []) (queryArgs pascal statuses) :=
  ensures_bind fun _ => ensures_ok (by simp)

theorem silent_metaClause {key : String} {field : MetaField} {value : Expr} {body : List Stmt}
    (made : metaClause key field value = some body) : Silent body := by
  rw [metaClause] at made
  split at made
  · obtain ⟨filtered, -, rfl⟩ := Option.map_eq_some_iff.mp made
    simp [addClause]
  · obtain rfl := Option.some.inj made
    simp [addClause]

theorem silent_metaFieldQuery (key : String) (field : MetaField) :
    Ensures Silent (metaFieldQuery key field) := by
  refine ensures_bind fun value => ?_
  split
  · exact ensures_ok silent_nil
  · rename_i body made
    have inner : stmtNotes body = [] := silent_metaClause made
    exact ensures_ok (by simp [inner])

theorem silent_metaQuery (fields : List (String × MetaField)) :
    Ensures Silent (metaQuery fields) :=
  ensures_mapM_flatten (fun _ => silent_flatten) fun field => silent_metaFieldQuery field.1 field.2

theorem silent_termQuery (key : String) (taxonomy : Taxonomy) :
    Ensures Silent (termQuery key taxonomy) :=
  ensures_bind fun _ => ensures_ok (by simp [addClause])

theorem silent_taxonomyQuery (taxonomies : List (String × Taxonomy)) :
    Ensures Silent (taxonomyQuery taxonomies) :=
  ensures_mapM_flatten (fun _ => silent_flatten) fun taxonomy =>
    silent_termQuery taxonomy.1 taxonomy.2

theorem silent_statusGuard (statuses : List String) :
    Silent (statusGuard pascal resource statuses) := by
  rw [statusGuard]
  split
  · exact silent_nil
  · simp [returnError]

/-- The check of a status is marked by its channel and its normalisation. -/
theorem marked_statusValidation (statuses : List String) (target : StatusTarget) :
    Ensures (Marked [Audit.channel.marker "status-validation", Audit.status.marker "normalise"])
      (statusValidation pascal resource statuses target) := by
  refine ensures_bind fun normalised => ensures_ok ?_
  have read : Silent [Stmt.setVar "status" (requestParam "status")] := by simp
  have guard : Silent (statusGuard pascal resource statuses) := silent_statusGuard statuses
  have guarded := ((read.marked.marker .status "normalise").marker .channel
    "status-validation").append guard.marked
  cases target with
  | always => exact guarded.append (Silent.marked (by simp))
  | whenPresent => exact guarded.append (Silent.marked (by simp))

theorem marked_syncMeta (post : Expr) :
    Ensures (Marked [Audit.channel.marker "sync-meta", Audit.metaFields.marker "update"])
      (syncMeta pascal post) := by
  refine ensures_bind fun call => ensures_ok ?_
  have called : Silent [Stmt.expression call] := by simp
  exact (called.marked.marker .metaFields "update").marker .channel "sync-meta"

/-- Storing terms is marked by its channel and the update. -/
theorem marked_syncTaxonomies (post : Expr) :
    Ensures (Marked [Audit.channel.marker "sync-taxonomies", Audit.taxonomies.marker "update"])
      (syncTaxonomies pascal post) := by
  refine ensures_bind fun call => ensures_ok ?_
  have called : Silent [Stmt.setVar "taxonomy_result" call,
      returnIfError (.var "taxonomy_result")] := by
    simp [returnIfError]
  exact (called.marked.marker .taxonomies "update").marker .channel "sync-taxonomies"

/-! ## Methods of snippets -/

theorem ensures_method (name : String) :
    Ensures (fun method => method.doc = none) (Php.Method.of name) := by
  intro method made
  obtain ⟨checked, -, rfl⟩ := map_eq_ok_iff.mp made
  rfl

theorem undocumented_statusMethod (statuses : List String) :
    Ensures Undocumented (statusMethod pascal statuses) :=
  (ensures_method _).bind fun _ doc => ensures_ok ⟨doc, by simp⟩

theorem silent_storeMeta (key : String) (field : MetaField) :
    Ensures Silent (storeMeta key field) := by
  refine ensures_bind fun value => ?_
  cases field.single with
  | true => exact ensures_ok (by simp)
  | false => exact ensures_bind fun item => ensures_ok (by simp)

theorem undocumented_metaMethod (fields : List (String × MetaField)) :
    Ensures Undocumented (metaMethod pascal fields) :=
  ensures_mapM_bind (fun field => silent_storeMeta field.1 field.2) fun _ each =>
    (ensures_method _).bind fun _ doc => ensures_ok ⟨doc, (silent_spaced each).audited⟩

theorem silent_storeTerms (key : String) (taxonomy : Taxonomy) :
    Ensures Silent (storeTerms key taxonomy) :=
  ensures_bind fun _ => ensures_bind fun _ => ensures_ok (by simp [returnIfError])

theorem undocumented_taxonomiesMethod (taxonomies : List (String × Taxonomy)) :
    Ensures Undocumented (taxonomiesMethod pascal taxonomies) :=
  ensures_mapM_bind (fun taxonomy => silent_storeTerms taxonomy.1 taxonomy.2) fun _ each =>
    (ensures_method _).bind fun _ doc => ensures_ok ⟨doc, by simp [(silent_flatten each).audited]⟩

end Snippet

/-! ## Handlers of each storage -/

namespace Handler

open Snippet

/-- The body of a composed handler has a property, if there is one. -/
def EnsuresBody (holds : List Stmt → Prop) (composed : Composed) : Prop :=
  Ensures (fun handler => ∀ found ∈ handler, holds found.body) composed

section EnsuresBody

variable {holds : List Stmt → Prop}

theorem ensuresBody_none : EnsuresBody holds (.ok none) := ensures_ok (by simp)

theorem ensuresBody_some {body : List Stmt} {events : List CacheEvent} (known : holds body) :
    EnsuresBody holds (.ok (some ⟨body, events⟩)) :=
  ensures_ok (by simpa using known)

theorem EnsuresBody.mono {weaker : List Stmt → Prop} {composed : Composed}
    (known : EnsuresBody holds composed) (imp : ∀ body, holds body → weaker body) :
    EnsuresBody weaker composed :=
  fun made madeEq found foundEq => imp _ (known made madeEq found foundEq)

end EnsuresBody

/-- The comments of a composed handler are audit markers. -/
def Quiet (composed : Composed) : Prop :=
  Ensures (fun handler => ∀ found ∈ handler, Audited found.body) composed

theorem quiet_none : Quiet (.ok none) := ensuresBody_none

theorem quiet_some {body : List Stmt} {events : List CacheEvent} (audited : Audited body) :
    Quiet (.ok (some ⟨body, events⟩)) :=
  ensuresBody_some audited

variable {resource : Resource} {pascal : String} {identity : Identity} {metadata : Metadata}

theorem notes_notFound (resource pascal : String) : (notFound resource pascal).notes = [] := rfl

namespace Post

theorem silent_postFields (supports : List Support) : Silent (postFields supports) := by
  rw [postFields, List.flatMap]
  apply silent_flatten
  rw [List.forall_mem_map]
  intro support member
  cases support <;> simp [supportField]

theorem silent_resolvePost : Ensures Silent (resolvePost resource pascal identity) :=
  silent_takeIdentity.bind fun _ taken => ensures_bind fun _ => ensures_bind fun _ =>
    ensures_ok (by simp [taken, unlessPost, notes_notFound])

theorem silent_listBody (storage : PostStorage) : Ensures Silent (listBody storage pascal) :=
  (silent_queryArgs _).bind fun _ args => (silent_metaQuery _).bind fun _ metaClauses =>
    (silent_taxonomyQuery _).bind fun _ termClauses => ensures_bind fun _ =>
      ensures_ok (by simp [listing, args, metaClauses, termClauses, silent_pagination, unlessPost])

/-- Reloading a post is marked by the channel, the cache and its segment. -/
theorem marked_reload (post : Expr) (target verb name : String) :
    Ensures (Marked [Audit.channel.marker "cache-priming", Audit.cache.marker "prime",
      Audit.cacheSegment.marker "prime"]) (reload pascal name post target verb) := by
  refine ensures_bind fun item => ensures_ok ?_
  have loaded : Silent [.setVar target (.fn "get_post" [post]),
      unlessPost (.var target) [returnError (errorCode name "load_failed")
        s!"Unable to load {verb} {pascal}." 500],
      .blank, .returning item] := by
    simp [unlessPost, returnError]
  exact ((loaded.marked.marker .cacheSegment "prime").marker .cache "prime").marker .channel
    "cache-priming"

/-- What is marked when a post is written: its status, its meta values, its terms and the cache. -/
theorem marked_written {data saved status storeMeta storeTerms reloaded : List Stmt}
    (supports : List Support) (dataSilent : Silent data) (savedSilent : Silent saved)
    (statusMarked : Marked
      [Audit.channel.marker "status-validation", Audit.status.marker "normalise"] status)
    (metaMarked : Marked
      [Audit.channel.marker "sync-meta", Audit.metaFields.marker "update"] storeMeta)
    (termsMarked : Marked
      [Audit.channel.marker "sync-taxonomies", Audit.taxonomies.marker "update"] storeTerms)
    (reloadedMarked : Marked [Audit.channel.marker "cache-priming", Audit.cache.marker "prime",
      Audit.cacheSegment.marker "prime"] reloaded) :
    Marked auditMarkers (data ++ postFields supports ++ status ++ saved ++ storeMeta ++
      storeTerms ++ [.blank] ++ reloaded) := by
  have blank : Silent [.blank] := by simp
  have prepared :=
    (dataSilent.marked.append (silent_postFields supports).marked).append statusMarked
  have stored := ((prepared.append savedSilent.marked).append metaMarked).append termsMarked
  exact (stored.append blank.marked).append reloadedMarked

theorem marked_createBody (storage : PostStorage) :
    Ensures (Marked auditMarkers) (createBody resource storage pascal) :=
  ensures_bind fun _ => (marked_statusValidation _ _).bind fun _ status =>
    (marked_syncMeta _).bind fun _ storeMeta => (marked_syncTaxonomies _).bind fun _ storeTerms =>
      (marked_reload _ _ _ _).bind fun _ reloaded => ensures_ok
        (marked_written _ (by simp) (by simp [returnIfError]) status storeMeta storeTerms reloaded)

/-- A handler that updates a post finds it first, and then carries the markers. -/
theorem exists_found_of_updateBody {storage : PostStorage} {body : List Stmt}
    (made : updateBody resource storage pascal identity = .ok body) :
    ∃ resolved written, resolvePost resource pascal identity = .ok resolved ∧
      body = resolved ++ written ∧ Marked auditMarkers written := by
  rw [updateBody] at made
  simp only [bind_eq_ok_iff] at made
  obtain ⟨resolved, resolvedEq, type, -, status, statusEq, storeMeta, metaEq, storeTerms, termsEq,
    reloaded, reloadedEq, made⟩ := made
  cases made
  have data : Silent [.setVar "post_data" (.record [("ID", postId), ("post_type", type)])] := by
    simp
  have saved : Silent [.blank,
      .setVar "result" (.fn "wp_update_post" [.var "post_data", .bool true]),
      returnIfError (.var "result"), .blank] := by
    simp [returnIfError]
  have marked := marked_written storage.supports data saved
    (marked_statusValidation _ _ status statusEq) (marked_syncMeta _ storeMeta metaEq)
    (marked_syncTaxonomies _ storeTerms termsEq) (marked_reload _ _ _ _ reloaded reloadedEq)
  exact ⟨resolved, _, resolvedEq, by simp only [List.append_assoc], marked⟩

theorem audited_updateBody (storage : PostStorage) :
    Ensures Audited (updateBody resource storage pascal identity) := by
  intro body made
  obtain ⟨resolved, written, resolvedEq, rfl, marked⟩ := exists_found_of_updateBody made
  exact audited_append.mpr ⟨(silent_resolvePost resolved resolvedEq).audited, marked.audited⟩

theorem silent_deleteBody : Ensures Silent (deleteBody resource pascal identity) :=
  silent_resolvePost.bind fun _ resolved => ensures_bind fun _ =>
    ensures_ok (by simp [resolved, returnError])

theorem silent_list : EnsuresBody Silent (list resource pascal metadata) := by
  rw [list]
  split
  · exact ensuresBody_none
  · exact (silent_listBody _).bind fun _ => ensuresBody_some

theorem silent_get : EnsuresBody Silent (get resource pascal identity metadata) := by
  rw [get]
  split
  · exact ensuresBody_none
  · exact silent_resolvePost.bind fun _ resolved => ensures_bind fun _ =>
      ensuresBody_some (by simp [resolved])

theorem marked_create : EnsuresBody (Marked auditMarkers) (create resource pascal metadata) := by
  rw [create]
  split
  · exact ensuresBody_none
  · exact (marked_createBody _).bind fun _ => ensuresBody_some

theorem audited_update : EnsuresBody Audited (update resource pascal identity metadata) := by
  rw [update]
  split
  · exact ensuresBody_none
  · exact (audited_updateBody _).bind fun _ => ensuresBody_some

theorem silent_delete : EnsuresBody Silent (delete resource pascal identity metadata) := by
  rw [delete]
  split
  · exact ensuresBody_none
  · exact silent_deleteBody.bind fun _ => ensuresBody_some

/-- The comments of the handlers of posts are audit markers. -/
theorem quiet_handler (kind : RouteKind) : Quiet (handler resource pascal kind metadata) := by
  unfold handler
  split
  · exact silent_list.mono fun _ => Silent.audited
  · exact marked_create.mono fun _ => Marked.audited
  · exact silent_get.mono fun _ => Silent.audited
  · exact audited_update
  · exact silent_delete.mono fun _ => Silent.audited
  · exact quiet_none

theorem silent_responseExtras (storage : PostStorage) : Silent (responseExtras storage) := by
  have sets {α : Type} (f : α → Stmt) (silent : ∀ item, (f item).notes = []) (items : List α) :
      Silent (items.map f) := by
    induction items with
    | nil => exact silent_nil
    | cons item items ih => simp [silent, ih]
  unfold responseExtras
  simp only
  split
  · exact silent_nil
  · rw [List.cons_append, silent_cons, silent_append]
    exact ⟨rfl, sets _ (fun _ => rfl) _, sets _ (fun _ => rfl) _⟩

theorem silent_lookup (identity : Option Identity) :
    Ensures (fun found => Silent found.2) (lookup pascal identity) := by
  have found (name : Expr) : Ensures Silent (findByName pascal name) :=
    ensures_bind fun _ => ensures_ok (by simp)
  refine ensures_bind fun value => ?_
  cases (identity.getD ⟨.number, "id"⟩).kind with
  | string => exact (found value).bind fun _ silent => ensures_bind fun _ => ensures_ok silent
  | number => exact ensures_bind fun _ => ensures_ok (by simp)

/-- The private methods of posts are not documented. -/
theorem undocumented_methods :
    Ensures (fun made => ∀ method ∈ made, Undocumented method) (methods resource pascal) := by
  cases stored : resource.post? with
  | none =>
      rw [methods, stored]
      exact ensures_ok (by simp)
  | some storage =>
      have typeMethod : Ensures Undocumented (postTypeMethod pascal storage) :=
        (ensures_method _).bind fun _ doc => ensures_ok ⟨doc, by simp⟩
      have resolve : Ensures Undocumented (resolveMethod pascal resource.identity) :=
        (silent_lookup _).bind fun _ found => ensures_bind fun _ =>
          (ensures_method _).bind fun _ doc =>
            ensures_ok ⟨doc, by simp [found.audited, unlessPost]⟩
      have prepare : Ensures Undocumented (prepareMethod pascal storage) :=
        (ensures_method _).bind fun _ doc => ensures_ok
          ⟨doc, by simp [(silent_responseExtras storage).audited]⟩
      rw [methods, stored]
      exact typeMethod.bind fun _ first => resolve.bind fun _ second =>
        prepare.bind fun _ third => (undocumented_statusMethod _).bind fun _ status =>
          (undocumented_metaMethod _).bind fun _ storeMeta =>
            (undocumented_taxonomiesMethod _).bind fun _ storeTerms =>
              ensures_ok (by simp [first, second, third, status, storeMeta, storeTerms])

end Post

namespace Single

theorem quiet_handler (route : Route) (kind : RouteKind) :
    Quiet (handler pascal route kind metadata) :=
  ensures_bind fun _ => quiet_some (by cases route.method <;> simp [body, Access.of, current])

/-- The private methods of single options are not documented. -/
theorem undocumented_methods (option : String) :
    Ensures (fun made => ∀ method ∈ made, Undocumented method) (methods pascal option) :=
  (ensures_method _).bind fun _ doc => ensures_ok
    (List.forall_mem_singleton.mpr ⟨doc, by simp⟩)

end Single

namespace Term

/-- The comments of the handlers of terms are audit markers. -/
theorem quiet_handler (route : Route) (kind : RouteKind) :
    Quiet (handler resource pascal route kind metadata) := by
  unfold handler
  simp only
  split
  · have listed : Ensures Audited (listBody pascal) :=
      ensures_bind fun _ => ensures_bind fun _ => ensures_ok
        (by simp [silent_pagination.audited, returnIfError])
    exact listed.bind fun _ => quiet_some
  · split
    · have got {identity : Identity} : Ensures Audited (getBody resource pascal identity) :=
        ensures_bind fun _ => silent_takeIdentity.bind fun _ taken => ensures_bind fun _ =>
          ensures_ok (by simp [taken.audited, notes_notFound])
      exact got.bind fun _ => quiet_some
    · exact quiet_none

/-- The private methods of terms are not documented. -/
theorem undocumented_methods (taxonomy : String) :
    Ensures (fun made => ∀ method ∈ made, Undocumented method) (methods pascal taxonomy) :=
  (ensures_method _).bind fun _ first => (ensures_method _).bind fun _ second => ensures_ok
    (List.forall_mem_cons.mpr
      ⟨⟨first, by simp⟩, List.forall_mem_singleton.mpr ⟨second, by simp⟩⟩)

end Term

namespace Transient

theorem audited_body (key : Expr) (echoed : List (String × Expr)) (access : Access)
    (name : String) : Audited (body name pascal key echoed access) := by
  cases access <;> simp [body, notes_notFound, returnError]

/-- The comments of the handlers of transients are audit markers. -/
theorem quiet_handler (route : Route) (kind : RouteKind) :
    Quiet (handler resource pascal route kind metadata) := by
  unfold handler
  split
  · have taken : Ensures Silent (takeIdentity? resource pascal) := by
      rw [takeIdentity?]
      split
      · exact ensures_ok silent_nil
      · exact silent_takeIdentity
    exact taken.bind fun _ takenSilent => ensures_bind fun _ => ensures_bind fun _ =>
      quiet_some (by simp [takenSilent.audited, audited_body])
  · exact quiet_none

/-- The private methods of transients are not documented. -/
theorem undocumented_methods (identity : Option Identity) (beginning : String) :
    Ensures (fun made => ∀ method ∈ made, Undocumented method)
      (methods pascal identity beginning) := by
  refine (ensures_method _).bind fun _ doc => ?_
  cases identity with
  | none => exact ensures_ok (List.forall_mem_singleton.mpr ⟨doc, by simp⟩)
  | some identity =>
      exact ensures_bind fun _ => ensures_bind fun _ =>
        ensures_ok (List.forall_mem_singleton.mpr ⟨doc, by simp⟩)

end Transient

/-! ## Any route -/

/-- The comments of supported handlers are audit markers. -/
theorem quiet_supported (route : Route) (kind : RouteKind) :
    Quiet (supported resource pascal route kind metadata) := by
  unfold supported
  split
  · exact quiet_none
  · exact Post.quiet_handler kind
  · exact Transient.quiet_handler route kind
  · exact Single.quiet_handler route kind
  · exact Term.quiet_handler route kind

/-- Private methods are not documented, whatever the storage. -/
theorem undocumented_methods (beginning : String) :
    Ensures (fun made => ∀ method ∈ made, Undocumented method)
      (methods resource pascal beginning) := by
  unfold methods
  split
  · exact ensures_ok (by simp)
  · exact Post.undocumented_methods
  · exact Transient.undocumented_methods _ _
  · exact Single.undocumented_methods _
  · exact Term.undocumented_methods _

/-- The comment of a stub. -/
def todo (route : Route) : String :=
  "// TODO: Implement handler for [" ++ route.method.text ++ "] " ++ route.path ++ "."

theorem notes_stub (route : Route) : stmtNotes (stub route) = [.comment (todo route)] := rfl

end Handler

end RestPlugin
