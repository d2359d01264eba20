import RestPlugin.Handler.Compose
import RestPlugin.Proofs.Php.Closed
import RestPlugin.Proofs.Php.Settled

/-!
# Variables of handlers

The pieces of a handler hand their results on in variables.  Whatever the storage of
a resource, each piece finds the variables it reads: the request, the current
object, and what was assigned before.
-/

namespace RestPlugin

open Controller Ir Php

namespace Php

theorem ensures_ofVariable (value : String) :
    Ensures (fun expr => expr = .var (stripDollar value)) (Expr.ofVariable value) := by
  intro expr made
  obtain ⟨name, nameEq, rfl⟩ := map_eq_ok_iff.mp made
  rw [(eq_of_identifier_eq_ok nameEq).1]

theorem ensures_thisCall (name : String) (args : List Expr) :
    Ensures (fun expr => expr = .methodCall .this name args) (Expr.thisCall name args) := by
  intro expr made
  obtain ⟨word, wordEq, rfl⟩ := map_eq_ok_iff.mp made
  rw [(eq_of_identifier_eq_ok wordEq).1]

theorem ensures_typed (type value : String) :
    Ensures (fun param => param = .mk (stripDollar value) (some type) none)
      (Param.typed type value) := by
  intro param made
  obtain ⟨name, nameEq, rfl⟩ := map_eq_ok_iff.mp made
  rw [(eq_of_identifier_eq_ok nameEq).1]

end Php

namespace Snippet

variable {given : List String} {pascal resource : String} {identity : Identity}

@[simp]
theorem uses_this : Expr.this.Uses given ↔ "this" ∈ given := Expr.uses_var

@[simp]
theorem uses_request : request.Uses given ↔ "request" ∈ given := Expr.uses_var

@[simp]
theorem uses_requestParam (name : String) : (requestParam name).Uses given ↔ "request" ∈ given := by
  simp [requestParam, Expr.send]

@[simp]
theorem settled_returnError (code message : String) (status : Int) :
    (returnError code message status).Settled given := by
  simp [returnError, errorObject]

@[simp]
theorem settled_returnIfError {value : Expr} :
    (returnIfError value).Settled given ↔ value.Uses given := by
  simp [returnIfError]

@[simp]
theorem settled_unlessPost {value : Expr} {body : List Stmt} :
    (unlessPost value body).Settled given ↔ value.Uses given ∧ AllSettled given body := by
  simp [unlessPost]

theorem settled_takeIdentity : Ensures (fun stmts => AllSettled ["request"] stmts ∧
    stripDollar identity.param ∈ allAssigns stmts) (takeIdentity identity pascal resource) := by
  have read : Ensures (fun stmt => stmt = .setVar (stripDollar identity.param)
      (requestParam identity.param)) (readIdentity identity) :=
    (ensures_ofVariable _).bind_eq (ensures_ok rfl)
  have guarded : Ensures (AllSettled ["request", stripDollar identity.param])
      (identityGuard identity pascal resource) := by
    refine (ensures_ofVariable _).bind_eq ?_
    cases identity.kind <;> exact ensures_ok (by simp [Expr.toInt, Expr.toText, Expr.names])
  refine read.bind_eq (guarded.bind fun _ settled => ensures_ok ?_)
  simp [settled]

theorem allSettled_capabilityGuard (key : String) :
    AllSettled ["request"] (capabilityGuard key) := by
  simp [capabilityGuard]

/-! ## Queries -/

theorem allSettled_pagination : AllSettled ["request"] pagination := by
  simp [pagination, Expr.toInt]

theorem allAssigns_pagination : allAssigns pagination = ["page", "per_page"] := by
  simp [pagination]

theorem settled_queryArgs (statuses : List String) :
    Ensures (fun stmt => stmt.Settled ["this", "page", "per_page"] ∧ stmt.assigns = ["query_args"])
      (queryArgs pascal statuses) := by
  refine (ensures_thisCall _ _).bind_eq (ensures_ok ⟨?_, assigns_setVar⟩)
  split <;> simp

theorem settled_addClause {clause : String} {fields : List (String × Expr)} :
    (addClause clause fields).Settled given ↔
      "query_args" ∈ given ∧ ∀ field ∈ fields, field.2.Uses given := by
  simp [addClause]

theorem uses_scalarFilter {type : MetaType} {value filtered : Expr} (uses : value.Uses given)
    (made : scalarFilter type value = some filtered) : filtered.Uses given := by
  cases type <;> cases made <;> simp [uses, Expr.toText, Expr.toInt]

theorem uses_listValues (type : MetaType) {value : Expr} (uses : value.Uses given) :
    (listValues type value).Uses given := by
  cases type <;> simp [listValues, Expr.toArray, uses]

@[simp]
theorem uses_hasItems {value : Expr} : (hasItems value).Uses given ↔ value.Uses given := by
  simp [hasItems]

@[simp]
theorem uses_termIds {value : Expr} : (termIds value).Uses given ↔ value.Uses given := by
  simp [termIds, Expr.toArray]

theorem allSettled_metaClause {key name : String} {field : MetaField} {body : List Stmt}
    (made : metaClause key field (.var name) = some body) :
    AllSettled ["query_args", name] body := by
  have uses : (Expr.var name).Uses ["query_args", name] := by simp
  rw [metaClause] at made
  split at made
  · obtain ⟨filtered, filteredEq, rfl⟩ := Option.map_eq_some_iff.mp made
    simp [settled_addClause, uses_scalarFilter uses filteredEq]
  · obtain rfl := Option.some.inj made
    simp [settled_addClause, uses_listValues _ uses, Expr.names]

theorem settled_metaFieldQuery (key : String) (field : MetaField) :
    Ensures (AllSettled ["request", "query_args"]) (metaFieldQuery key field) := by
  refine (ensures_ofVariable _).bind_eq ?_
  split
  · exact ensures_ok allSettled_nil
  · rename_i body made
    have inner := (allSettled_metaClause made).mono (List.subset_cons_self "request" _)
    exact ensures_ok (by simp [Expr.notNull, Expr.names, inner])

theorem settled_metaQuery (fields : List (String × MetaField)) :
    Ensures (AllSettled ["request", "query_args"]) (metaQuery fields) :=
  ensures_mapM_flatten (fun _ => allSettled_flatten) fun field =>
    settled_metaFieldQuery field.1 field.2

theorem settled_termQuery (key : String) (taxonomy : Taxonomy) :
    Ensures (AllSettled ["request", "query_args"]) (termQuery key taxonomy) :=
  (ensures_ofVariable _).bind_eq (ensures_ok (by
    simp [Expr.notNull, Expr.names, settled_addClause]))

theorem settled_taxonomyQuery (taxonomies : List (String × Taxonomy)) :
    Ensures (AllSettled ["request", "query_args"]) (taxonomyQuery taxonomies) :=
  ensures_mapM_flatten (fun _ => allSettled_flatten) fun taxonomy =>
    settled_termQuery taxonomy.1 taxonomy.2

/-! ## Statuses -/

theorem allSettled_statusGuard (statuses : List String) :
    AllSettled ["status"] (statusGuard pascal resource statuses) := by
  rw [statusGuard]
  split <;> simp [Expr.notNull]

theorem settled_statusValidation (statuses : List String) (target : StatusTarget) :
    Ensures (AllSettled ["request", "this", "post_data"])
      (statusValidation pascal resource statuses target) := by
  refine (ensures_thisCall _ _).bind_eq (ensures_ok ?_)
  have checked := (@allSettled_statusGuard pascal resource statuses).mono (by simp :
    ["status"] ⊆ ["request", "this", "post_data", "status"])
  cases target <;> simp [Audit.marker, checked, Expr.notNull]

/-! ## Storing -/

theorem settled_syncMeta {post : Expr} (uses : post.Uses given) (this : "this" ∈ given)
    (request : "request" ∈ given) : Ensures (AllSettled given) (syncMeta pascal post) :=
  (ensures_thisCall _ _).bind_eq (ensures_ok (by simp [Audit.marker, uses, this, request]))

theorem settled_syncTaxonomies {post : Expr} (uses : post.Uses given) (this : "this" ∈ given)
    (request : "request" ∈ given) : Ensures (AllSettled given) (syncTaxonomies pascal post) :=
  (ensures_thisCall _ _).bind_eq (ensures_ok (by simp [Audit.marker, uses, this, request]))

theorem uses_storedValue (type : MetaType) {value : Expr} (uses : value.Uses given) :
    (storedValue type value).Uses given := by
  rw [storedValue]
  cases filtered : scalarFilter type value with
  | none => exact uses
  | some safe => exact uses_scalarFilter uses filtered

theorem settled_storeMeta (key : String) (field : MetaField) :
    Ensures (AllSettled ["post_id", "request"]) (storeMeta key field) := by
  refine (ensures_ofVariable _).bind_eq ?_
  cases field.single with
  | true => exact ensures_ok (by simp [Expr.notNull, Expr.names, uses_storedValue])
  | false =>
      refine (ensures_ofVariable _).bind_eq (ensures_ok ?_)
      simp [Expr.notNull, Expr.names, Expr.toArray, uses_storedValue]

theorem settled_storeTerms (key : String) (taxonomy : Taxonomy) :
    Ensures (AllSettled ["post_id", "request"]) (storeTerms key taxonomy) :=
  (ensures_ofVariable _).bind_eq ((ensures_ofVariable _).bind_eq (ensures_ok (by
    simp [Expr.notNull, Expr.names])))

theorem allSettled_spaced {groups : List (List Stmt)}
    (each : ∀ group ∈ groups, AllSettled given group) : AllSettled given (spaced groups) := by
  refine spaced_of_forall_mem allSettled_nil (fun group later here there => ?_) each
  rw [allSettled_append, allSettled_cons]
  refine ⟨here, settled_blank, there.mono fun name known => ?_⟩
  simp [known]

theorem settled_statusMethod (statuses : List String) :
    Ensures FunctionOf.Settled (statusMethod pascal statuses) :=
  (ensures_method_of _).bind_eq (ensures_ok ⟨rfl, by simp [FunctionOf.given]⟩)

theorem settled_metaMethod (fields : List (String × MetaField)) :
    Ensures FunctionOf.Settled (metaMethod pascal fields) := by
  refine ensures_mapM_bind (fun field => settled_storeMeta field.1 field.2) fun _ each =>
    (ensures_method_of _).bind_eq (ensures_ok ⟨rfl, ?_⟩)
  exact (allSettled_spaced each).mono (List.subset_append_left _ ["this"])

theorem settled_taxonomiesMethod (taxonomies : List (String × Taxonomy)) :
    Ensures FunctionOf.Settled (taxonomiesMethod pascal taxonomies) := by
  refine ensures_mapM_bind (fun taxonomy => settled_storeTerms taxonomy.1 taxonomy.2)
    fun _ each => (ensures_method_of _).bind_eq (ensures_ok ⟨rfl, ?_⟩)
  refine allSettled_append.mpr ⟨?_, by simp⟩
  exact (allSettled_flatten each).mono (List.subset_append_left _ ["this"])

end Snippet

/-! ## Handlers of each storage -/

namespace Handler

open Snippet

/-- The variables that a handler is given. -/
def given : List String := ["request", "this"]

/-- The statements of a composed handler find the variables they read. -/
def Finds (composed : Composed) : Prop :=
  Ensures (fun handler => ∀ found ∈ handler, AllSettled given found.body) composed

theorem finds_none : Finds (.ok none) := ensures_ok (by simp)

theorem finds_some {body : List Stmt} {events : List CacheEvent} (settled : AllSettled given body) :
    Finds (.ok (some ⟨body, events⟩)) :=
  ensures_ok (by simpa using settled)

variable {resource : Resource} {pascal : String} {identity : Identity} {metadata : Metadata}
  {known : List String}

@[simp]
theorem settled_notFound (name : String) : (notFound name pascal).Settled known :=
  settled_returnError _ _ _

namespace Post

theorem ensures_postType :
    Ensures (fun expr => expr = .methodCall .this s!"get{pascal}PostType" []) (postType pascal) :=
  ensures_thisCall _ _

theorem ensures_prepared (post : Expr) :
    Ensures (fun expr => expr = .methodCall .this s!"prepare{pascal}Response" [post, request])
      (prepared pascal post) :=
  ensures_thisCall _ _

theorem allSettled_postFields (supports : List Support) :
    AllSettled ["request", "post_data"] (postFields supports) := by
  rw [postFields, List.flatMap]
  apply allSettled_flatten
  rw [List.forall_mem_map]
  intro support member
  cases support <;> simp [supportField, Expr.notNull, Expr.toText]

theorem settled_resolvePost :
    Ensures (fun stmts => AllSettled given stmts ∧ "post" ∈ allAssigns stmts)
      (resolvePost resource pascal identity) := by
  refine settled_takeIdentity.bind fun taken ⟨settled, assigned⟩ => ?_
  refine (ensures_ofVariable _).bind_eq ((ensures_thisCall _ _).bind_eq (ensures_ok ?_))
  constructor
  · refine AllSettled.append (settled.mono (by simp [given])) (?_ :
      AllSettled ["this", stripDollar identity.param] _) (by simp [given, assigned])
    simp
  · simp

theorem settled_listBody (storage : PostStorage) :
    Ensures (AllSettled given) (listBody storage pascal) := by
  refine (settled_queryArgs _).bind fun args ⟨argsSettled, argsAssigns⟩ => ?_
  refine (settled_metaQuery _).bind fun metaClauses metaSettled => ?_
  refine (settled_taxonomyQuery _).bind fun termClauses termSettled => ?_
  refine (ensures_prepared _).bind_eq (ensures_ok ?_)
  have start : AllSettled given (pagination ++ [.blank, args, .blank]) := by
    refine (allSettled_pagination.mono (by simp [given])).append (?_ :
      AllSettled ["this", "page", "per_page"] _) (by simp [given, allAssigns_pagination])
    simp [argsSettled]
  have clauses : AllSettled given (pagination ++ [.blank, args, .blank] ++ metaClauses ++
      termClauses) :=
    (start.append metaSettled (by simp [given, argsAssigns])).append termSettled
      (by simp [given, argsAssigns])
  refine clauses.append (?_ : AllSettled ["request", "this", "query_args"] _)
    (by simp [given, argsAssigns])
  simp [Expr.toInt, Expr.names]

theorem settled_reload {post : Expr} (uses : post.Uses known) (this : "this" ∈ known)
    (request : "request" ∈ known) (name target verb : String) :
    Ensures (AllSettled known) (reload pascal name post target verb) :=
  (ensures_prepared _).bind_eq (ensures_ok (by simp [Audit.marker, uses, this, request]))

theorem settled_createBody (storage : PostStorage) :
    Ensures (AllSettled given) (createBody resource storage pascal) := by
  have post : (Expr.var "post_id").Uses ["request", "this", "post_id"] := by simp
  refine ensures_postType.bind_eq ?_
  refine (settled_statusValidation _ _).bind fun status statusSettled => ?_
  refine (settled_syncMeta post (by simp) (by simp)).bind fun storeMeta metaSettled => ?_
  refine (settled_syncTaxonomies post (by simp) (by simp)).bind fun storeTerms termsSettled => ?_
  refine (settled_reload post (by simp) (by simp) _ _ _).bind fun reloaded reloadSettled =>
    ensures_ok ?_
  -- The pieces are taken off from the last one to the first one.
  refine AllSettled.append ?_ reloadSettled (by simp [given])
  refine AllSettled.append ?_ (by simp : AllSettled [] [.blank]) (by simp)
  refine AllSettled.append ?_ termsSettled (by simp [given])
  refine AllSettled.append ?_ metaSettled (by simp [given])
  refine AllSettled.append ?_ (?_ : AllSettled ["post_data"] _) (by simp)
  · refine AllSettled.append ?_ statusSettled (by simp [given])
    refine AllSettled.append ?_ (allSettled_postFields _) (by simp [given])
    simp [given]
  · simp

@[simp]
theorem uses_postId : postId.Uses known ↔ "post" ∈ known := by
  simp [postId]

theorem settled_updateBody (storage : PostStorage) :
    Ensures (AllSettled given) (updateBody resource storage pascal identity) := by
  have post : postId.Uses ["request", "this", "post"] := by simp
  refine settled_resolvePost.bind fun resolved ⟨resolvedSettled, found⟩ => ?_
  refine ensures_postType.bind_eq ?_
  refine (settled_statusValidation _ _).bind fun status statusSettled => ?_
  refine (settled_syncMeta post (by simp) (by simp)).bind fun storeMeta metaSettled => ?_
  refine (settled_syncTaxonomies post (by simp) (by simp)).bind fun storeTerms termsSettled => ?_
  refine (settled_reload post (by simp) (by simp) _ _ _).bind fun reloaded reloadSettled =>
    ensures_ok ?_
  refine AllSettled.append ?_ reloadSettled (by simp [given, found])
  refine AllSettled.append ?_ (by simp : AllSettled [] [.blank]) (by simp)
  refine AllSettled.append ?_ termsSettled (by simp [given, found])
  refine AllSettled.append ?_ metaSettled (by simp [given, found])
  refine AllSettled.append ?_ (?_ : AllSettled ["post_data"] _) (by simp)
  · refine AllSettled.append ?_ statusSettled (by simp [given])
    refine AllSettled.append ?_ (allSettled_postFields _) (by simp [given])
    refine resolvedSettled.append (?_ : AllSettled ["this", "post"] _) (by simp [given, found])
    simp
  · simp

theorem settled_deleteBody :
    Ensures (AllSettled given) (deleteBody resource pascal identity) := by
  refine settled_resolvePost.bind fun resolved ⟨settled, found⟩ => ?_
  refine (ensures_prepared _).bind_eq (ensures_ok ?_)
  refine settled.append (?_ : AllSettled ["request", "this", "post"] _) (by simp [given, found])
  simp [Expr.isFalse, Expr.toInt]

theorem finds_get : Finds (get resource pascal identity metadata) := by
  rw [get]
  split
  · exact finds_none
  · refine settled_resolvePost.bind fun resolved ⟨settled, found⟩ => ?_
    refine (ensures_prepared _).bind_eq (finds_some ?_)
    refine settled.append (?_ : AllSettled ["request", "this", "post"] _) (by simp [given, found])
    simp

/-- The handlers of posts find their variables. -/
theorem finds_handler (kind : RouteKind) :
    Finds (handler resource pascal kind metadata) := by
  unfold handler
  split
  · rw [list]
    split
    · exact finds_none
    · exact (settled_listBody _).bind fun _ => finds_some
  · rw [create]
    split
    · exact finds_none
    · exact (settled_createBody _).bind fun _ => finds_some
  · exact finds_get
  · rw [update]
    split
    · exact finds_none
    · exact (settled_updateBody _).bind fun _ => finds_some
  · rw [delete]
    split
    · exact finds_none
    · exact settled_deleteBody.bind fun _ => finds_some
  · exact finds_none

/-! ### Private methods -/

theorem allSettled_responseExtras (storage : PostStorage) :
    AllSettled ["post", "data"] (responseExtras storage) := by
  have sets {α : Type} (f : α → Stmt) (settled : ∀ item, (f item).Settled ["post", "data"])
      (items : List α) : AllSettled ["post", "data"] (items.map f) := by
    induction items with
    | nil => exact allSettled_nil
    | cons item items ih =>
        rw [List.map_cons, allSettled_cons]
        exact ⟨settled item, ih.mono (List.subset_append_left _ _)⟩
  unfold responseExtras
  simp only
  split
  · exact allSettled_nil
  · refine allSettled_append.mpr ⟨allSettled_cons.mpr ⟨settled_blank, ?_⟩, ?_⟩
    · exact (sets _ (fun item => by simp) _).mono (List.subset_append_left _ _)
    · exact (sets _ (fun item => by simp) _).mono (List.subset_append_left _ _)

theorem settled_findByName (name : String) :
    Ensures (fun stmts => AllSettled [name, "this"] stmts ∧ "post" ∈ allAssigns stmts)
      (findByName pascal (.var name)) :=
  ensures_postType.bind_eq (ensures_ok (by simp))

theorem settled_lookup (identity : Option Identity) :
    Ensures (fun found => found.1.parts = [] ∧ AllSettled [found.1.name, "this"] found.2 ∧
      "post" ∈ allAssigns found.2) (lookup pascal identity) := by
  refine (ensures_ofVariable _).bind_eq ?_
  cases (identity.getD ⟨.number, "id"⟩).kind with
  | string =>
      exact (settled_findByName _).bind fun found settled =>
        (ensures_typed _ _).bind_eq (ensures_ok ⟨rfl, settled⟩)
  | number =>
      refine (ensures_typed _ _).bind_eq (ensures_ok ⟨rfl, ?_⟩)
      simp

theorem settled_resolveMethod (identity : Option Identity) :
    Ensures FunctionOf.Settled (resolveMethod pascal identity) := by
  refine (settled_lookup identity).bind fun ⟨param, found⟩ ⟨defaults, settled, assigned⟩ => ?_
  refine ensures_postType.bind_eq ((ensures_method_of _).bind_eq (ensures_ok ⟨?_, ?_⟩))
  · exact (List.flatMap_singleton Param.parts param).trans defaults
  · refine AllSettled.append settled (?_ : AllSettled ["this", "post"] _)
      (by simp [FunctionOf.given, assigned])
    simp

theorem uses_responseField {support : Support} {field : String × Expr}
    (made : responseField support = some field) : field.2.Uses ["post"] := by
  cases support <;> cases made <;> simp

theorem settled_prepareMethod (storage : PostStorage) :
    Ensures FunctionOf.Settled (prepareMethod pascal storage) := by
  have extra : ∀ field ∈ storage.supports.filterMap responseField, field.2.Uses ["post"] := by
    intro field member
    obtain ⟨support, -, made⟩ := List.mem_filterMap.mp member
    exact uses_responseField made
  refine (ensures_method_of _).bind_eq (ensures_ok ⟨rfl, ?_⟩)
  refine AllSettled.append (allSettled_cons.mpr ⟨?_, ?_⟩) (?_ : AllSettled ["data"] _) (by simp)
  · rw [settled_setVar, Expr.uses_record, List.forall_mem_append]
    exact ⟨by simp [Expr.toInt, FunctionOf.given],
      fun field member => (extra field member).mono (by simp [FunctionOf.given])⟩
  · exact (allSettled_responseExtras storage).mono (by simp [FunctionOf.given])
  · simp

/-- The private methods of posts find their variables. -/
theorem settled_methods {storage : PostStorage} (stored : resource.post? = some storage) :
    Ensures (fun made => ∀ method ∈ made, method.Settled) (methods resource pascal) := by
  have typeMethod : Ensures FunctionOf.Settled (postTypeMethod pascal storage) :=
    (ensures_method_of _).bind_eq (ensures_ok ⟨rfl, by simp⟩)
  rw [methods, stored]
  exact typeMethod.bind fun _ first => (settled_resolveMethod _).bind fun _ second =>
    (settled_prepareMethod _).bind fun _ third => (settled_statusMethod _).bind fun _ status =>
      (settled_metaMethod _).bind fun _ storeMeta =>
        (settled_taxonomiesMethod _).bind fun _ storeTerms => ensures_ok (by
          simp [first, second, third, status, storeMeta, storeTerms])

end Post

namespace Single

theorem finds_handler (route : Route) (kind : RouteKind) :
    Finds (handler pascal route kind metadata) := by
  refine (ensures_thisCall _ _).bind_eq (finds_some ?_)
  cases Access.of route.method <;> simp [body, current, given]

theorem settled_methods (option : String) :
    Ensures (fun made => ∀ method ∈ made, method.Settled) (methods pascal option) :=
  (ensures_method_of _).bind_eq (ensures_ok (List.forall_mem_singleton.mpr ⟨rfl, by simp⟩))

end Single

namespace Term

theorem ensures_taxonomy :
    Ensures (fun expr => expr = .methodCall .this s!"get{pascal}Taxonomy" []) (taxonomy pascal) :=
  ensures_thisCall _ _

theorem ensures_prepared (term : Expr) :
    Ensures (fun expr => expr = .methodCall .this s!"prepare{pascal}TermResponse" [term])
      (prepared pascal term) :=
  ensures_thisCall _ _

theorem settled_listBody : Ensures (AllSettled given) (listBody pascal) := by
  refine ensures_taxonomy.bind_eq ((ensures_prepared _).bind_eq (ensures_ok ?_))
  refine (allSettled_pagination.mono (by simp [given])).append
    (?_ : AllSettled ["this", "page", "per_page"] _) (by simp [given, allAssigns_pagination])
  simp [Expr.toInt, Expr.names]

theorem uses_lookup : Ensures (Expr.Uses ["this", stripDollar identity.param])
    (lookup pascal identity) := by
  refine (ensures_ofVariable _).bind_eq (ensures_taxonomy.bind_eq ?_)
  cases identity.kind <;> exact ensures_ok (by simp)

theorem settled_getBody : Ensures (AllSettled given) (getBody resource pascal identity) := by
  refine uses_lookup.bind fun found uses => ?_
  refine settled_takeIdentity.bind fun taken ⟨settled, assigned⟩ => ?_
  refine (ensures_prepared _).bind_eq (ensures_ok ?_)
  refine AllSettled.append (settled.mono (by simp [given]))
    (?_ : AllSettled ["this", stripDollar identity.param] _) (by simp [given, assigned])
  simp [uses]

/-- The handlers of terms find their variables. -/
theorem finds_handler (route : Route) (kind : RouteKind) :
    Finds (handler resource pascal route kind metadata) := by
  unfold handler
  simp only
  split
  · exact settled_listBody.bind fun _ => finds_some
  · split
    · exact settled_getBody.bind fun _ => finds_some
    · exact finds_none

/-- The private methods of terms find their variables. -/
theorem settled_methods (taxonomy : String) :
    Ensures (fun made => ∀ method ∈ made, method.Settled) (methods pascal taxonomy) := by
  refine (ensures_method_of _).bind_eq ((ensures_method_of _).bind_eq (ensures_ok ?_))
  rw [List.forall_mem_cons, List.forall_mem_singleton]
  exact ⟨⟨rfl, by simp⟩, ⟨rfl, by simp [responseFields, Expr.toInt, FunctionOf.given]⟩⟩

end Term

namespace Transient

/-- The variables of an identity. -/
def identityNames (identity : Option Identity) : List String :=
  identity.toList.map fun identity => stripDollar identity.param

theorem settled_takeIdentity? :
    Ensures (fun stmts => AllSettled ["request"] stmts ∧
      identityNames resource.identity ⊆ allAssigns stmts) (takeIdentity? resource pascal) := by
  rw [takeIdentity?]
  split
  · rename_i identified
    exact ensures_ok (by simp [identityNames, identified])
  · rename_i identity identified
    intro stmts made
    obtain ⟨settled, assigned⟩ := settled_takeIdentity stmts made
    exact ⟨settled, by simpa [identityNames, identified] using assigned⟩

theorem uses_key (identity : Option Identity) :
    Ensures (Expr.Uses ("this" :: identityNames identity)) (key pascal identity) := by
  have args : Ensures (fun args => ∀ arg ∈ args, Expr.Uses ("this" :: identityNames identity) arg)
      (identity.toList.mapM fun identity => Expr.ofVariable identity.param) := by
    refine ensures_mapM fun identity member => ?_
    rintro _ made
    rw [ensures_ofVariable _ _ made]
    exact .var (List.mem_cons_of_mem _ (List.mem_map_of_mem member))
  refine args.bind fun args uses => ?_
  rintro _ made
  rw [ensures_thisCall _ _ _ made]
  simpa using uses

theorem uses_echo (identity : Option Identity) :
    Ensures (fun echoed => ∀ field ∈ echoed, field.2.Uses (identityNames identity))
      (echo identity) := by
  refine ensures_mapM fun identity member => (ensures_ofVariable _).bind_eq (ensures_ok ?_)
  exact .var (List.mem_map_of_mem member)

theorem allSettled_body {key : Expr} {echoed : List (String × Expr)} (keyUses : key.Uses known)
    (echoedUses : ∀ field ∈ echoed, field.2.Uses known) (request : "request" ∈ known)
    (access : Access) (name : String) : AllSettled known (body name pascal key echoed access) := by
  have keyed (more : List String) : key.Uses (known ++ more) :=
    keyUses.mono (List.subset_append_left _ _)
  have fields (more : List String) : ∀ key value, (key, value) ∈ echoed →
      value.Uses (known ++ more) :=
    fun key value member => (echoedUses (key, value) member).mono (List.subset_append_left _ _)
  cases access <;>
    simpa [body, Expr.isFalse, Expr.toInt, keyUses, keyed, request, or_imp, forall_and]
      using fields _

/-- The handlers of transients find their variables. -/
theorem finds_handler (route : Route) (kind : RouteKind) :
    Finds (handler resource pascal route kind metadata) := by
  unfold handler
  split
  · refine settled_takeIdentity?.bind fun taken ⟨settled, assigned⟩ => ?_
    refine (uses_key _).bind fun key keyUses => (uses_echo _).bind fun echoed echoedUses => ?_
    have found : ∀ name ∈ identityNames resource.identity, name ∈ given ++ allAssigns taken :=
      fun name member => List.mem_append_right _ (assigned member)
    refine finds_some (allSettled_append.mpr ⟨settled.mono (by simp [given]), ?_⟩)
    apply allSettled_body
    · exact keyUses.mono (List.cons_subset.mpr ⟨by simp [given], found⟩)
    · exact fun field member => (echoedUses field member).mono found
    · simp [given]
  · exact finds_none

/-- The private methods of transients find their variables. -/
theorem settled_methods (identity : Option Identity) (beginning : String) :
    Ensures (fun made => ∀ method ∈ made, method.Settled)
      (methods pascal identity beginning) := by
  refine (ensures_method_of _).bind_eq ?_
  cases identity with
  | none => exact ensures_ok (List.forall_mem_singleton.mpr ⟨rfl, by simp⟩)
  | some identity =>
      refine (ensures_typed _ _).bind_eq ((ensures_ofVariable _).bind_eq (ensures_ok ?_))
      exact List.forall_mem_singleton.mpr ⟨rfl, by simp [FunctionOf.given, Expr.toText]⟩

end Transient

/-! ## Any route -/

/-- Every statement of a handler finds the variables it reads. -/
theorem settled_ofRoute (route : Route) (kind : RouteKind) :
    Ensures (fun handler => AllSettled given handler.body)
      (ofRoute resource pascal route kind metadata) := by
  have finds : Finds (supported resource pascal route kind metadata) := by
    rw [supported]
    split
    · exact finds_none
    · exact Post.finds_handler kind
    · exact Transient.finds_handler route kind
    · exact Single.finds_handler route kind
    · exact Term.finds_handler route kind
  refine finds.bind fun composed settled => ensures_ok ?_
  cases composed with
  | none => simp [stub]
  | some handler => exact settled handler rfl

/-- So does every private method of a resource. -/
theorem settled_methods (beginning : String) :
    Ensures (fun made => ∀ method ∈ made, method.Settled) (methods resource pascal beginning) := by
  rw [methods]
  split
  · exact ensures_ok (by simp)
  · rename_i storage stored
    exact Post.settled_methods (by rw [Resource.post?, stored])
  · exact Transient.settled_methods _ _
  · exact Single.settled_methods _
  · exact Term.settled_methods _

end Handler

end RestPlugin
