import RestPlugin.Handler.Compose
import RestPlugin.Proofs.Php.Closed

/-!
# Calls of handlers

The handlers of a storage and the private methods behind them call these methods only, and no static
method.  Everything in them passes the checks.
-/

namespace RestPlugin

open Controller Ir Php

namespace Snippet

variable {methods : List Signature} {pascal resource : String} {identity : Identity}

@[simp]
theorem closed_request : request.Closed methods := Expr.closed_var.mpr (by decide)

@[simp]
theorem closed_requestParam (name : String) : (requestParam name).Closed methods :=
  Expr.closed_methodCall.mpr ⟨by decide, by simp [request, Expr.this], by simp⟩

@[simp]
theorem closed_returnError (code message : String) (status : Int) :
    (returnError code message status).Closed methods := by
  simp +decide [returnError, errorObject]

@[simp]
theorem closed_returnIfError {value : Expr} :
    (returnIfError value).Closed methods ↔ value.Closed methods := by
  simp +decide [returnIfError]

@[simp]
theorem closed_unlessPost {value : Expr} {body : List Stmt} :
    (unlessPost value body).Closed methods ↔ value.Closed methods ∧ AllClosed methods body := by
  simp +decide [unlessPost]

theorem closed_takeIdentity (methods : List Signature) :
    Ensures (AllClosed methods) (takeIdentity identity pascal resource) := by
  have read : Ensures (Stmt.Closed methods) (readIdentity identity) :=
    (Expr.closed_ofVariable methods _).bind fun _ value => ensures_ok (by simp [value])
  have guarded : Ensures (AllClosed methods) (identityGuard identity pascal resource) := by
    refine (Expr.closed_ofVariable methods _).bind fun _ value => ?_
    cases identity.kind <;>
      exact ensures_ok (by simp +decide [value, Expr.toInt, Expr.toText])
  exact read.bind fun _ readClosed => guarded.bind fun _ guardedClosed =>
    ensures_ok (by simp [readClosed, guardedClosed])

theorem allClosed_spaced {groups : List (List Stmt)}
    (each : ∀ group ∈ groups, AllClosed methods group) : AllClosed methods (spaced groups) := by
  refine spaced_of_forall_mem allClosed_nil (fun group later here there => ?_) each
  rw [allClosed_append, allClosed_cons]
  exact ⟨here, closed_blank, there⟩

/-! ## Queries -/

theorem allClosed_pagination : AllClosed methods pagination := by
  simp +decide [pagination, Expr.toInt]

theorem closed_queryArgs (methods : List Signature)
    (listed : (s!"get{pascal}PostType", 0) ∈ methods) (statuses : List String) :
    Ensures (Stmt.Closed methods) (queryArgs pascal statuses) := by
  refine (Expr.closed_thisCall listed (by simp)).bind fun _ postType => ensures_ok ?_
  split <;> simp +decide [postType]

theorem closed_scalarFilter {type : MetaType} {value filtered : Expr}
    (closed : value.Closed methods) (made : scalarFilter type value = some filtered) :
    filtered.Closed methods := by
  cases type <;> cases made <;> simp +decide [closed, Expr.toText, Expr.toInt]

theorem closed_listValues (type : MetaType) {value : Expr} (closed : value.Closed methods) :
    (listValues type value).Closed methods := by
  cases type <;> simp +decide [listValues, Expr.toArray, closed]

theorem closed_hasItems {value : Expr} :
    (hasItems value).Closed methods ↔ value.Closed methods := by
  simp +decide [hasItems]

theorem closed_addClause {clause : String} {fields : List (String × Expr)} :
    (addClause clause fields).Closed methods ↔ ∀ field ∈ fields, field.2.Closed methods := by
  simp +decide [addClause]

/-- The clause for a meta key is closed if its value is. -/
theorem allClosed_metaClause {key : String} {field : MetaField} {value : Expr} {body : List Stmt}
    (assignable : value.isAssignable = true) (closed : value.Closed methods)
    (made : metaClause key field value = some body) : AllClosed methods body := by
  rw [metaClause] at made
  split at made
  · obtain ⟨filtered, filteredEq, rfl⟩ := Option.map_eq_some_iff.mp made
    simp [closed_addClause, closed_scalarFilter closed filteredEq]
  · obtain rfl := Option.some.inj made
    simp +decide [closed_addClause, closed_hasItems, closed_listValues, assignable, closed]

theorem closed_metaFieldQuery (methods : List Signature) (key : String) (field : MetaField) :
    Ensures (AllClosed methods) (metaFieldQuery key field) := by
  refine (Expr.closed_ofVariable methods _).bind fun value ⟨assignable, closed⟩ => ?_
  split
  · exact ensures_ok allClosed_nil
  · rename_i body made
    have inner : AllClosed methods body := allClosed_metaClause assignable closed made
    exact ensures_ok (by simp [Expr.notNull, assignable, closed, inner])

theorem closed_metaQuery (methods : List Signature) (fields : List (String × MetaField)) :
    Ensures (AllClosed methods) (metaQuery fields) :=
  ensures_mapM_flatten (fun _ => allClosed_flatten) fun field =>
    closed_metaFieldQuery methods field.1 field.2

theorem closed_termIds {value : Expr} : (termIds value).Closed methods ↔ value.Closed methods := by
  simp +decide [termIds, Expr.toArray]

theorem closed_termQuery (methods : List Signature) (key : String) (taxonomy : Taxonomy) :
    Ensures (AllClosed methods) (termQuery key taxonomy) :=
  (Expr.closed_ofVariable methods _).bind fun _ value => ensures_ok (by
    simp +decide [value, Expr.notNull, closed_termIds, closed_hasItems, closed_addClause])

theorem closed_taxonomyQuery (methods : List Signature) (taxonomies : List (String × Taxonomy)) :
    Ensures (AllClosed methods) (taxonomyQuery taxonomies) :=
  ensures_mapM_flatten (fun _ => allClosed_flatten) fun taxonomy =>
    closed_termQuery methods taxonomy.1 taxonomy.2

/-! ## Statuses -/

theorem allClosed_statusGuard (statuses : List String) :
    AllClosed methods (statusGuard pascal resource statuses) := by
  rw [statusGuard]
  split <;> simp +decide [Expr.notNull]

theorem closed_statusValidation (methods : List Signature)
    (listed : (s!"normalise{pascal}Status", 1) ∈ methods) (statuses : List String)
    (target : StatusTarget) :
    Ensures (AllClosed methods) (statusValidation pascal resource statuses target) := by
  refine (Expr.closed_thisCall listed (by simp +decide)).bind fun _ normalised => ensures_ok ?_
  cases target <;>
    simp +decide [Audit.marker, allClosed_statusGuard, normalised, Expr.notNull]

theorem answers_statusMethod (methods : List Signature) (statuses : List String) :
    Ensures (Answers methods (s!"normalise{pascal}Status", 1)) (statusMethod pascal statuses) := by
  refine (ensures_method_of _).bind_eq ?_
  exact ensures_ok ⟨rfl, rfl, by simp +decide⟩

/-! ## Storing -/

theorem closed_syncMeta (methods : List Signature)
    (listed : (s!"sync{pascal}Meta", 2) ∈ methods) {post : Expr}
    (closed : post.Closed methods) : Ensures (AllClosed methods) (syncMeta pascal post) :=
  (Expr.closed_thisCall listed (by simp [closed])).bind fun _ call =>
    ensures_ok (by simp [Audit.marker, call])

theorem closed_syncTaxonomies (methods : List Signature)
    (listed : (s!"sync{pascal}Taxonomies", 2) ∈ methods) {post : Expr}
    (closed : post.Closed methods) : Ensures (AllClosed methods) (syncTaxonomies pascal post) :=
  (Expr.closed_thisCall listed (by simp [closed])).bind fun _ call =>
    ensures_ok (by simp +decide [Audit.marker, call])

theorem closed_storedValue (type : MetaType) {value : Expr} (closed : value.Closed methods) :
    (storedValue type value).Closed methods := by
  rw [storedValue]
  cases filtered : scalarFilter type value with
  | none => exact closed
  | some safe => exact closed_scalarFilter closed filtered

theorem closed_storeMeta (methods : List Signature) (key : String) (field : MetaField) :
    Ensures (AllClosed methods) (storeMeta key field) := by
  refine (Expr.closed_ofVariable methods _).bind fun value ⟨assignable, closed⟩ => ?_
  cases field.single with
  | true => exact ensures_ok (by
      simp +decide [Expr.notNull, closed_storedValue, assignable, closed])
  | false =>
      refine (Expr.closed_ofVariable methods _).bind fun item ⟨_, itemClosed⟩ => ensures_ok ?_
      simp +decide [Expr.notNull, Expr.toArray, closed_storedValue, assignable, closed, itemClosed]

theorem answers_metaMethod (methods : List Signature) (fields : List (String × MetaField)) :
    Ensures (Answers methods (s!"sync{pascal}Meta", 2)) (metaMethod pascal fields) := by
  refine ensures_mapM_bind (fun field => closed_storeMeta methods field.1 field.2) fun _ each => ?_
  exact (ensures_method_of _).bind_eq (ensures_ok ⟨rfl, rfl, allClosed_spaced each⟩)

theorem closed_storeTerms (methods : List Signature) (key : String) (taxonomy : Taxonomy) :
    Ensures (AllClosed methods) (storeTerms key taxonomy) :=
  (Expr.closed_ofVariable methods _).bind fun _ terms =>
    (Expr.closed_ofVariable methods _).bind fun _ result => ensures_ok (by
      simp +decide [Expr.notNull, closed_termIds, terms, result])

theorem answers_taxonomiesMethod (methods : List Signature)
    (taxonomies : List (String × Taxonomy)) :
    Ensures (Answers methods (s!"sync{pascal}Taxonomies", 2))
      (taxonomiesMethod pascal taxonomies) := by
  refine ensures_mapM_bind (fun taxonomy => closed_storeTerms methods taxonomy.1 taxonomy.2)
    fun _ each => ?_
  exact (ensures_method_of _).bind_eq (ensures_ok ⟨rfl, rfl, by simp [allClosed_flatten each]⟩)

end Snippet

/-! ## Handlers of each storage -/

namespace Handler

open Snippet

/-- The statements of a composed handler are closed under some methods. -/
def Calls (methods : List Signature) (composed : Composed) : Prop :=
  Ensures (fun handler => ∀ found ∈ handler, AllClosed methods found.body) composed

theorem calls_none {methods : List Signature} : Calls methods (.ok none) := ensures_ok (by simp)

theorem calls_some {methods : List Signature} {body : List Stmt} {events : List CacheEvent}
    (closed : AllClosed methods body) : Calls methods (.ok (some ⟨body, events⟩)) :=
  ensures_ok (by simpa using closed)

/-- The made methods have these signatures, and their bodies are closed under them. -/
def Answered (signatures : List Signature) (made : List Php.Method) : Prop :=
  List.Forall₂ (Answers signatures) signatures made

variable {resource : Resource} {pascal : String} {identity : Identity} {metadata : Metadata}

@[simp]
theorem closed_notFound {methods : List Signature} (name : String) :
    (notFound name pascal).Closed methods :=
  closed_returnError _ _ _

namespace Post

/-- The methods of resources stored as posts. -/
def signatures (pascal : String) : List Signature :=
  [(s!"get{pascal}PostType", 0), (s!"resolve{pascal}Post", 1), (s!"prepare{pascal}Response", 2),
   (s!"normalise{pascal}Status", 1), (s!"sync{pascal}Meta", 2), (s!"sync{pascal}Taxonomies", 2)]

theorem closed_postType : Ensures (Expr.Closed (signatures pascal)) (postType pascal) :=
  Expr.closed_thisCall (by simp [signatures]) (by simp)

theorem closed_prepared {post : Expr} (closed : post.Closed (signatures pascal)) :
    Ensures (Expr.Closed (signatures pascal)) (prepared pascal post) :=
  Expr.closed_thisCall (by simp [signatures]) (by simp [closed])

theorem allClosed_postFields (supports : List Support) :
    AllClosed (signatures pascal) (postFields supports) := by
  rw [postFields, List.flatMap]
  apply allClosed_flatten
  rw [List.forall_mem_map]
  intro support member
  cases support <;> simp +decide [supportField, Expr.notNull, Expr.toText]

theorem closed_resolvePost :
    Ensures (AllClosed (signatures pascal)) (resolvePost resource pascal identity) := by
  refine (closed_takeIdentity (signatures pascal)).bind fun _ taken => ?_
  refine (Expr.closed_ofVariable (signatures pascal) _).bind fun param ⟨_, closed⟩ => ?_
  have called : Ensures (Expr.Closed (signatures pascal))
      (Expr.thisCall s!"resolve{pascal}Post" [param]) :=
    Expr.closed_thisCall (by simp [signatures]) (by simp [closed])
  exact called.bind fun _ found => ensures_ok (by simp +decide [taken, found])

theorem closed_listBody (storage : PostStorage) :
    Ensures (AllClosed (signatures pascal)) (listBody storage pascal) :=
  (closed_queryArgs (signatures pascal) (by simp [signatures]) _).bind fun _ args =>
    (closed_metaQuery (signatures pascal) _).bind fun _ metaClauses =>
      (closed_taxonomyQuery (signatures pascal) _).bind fun _ termClauses =>
        (closed_prepared (Expr.closed_var.mpr (by decide))).bind fun _ item => ensures_ok (by
          simp +decide [listing, args, metaClauses, termClauses, item, allClosed_pagination,
            Expr.toInt])

theorem closed_reload {post : Expr} (closed : post.Closed (signatures pascal)) {target : String}
    (checked : isIdentifier target = true) (verb name : String) :
    Ensures (AllClosed (signatures pascal)) (reload pascal name post target verb) :=
  (closed_prepared (Expr.closed_var.mpr checked)).bind fun _ item => ensures_ok (by
    simp +decide [Audit.marker, item, closed, checked])

/-- The calls that store the meta keys and the terms of a request go to methods of the storage. -/
theorem closed_synchronised {post : Expr} (closed : post.Closed (signatures pascal)) :
    Ensures (AllClosed (signatures pascal)) (syncMeta pascal post) ∧
      Ensures (AllClosed (signatures pascal)) (syncTaxonomies pascal post) :=
  ⟨closed_syncMeta _ (by simp [signatures]) closed,
    closed_syncTaxonomies _ (by simp [signatures]) closed⟩

theorem closed_createBody (storage : PostStorage) :
    Ensures (AllClosed (signatures pascal)) (createBody resource storage pascal) := by
  have post : (Expr.var "post_id").Closed (signatures pascal) := Expr.closed_var.mpr (by decide)
  exact closed_postType.bind fun _ type =>
    (closed_statusValidation (signatures pascal) (by simp [signatures]) _ _).bind fun _ status =>
      (closed_synchronised post).1.bind fun _ storeMeta =>
        (closed_synchronised post).2.bind fun _ storeTerms =>
          (closed_reload post (by decide) _ _).bind fun _ reloaded => ensures_ok (by
            simp +decide [type, status, storeMeta, storeTerms, reloaded, allClosed_postFields])

theorem closed_postId {methods : List Signature} : postId.Closed methods := by
  simp +decide [postId]

theorem closed_updateBody (storage : PostStorage) :
    Ensures (AllClosed (signatures pascal)) (updateBody resource storage pascal identity) :=
  closed_resolvePost.bind fun _ resolved => closed_postType.bind fun _ type =>
    (closed_statusValidation (signatures pascal) (by simp [signatures]) _ _).bind fun _ status =>
      (closed_synchronised closed_postId).1.bind fun _ storeMeta =>
        (closed_synchronised closed_postId).2.bind fun _ storeTerms =>
          (closed_reload closed_postId (by decide) _ _).bind fun _ reloaded => ensures_ok (by
            simp +decide [resolved, type, status, storeMeta, storeTerms, reloaded,
              allClosed_postFields, closed_postId])

theorem closed_deleteBody :
    Ensures (AllClosed (signatures pascal)) (deleteBody resource pascal identity) :=
  closed_resolvePost.bind fun _ resolved =>
    (closed_prepared (Expr.closed_var.mpr (by decide))).bind fun _ previous => ensures_ok (by
      simp +decide [resolved, previous, closed_postId, Expr.isFalse, Expr.toInt])

/-- The handlers of posts call methods of the storage only. -/
theorem calls_handler (kind : RouteKind) :
    Calls (signatures pascal) (handler resource pascal kind metadata) := by
  cases stored : resource.post? with
  | none =>
      unfold handler
      split <;> simp [list, create, get, update, delete, stored, calls_none]
  | some storage =>
      unfold handler
      split
      · rw [list, stored]
        exact (closed_listBody storage).bind fun _ => calls_some
      · rw [create, stored]
        exact (closed_createBody storage).bind fun _ => calls_some
      · rw [get, stored]
        exact closed_resolvePost.bind fun _ resolved =>
          (closed_prepared (Expr.closed_var.mpr (by decide))).bind fun _ item =>
            calls_some (by simp [resolved, item])
      · rw [update, stored]
        exact (closed_updateBody storage).bind fun _ => calls_some
      · rw [delete, stored]
        exact closed_deleteBody.bind fun _ => calls_some
      · exact calls_none

theorem allClosed_responseExtras {methods : List Signature} (storage : PostStorage) :
    AllClosed methods (responseExtras storage) := by
  have data (key : String) : ((Expr.var "data").entry key).Closed methods := by simp +decide
  have sets {α : Type} (f : α → Stmt) (closed : ∀ item, (f item).Closed methods)
      (items : List α) : AllClosed methods (items.map f) :=
    List.forall_mem_map.mpr fun item _ => closed item
  unfold responseExtras
  simp only
  split
  · exact allClosed_nil
  · rw [List.cons_append, allClosed_cons, allClosed_append]
    refine ⟨closed_blank, sets _ (fun item => ?_) _, sets _ (fun item => ?_) _⟩ <;>
      simp +decide [data, closed_postId]

theorem closed_findByName {name : Expr} (closed : name.Closed (signatures pascal)) :
    Ensures (AllClosed (signatures pascal)) (findByName pascal name) :=
  closed_postType.bind fun _ type => ensures_ok (by simp +decide [type, closed])

theorem closed_lookup (identity : Option Identity) :
    Ensures (fun found => found.1.parts = [] ∧ AllClosed (signatures pascal) found.2)
      (lookup pascal identity) := by
  refine (Expr.closed_ofVariable (signatures pascal) _).bind fun value ⟨_, closed⟩ => ?_
  have typed (type name : String) :
      Ensures (fun param => param.parts = []) (Param.typed type name) := by
    intro param made
    obtain ⟨word, -, rfl⟩ := map_eq_ok_iff.mp made
    rfl
  cases (identity.getD ⟨.number, "id"⟩).kind with
  | string =>
      exact (closed_findByName closed).bind fun _ found => (typed _ _).bind fun _ parts =>
        ensures_ok ⟨parts, found⟩
  | number =>
      exact (typed _ _).bind fun _ parts => ensures_ok ⟨parts, by simp +decide [closed]⟩

theorem answers_resolveMethod (identity : Option Identity) :
    Ensures (Answers (signatures pascal) (s!"resolve{pascal}Post", 1))
      (resolveMethod pascal identity) := by
  refine (closed_lookup identity).bind fun ⟨param, found⟩ ⟨parts, closed⟩ =>
    closed_postType.bind fun _ type => (ensures_method_of _).bind_eq ?_
  refine ensures_ok ⟨rfl, ?_, by simp +decide [closed, type]⟩
  exact (List.flatMap_singleton Param.parts param).trans parts

theorem answers_prepareMethod (storage : PostStorage) :
    Ensures (Answers (signatures pascal) (s!"prepare{pascal}Response", 2))
      (prepareMethod pascal storage) := by
  have extra (key : String) (value : Expr) (support : Support)
      (made : responseField support = some (key, value)) : value.Closed (signatures pascal) := by
    cases support <;> cases made <;> simp +decide
  refine (ensures_method_of _).bind_eq ?_
  refine ensures_ok ⟨rfl, rfl, ?_⟩
  simpa +decide [allClosed_responseExtras, closed_postId, Expr.toInt] using
    fun key value support _ => extra key value support

/-- The private methods of posts answer to the signatures of the storage. -/
theorem answered_methods {storage : PostStorage} (stored : resource.post? = some storage) :
    Ensures (Answered (signatures pascal)) (methods resource pascal) := by
  have typeMethod : Ensures (Answers (signatures pascal) (s!"get{pascal}PostType", 0))
      (postTypeMethod pascal storage) := by
    refine (ensures_method_of _).bind_eq ?_
    exact ensures_ok ⟨rfl, rfl, by simp⟩
  rw [methods, stored]
  exact typeMethod.bind fun _ first => (answers_resolveMethod _).bind fun _ second =>
    (answers_prepareMethod _).bind fun _ third => (answers_statusMethod _ _).bind fun _ status =>
      (answers_metaMethod _ _).bind fun _ storeMeta =>
        (answers_taxonomiesMethod _ _).bind fun _ storeTerms => ensures_ok
          (.cons first (.cons second (.cons third (.cons status
            (.cons storeMeta (.cons storeTerms .nil))))))

end Post

namespace Single

/-- The method of resources stored as an option. -/
def signatures (pascal : String) : List Signature := [(s!"get{pascal}OptionName", 0)]

theorem calls_handler (route : Route) (kind : RouteKind) :
    Calls (signatures pascal) (handler pascal route kind metadata) := by
  have called : Ensures (Expr.Closed (signatures pascal))
      (Expr.thisCall s!"get{pascal}OptionName" []) :=
    Expr.closed_thisCall (List.mem_singleton.mpr rfl) (by simp)
  refine called.bind fun _ name => calls_some ?_
  cases route.method <;> simp +decide [body, Access.of, current, name]

/-- The private methods of single options answer to the signatures of the storage. -/
theorem answered_methods (option : String) :
    Ensures (Answered (signatures pascal)) (methods pascal option) := by
  refine (ensures_method_of _).bind_eq ?_
  exact ensures_ok (.cons ⟨rfl, rfl, by simp⟩ .nil)

end Single

namespace Term

/-- The methods of resources stored as terms. -/
def signatures (pascal : String) : List Signature :=
  [(s!"get{pascal}Taxonomy", 0), (s!"prepare{pascal}TermResponse", 1)]

theorem closed_taxonomy : Ensures (Expr.Closed (signatures pascal)) (taxonomy pascal) :=
  Expr.closed_thisCall (by simp [signatures]) (by simp)

theorem closed_prepared {term : Expr} (closed : term.Closed (signatures pascal)) :
    Ensures (Expr.Closed (signatures pascal)) (prepared pascal term) :=
  Expr.closed_thisCall (by simp [signatures]) (by simp [closed])

theorem closed_listBody : Ensures (AllClosed (signatures pascal)) (listBody pascal) :=
  closed_taxonomy.bind fun _ name =>
    (closed_prepared (Expr.closed_var.mpr (by decide))).bind fun _ item => ensures_ok (by
      simp +decide [name, item, allClosed_pagination, Expr.toInt])

theorem closed_lookup : Ensures (Expr.Closed (signatures pascal)) (lookup pascal identity) := by
  refine (Expr.closed_ofVariable (signatures pascal) _).bind fun _ ⟨_, value⟩ =>
    closed_taxonomy.bind fun _ name => ?_
  cases identity.kind <;> exact ensures_ok (by simp +decide [value, name])

theorem closed_getBody :
    Ensures (AllClosed (signatures pascal)) (getBody resource pascal identity) :=
  closed_lookup.bind fun _ found => (closed_takeIdentity (signatures pascal)).bind fun _ taken =>
    (closed_prepared (Expr.closed_var.mpr (by decide))).bind fun _ item => ensures_ok (by
      simp +decide [found, taken, item])

/-- The handlers of terms call methods of the storage only. -/
theorem calls_handler (route : Route) (kind : RouteKind) :
    Calls (signatures pascal) (handler resource pascal route kind metadata) := by
  unfold handler
  simp only
  split
  · exact closed_listBody.bind fun _ => calls_some
  · split
    · exact closed_getBody.bind fun _ => calls_some
    · exact calls_none

/-- The private methods of terms answer to the signatures of the storage. -/
theorem answered_methods (taxonomy : String) :
    Ensures (Answered (signatures pascal)) (methods pascal taxonomy) := by
  refine (ensures_method_of _).bind_eq ?_
  refine (ensures_method_of _).bind_eq ?_
  refine ensures_ok (.cons ⟨rfl, rfl, by simp⟩ (.cons ⟨rfl, rfl, ?_⟩ .nil))
  simp +decide [responseFields, Expr.toInt]

end Term

namespace Transient

/-- The method of resources stored as transients. -/
def signatures (pascal : String) (identity : Option Identity) : List Signature :=
  [(s!"get{pascal}TransientKey", identity.toList.length)]

theorem closed_key (identity : Option Identity) :
    Ensures (Expr.Closed (signatures pascal identity)) (key pascal identity) := by
  cases identity with
  | none => exact Expr.closed_thisCall (List.mem_singleton.mpr rfl) (by simp)
  | some identity =>
      rw [key, Option.toList_some, List.mapM_cons, List.mapM_nil, bind_assoc]
      refine (Expr.closed_ofVariable (signatures pascal (some identity)) _).bind
        fun value ⟨_, closed⟩ => ?_
      exact Expr.closed_thisCall (List.mem_singleton.mpr rfl)
        (List.forall_mem_singleton.mpr closed)

theorem closed_echo (methods : List Signature) (identity : Option Identity) :
    Ensures (fun echoed => ∀ field ∈ echoed, field.2.Closed methods) (echo identity) :=
  ensures_mapM fun _ _ => (Expr.closed_ofVariable methods _).bind fun _ value =>
    ensures_ok value.2

theorem allClosed_body {methods : List Signature} {key : Expr} {echoed : List (String × Expr)}
    (closed : key.Closed methods) (echoedClosed : ∀ field ∈ echoed, field.2.Closed methods)
    (access : Access) (name : String) : AllClosed methods (body name pascal key echoed access) := by
  have fields : ∀ key value, (key, value) ∈ echoed → value.Closed methods :=
    fun key value => echoedClosed (key, value)
  cases access <;>
    simpa +decide [body, closed, Expr.isFalse, Expr.toInt, or_imp, forall_and] using fields

/-- The handlers of transients call methods of the storage only. -/
theorem calls_handler (route : Route) (kind : RouteKind) :
    Calls (signatures pascal resource.identity) (handler resource pascal route kind metadata) := by
  unfold handler
  split
  · have taken : Ensures (AllClosed (signatures pascal resource.identity))
        (takeIdentity? resource pascal) := by
      rw [takeIdentity?]
      split
      · exact ensures_ok allClosed_nil
      · exact closed_takeIdentity _
    exact taken.bind fun _ takenClosed => (closed_key _).bind fun _ keyClosed =>
      (closed_echo _ _).bind fun _ echoedClosed => calls_some
        (allClosed_append.mpr ⟨takenClosed, allClosed_body keyClosed echoedClosed _ _⟩)
  · exact calls_none

/-- The private methods of transients answer to the signatures of the storage. -/
theorem answered_methods (identity : Option Identity) (beginning : String) :
    Ensures (Answered (signatures pascal identity)) (methods pascal identity beginning) := by
  refine (ensures_method_of _).bind_eq ?_
  cases identity with
  | none => exact ensures_ok (.cons ⟨rfl, rfl, by simp⟩ .nil)
  | some identity =>
      intro made done
      obtain ⟨param, paramEq, done⟩ := bind_eq_ok_iff.mp done
      obtain ⟨value, valueEq, done⟩ := bind_eq_ok_iff.mp done
      obtain ⟨word, -, rfl⟩ := map_eq_ok_iff.mp paramEq
      have closed := (Expr.closed_ofVariable (signatures pascal (some identity)) _ value valueEq).2
      cases done
      exact .cons ⟨rfl, rfl, by simp [Expr.toText, closed]⟩ .nil

end Transient

/-! ## Any route -/

/-- The methods of a resource. -/
def signatures (resource : Resource) (pascal : String) : List Signature :=
  match resource.storage with
  | none => []
  | some (.post _) => Post.signatures pascal
  | some .transient => Transient.signatures pascal resource.identity
  | some (.option _) => Single.signatures pascal
  | some (.taxonomy _ _) => Term.signatures pascal

theorem calls_supported (route : Route) (kind : RouteKind) :
    Calls (signatures resource pascal) (supported resource pascal route kind metadata) := by
  unfold supported signatures
  cases resource.storage with
  | none => exact calls_none
  | some storage =>
      cases storage with
      | post storage => exact Post.calls_handler kind
      | transient => exact Transient.calls_handler route kind
      | option name => exact Single.calls_handler route kind
      | taxonomy name hierarchical => exact Term.calls_handler route kind

/-- The body of a handler calls nothing but the methods of its resource. -/
theorem closed_ofRoute (route : Route) (kind : RouteKind) :
    Ensures (fun handler => AllClosed (signatures resource pascal) handler.body)
      (ofRoute resource pascal route kind metadata) := by
  refine (calls_supported route kind).bind fun composed closed => ensures_ok ?_
  cases composed with
  | none => simp +decide [stub]
  | some handler => exact closed handler rfl

/-- The private methods of a resource are those that may be called, and they call no others. -/
theorem answered_methods (beginning : String) :
    Ensures (Answered (signatures resource pascal)) (methods resource pascal beginning) := by
  unfold methods signatures
  cases stored : resource.storage with
  | none => exact ensures_ok .nil
  | some storage =>
      cases storage with
      | post storage => exact Post.answered_methods (by rw [Resource.post?, stored])
      | transient => exact Transient.answered_methods _ _
      | option name => exact Single.answered_methods _
      | taxonomy name hierarchical => exact Term.answered_methods _

end Handler

end RestPlugin
