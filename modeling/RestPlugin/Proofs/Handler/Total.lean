import RestPlugin.Handler.Compose
import RestPlugin.Proofs.Ir.Names
import RestPlugin.Proofs.Php.Names

/-!
# Handlers are always composed

The names in a handler are fixed, or a fixed word with the pascal case of the resource behind it, or
a word of a well-named resource.  All of these are identifiers, so composing the handlers of a
well-named resource and the methods they call never fails, whatever the storage and the route.
-/

namespace RestPlugin

open Controller Ir Php Text

/-! ## Names around a resource -/

/-- A name in pascal case. -/
def IsPascal (pascal : String) : Prop := ∀ c ∈ pascal.toList, isAlnum c = true

/-- The pascal case of any text can stand inside of names. -/
theorem isPascal_pascalCase (name : String) : IsPascal (pascalCase name) :=
  isAlnum_of_mem_pascalCase name

section Pascal

variable {pascal before after : String} (word : IsPascal pascal)
  (start : isIdentifier before = true) (rest : after.toList.all isWord = true)
include word start rest

theorem isIdentifier_around : isIdentifier (before ++ pascal ++ after) = true := by
  apply isIdentifier_append _ (List.all_eq_true.mp rest)
  exact isIdentifier_append start fun c member => isWord_of_isAlnum (word c member)

theorem succeeds_call (args : List Expr) :
    Succeeds (Expr.thisCall (before ++ pascal ++ after) args) :=
  ⟨_, thisCall_eq_ok (isIdentifier_around word start rest) args⟩

theorem succeeds_method : Succeeds (Method.of (before ++ pascal ++ after)) :=
  ⟨_, method_eq_ok (isIdentifier_around word start rest)⟩

end Pascal

theorem succeeds_variable {value : String} (checked : isIdentifier value = true) :
    Succeeds (Expr.ofVariable value) :=
  ⟨_, ofVariable_eq_ok checked⟩

theorem succeeds_suffixed {value suffix : String} (checked : isIdentifier value = true)
    (rest : suffix.toList.all isWord = true) : Succeeds (Expr.ofVariable (value ++ suffix)) :=
  succeeds_variable (isIdentifier_append checked (List.all_eq_true.mp rest))

/-! ## Snippets -/

namespace Snippet

variable {pascal resource : String} {identity : Identity}

/-- An identity whose parameter is an identifier can be taken from the request. -/
theorem succeeds_takeIdentity (checked : isIdentifier identity.param = true) :
    Succeeds (takeIdentity identity pascal resource) := by
  have read : Succeeds (readIdentity identity) :=
    (succeeds_variable checked).bind fun _ => succeeds_ok _
  have guarded : Succeeds (identityGuard identity pascal resource) := by
    refine (succeeds_variable checked).bind fun value => ?_
    cases identity.kind <;> exact succeeds_ok _
  exact read.bind fun _ => guarded.bind fun _ => succeeds_ok _

section Fields

variable {key : String} (checked : isIdentifier (snakeCase key) = true)
include checked

theorem succeeds_metaFieldQuery (field : MetaField) : Succeeds (metaFieldQuery key field) := by
  refine (succeeds_suffixed checked (by decide)).bind fun value => ?_
  cases metaClause key field value <;> exact succeeds_ok _

theorem succeeds_termQuery (taxonomy : Taxonomy) : Succeeds (termQuery key taxonomy) :=
  (succeeds_suffixed checked (by decide)).bind fun _ => succeeds_ok _

theorem succeeds_storeMeta (field : MetaField) : Succeeds (storeMeta key field) := by
  refine (succeeds_suffixed checked (by decide)).bind fun value => ?_
  cases field.single with
  | true => exact succeeds_ok _
  | false => exact (succeeds_suffixed checked (by decide)).bind fun _ => succeeds_ok _

theorem succeeds_storeTerms (taxonomy : Taxonomy) : Succeeds (storeTerms key taxonomy) :=
  (succeeds_suffixed checked (by decide)).bind fun _ =>
    (succeeds_suffixed checked (by decide)).bind fun _ => succeeds_ok _

end Fields

theorem succeeds_metaQuery {fields : List (String × MetaField)}
    (checked : ∀ entry ∈ fields, isIdentifier (snakeCase entry.1) = true) :
    Succeeds (metaQuery fields) :=
  succeeds_mapM_bind (fun entry member => succeeds_metaFieldQuery (checked entry member) _)
    fun _ => succeeds_ok _

theorem succeeds_taxonomyQuery {taxonomies : List (String × Taxonomy)}
    (checked : ∀ entry ∈ taxonomies, isIdentifier (snakeCase entry.1) = true) :
    Succeeds (taxonomyQuery taxonomies) :=
  succeeds_mapM_bind (fun entry member => succeeds_termQuery (checked entry member) _)
    fun _ => succeeds_ok _

section Pascal

variable (word : IsPascal pascal)
include word

theorem succeeds_queryArgs (statuses : List String) : Succeeds (queryArgs pascal statuses) :=
  (succeeds_call word (by decide) (by decide) _).bind fun _ => succeeds_ok _

theorem succeeds_statusValidation (statuses : List String) (target : StatusTarget) :
    Succeeds (statusValidation pascal resource statuses target) :=
  (succeeds_call word (by decide) (by decide) _).bind fun _ => succeeds_ok _

theorem succeeds_statusMethod (statuses : List String) : Succeeds (statusMethod pascal statuses) :=
  (succeeds_method word (by decide) (by decide)).bind fun _ => succeeds_ok _

theorem succeeds_syncMeta (post : Expr) : Succeeds (syncMeta pascal post) :=
  (succeeds_call word (by decide) (by decide) _).bind fun _ => succeeds_ok _

theorem succeeds_syncTaxonomies (post : Expr) : Succeeds (syncTaxonomies pascal post) :=
  (succeeds_call word (by decide) (by decide) _).bind fun _ => succeeds_ok _

theorem succeeds_metaMethod {fields : List (String × MetaField)}
    (checked : ∀ entry ∈ fields, isIdentifier (snakeCase entry.1) = true) :
    Succeeds (metaMethod pascal fields) :=
  succeeds_mapM_bind (fun entry member => succeeds_storeMeta (checked entry member) _)
    fun _ => (succeeds_method word (by decide) (by decide)).bind fun _ => succeeds_ok _

theorem succeeds_taxonomiesMethod {taxonomies : List (String × Taxonomy)}
    (checked : ∀ entry ∈ taxonomies, isIdentifier (snakeCase entry.1) = true) :
    Succeeds (taxonomiesMethod pascal taxonomies) :=
  succeeds_mapM_bind (fun entry member => succeeds_storeTerms (checked entry member) _)
    fun _ => (succeeds_method word (by decide) (by decide)).bind fun _ => succeeds_ok _

end Pascal

end Snippet

/-! ## Handlers of each storage -/

namespace Handler

open Snippet

namespace Post

variable {resource : Resource} {pascal : String} {identity : Identity}

section Pascal

variable (word : IsPascal pascal)
include word

theorem succeeds_postType : Succeeds (postType pascal) :=
  succeeds_call word (by decide) (by decide) _

theorem succeeds_prepared (post : Expr) : Succeeds (prepared pascal post) :=
  succeeds_call word (by decide) (by decide) _

theorem succeeds_reload {name target verb : String} (post : Expr) :
    Succeeds (reload pascal name post target verb) :=
  (succeeds_prepared word _).bind fun _ => succeeds_ok _

theorem succeeds_resolvePost (checked : isIdentifier identity.param = true) :
    Succeeds (resolvePost resource pascal identity) :=
  (succeeds_takeIdentity checked).bind fun _ => (succeeds_variable checked).bind fun _ =>
    (succeeds_call word (by decide) (by decide) _).bind fun _ => succeeds_ok _

theorem succeeds_createBody (storage : PostStorage) :
    Succeeds (createBody resource storage pascal) :=
  (succeeds_postType word).bind fun _ => (succeeds_statusValidation word _ _).bind fun _ =>
    (succeeds_syncMeta word _).bind fun _ => (succeeds_syncTaxonomies word _).bind fun _ =>
      (succeeds_reload word _).bind fun _ => succeeds_ok _

theorem succeeds_updateBody (storage : PostStorage) (checked : isIdentifier identity.param = true) :
    Succeeds (updateBody resource storage pascal identity) :=
  (succeeds_resolvePost word checked).bind fun _ => (succeeds_postType word).bind fun _ =>
    (succeeds_statusValidation word _ _).bind fun _ => (succeeds_syncMeta word _).bind fun _ =>
      (succeeds_syncTaxonomies word _).bind fun _ => (succeeds_reload word _).bind fun _ =>
        succeeds_ok _

theorem succeeds_deleteBody (checked : isIdentifier identity.param = true) :
    Succeeds (deleteBody resource pascal identity) :=
  (succeeds_resolvePost word checked).bind fun _ =>
    (succeeds_prepared word _).bind fun _ => succeeds_ok _

/-- The handler that creates posts can be composed. -/
theorem succeeds_create (metadata : Metadata) : Succeeds (create resource pascal metadata) := by
  rw [create]
  split
  · exact succeeds_ok _
  · exact (succeeds_createBody word _).bind fun _ => succeeds_ok _

section Identified

variable (checked : isIdentifier identity.param = true) (metadata : Metadata)
include checked

/-- The handler that gets a post can be composed. -/
theorem succeeds_get : Succeeds (get resource pascal identity metadata) := by
  rw [get]
  split
  · exact succeeds_ok _
  · exact (succeeds_resolvePost word checked).bind fun _ =>
      (succeeds_prepared word _).bind fun _ => succeeds_ok _

/-- The handler that updates a post can be composed. -/
theorem succeeds_update : Succeeds (update resource pascal identity metadata) := by
  rw [update]
  split
  · exact succeeds_ok _
  · exact (succeeds_updateBody word _ checked).bind fun _ => succeeds_ok _

/-- The handler that deletes a post can be composed. -/
theorem succeeds_delete : Succeeds (delete resource pascal identity metadata) := by
  rw [delete]
  split
  · exact succeeds_ok _
  · exact (succeeds_deleteBody word checked).bind fun _ => succeeds_ok _

end Identified

end Pascal

variable (word : IsPascal pascal) (named : resource.WellNamed)
include word named

theorem succeeds_listBody {storage : PostStorage} (stored : resource.post? = some storage) :
    Succeeds (listBody storage pascal) :=
  (succeeds_queryArgs word _).bind fun _ =>
    (succeeds_metaQuery (named.metaKeys storage stored)).bind fun _ =>
      (succeeds_taxonomyQuery (named.taxonomyKeys storage stored)).bind fun _ =>
        (succeeds_prepared word _).bind fun _ => succeeds_ok _

/-- The handler that lists posts can be composed. -/
theorem succeeds_list (metadata : Metadata) : Succeeds (list resource pascal metadata) := by
  rw [list]
  split
  · exact succeeds_ok _
  · exact (succeeds_listBody word named ‹_›).bind fun _ => succeeds_ok _

/-- The handlers of posts can be composed, whatever the route. -/
theorem succeeds_handler (kind : RouteKind) (metadata : Metadata) :
    Succeeds (handler resource pascal kind metadata) := by
  unfold handler
  split
  · exact succeeds_list word named metadata
  · exact succeeds_create word metadata
  · exact succeeds_get word (named.identity _ ‹_›) metadata
  · exact succeeds_update word (named.identity _ ‹_›) metadata
  · exact succeeds_delete word (named.identity _ ‹_›) metadata
  · exact succeeds_ok _

theorem succeeds_lookup : Succeeds (lookup pascal resource.identity) := by
  have checked : isIdentifier (resource.identity.getD ⟨.number, "id"⟩).param = true := by
    cases identified : resource.identity with
    | none => decide
    | some identity => exact named.identity identity identified
  refine (succeeds_variable checked).bind fun value => ?_
  cases (resource.identity.getD ⟨.number, "id"⟩).kind with
  | string =>
      refine Succeeds.bind ((succeeds_postType word).bind fun _ => succeeds_ok _) fun _ => ?_
      exact Succeeds.bind ⟨_, typed_eq_ok checked _⟩ fun _ => succeeds_ok _
  | number => exact Succeeds.bind ⟨_, typed_eq_ok checked _⟩ fun _ => succeeds_ok _

/-- The private methods of posts can be made. -/
theorem succeeds_methods : Succeeds (methods resource pascal) := by
  cases stored : resource.post? with
  | none =>
      rw [methods, stored]
      exact succeeds_ok _
  | some storage =>
      have typeMethod : Succeeds (postTypeMethod pascal storage) :=
        (succeeds_method word (by decide) (by decide)).bind fun _ => succeeds_ok _
      have resolve : Succeeds (resolveMethod pascal resource.identity) :=
        (succeeds_lookup word named).bind fun _ => (succeeds_postType word).bind fun _ =>
          (succeeds_method word (by decide) (by decide)).bind fun _ => succeeds_ok _
      have prepare : Succeeds (prepareMethod pascal storage) :=
        (succeeds_method word (by decide) (by decide)).bind fun _ => succeeds_ok _
      rw [methods, stored]
      exact typeMethod.bind fun _ => resolve.bind fun _ => prepare.bind fun _ =>
        (succeeds_statusMethod word _).bind fun _ =>
          (succeeds_metaMethod word (named.metaKeys storage stored)).bind fun _ =>
            (succeeds_taxonomiesMethod word (named.taxonomyKeys storage stored)).bind fun _ =>
              succeeds_ok _

end Post

namespace Single

variable {pascal : String} (word : IsPascal pascal)
include word

theorem succeeds_handler (route : Route) (kind : RouteKind) (metadata : Metadata) :
    Succeeds (handler pascal route kind metadata) :=
  (succeeds_call word (by decide) (by decide) _).bind fun _ => succeeds_ok _

/-- The private methods of single options can be made. -/
theorem succeeds_methods (option : String) : Succeeds (methods pascal option) :=
  (succeeds_method word (by decide) (by decide)).bind fun _ => succeeds_ok _

end Single

namespace Term

variable {resource : Resource} {pascal : String} (word : IsPascal pascal)
include word

theorem succeeds_taxonomy : Succeeds (taxonomy pascal) :=
  succeeds_call word (by decide) (by decide) _

theorem succeeds_prepared (term : Expr) : Succeeds (prepared pascal term) :=
  succeeds_call word (by decide) (by decide) _

theorem succeeds_listBody : Succeeds (listBody pascal) :=
  (succeeds_taxonomy word).bind fun _ => (succeeds_prepared word _).bind fun _ => succeeds_ok _

theorem succeeds_getBody {identity : Identity} (checked : isIdentifier identity.param = true) :
    Succeeds (getBody resource pascal identity) := by
  have found : Succeeds (lookup pascal identity) := by
    refine (succeeds_variable checked).bind fun _ => (succeeds_taxonomy word).bind fun _ => ?_
    cases identity.kind <;> exact succeeds_ok _
  exact found.bind fun _ => (succeeds_takeIdentity checked).bind fun _ =>
    (succeeds_prepared word _).bind fun _ => succeeds_ok _

/-- The handlers of terms can be composed, whatever the route. -/
theorem succeeds_handler (named : resource.WellNamed) (route : Route) (kind : RouteKind)
    (metadata : Metadata) : Succeeds (handler resource pascal route kind metadata) := by
  unfold handler
  split
  · exact (succeeds_listBody word).bind fun _ => succeeds_ok _
  · split
    · rename_i identified _
      exact (succeeds_getBody word (named.identity _ identified)).bind fun _ => succeeds_ok _
    · exact succeeds_ok _

/-- The private methods of terms can be made. -/
theorem succeeds_methods (taxonomy : String) : Succeeds (methods pascal taxonomy) :=
  (succeeds_method word (by decide) (by decide)).bind fun _ =>
    (succeeds_method word (by decide) (by decide)).bind fun _ => succeeds_ok _

end Term

namespace Transient

variable {resource : Resource} {pascal : String} (word : IsPascal pascal)
  (named : resource.WellNamed)
include word named

theorem succeeds_key : Succeeds (key pascal resource.identity) := by
  refine Succeeds.bind ?_ fun _ => succeeds_call word (by decide) (by decide) _
  rw [succeeds_mapM_iff]
  exact fun identity member =>
    succeeds_variable (named.identity identity (Option.mem_toList.mp member))

omit word in
theorem succeeds_echo : Succeeds (echo resource.identity) := by
  rw [echo, succeeds_mapM_iff]
  exact fun identity member =>
    (succeeds_variable (named.identity identity (Option.mem_toList.mp member))).bind fun _ =>
      succeeds_ok _

omit word in
theorem succeeds_takeIdentity? : Succeeds (takeIdentity? resource pascal) := by
  rw [takeIdentity?]
  split
  · exact succeeds_ok _
  · exact succeeds_takeIdentity (named.identity _ ‹_›)

theorem succeeds_handler (route : Route) (kind : RouteKind) (metadata : Metadata) :
    Succeeds (handler resource pascal route kind metadata) := by
  rw [handler]
  split
  · exact (succeeds_takeIdentity? named).bind fun _ => (succeeds_key word named).bind fun _ =>
      (succeeds_echo named).bind fun _ => succeeds_ok _
  · exact succeeds_ok _

/-- The private methods of transients can be made. -/
theorem succeeds_methods (beginning : String) :
    Succeeds (methods pascal resource.identity beginning) := by
  refine (succeeds_method word (by decide) (by decide)).bind fun _ => ?_
  cases identified : resource.identity with
  | none => exact succeeds_ok _
  | some identity =>
      have checked := named.identity identity identified
      exact Succeeds.bind ⟨_, typed_eq_ok checked _⟩ fun _ =>
        (succeeds_variable checked).bind fun _ => succeeds_ok _

end Transient

/-! ## Handlers of every storage -/

section Storage

variable {resource : Resource} {pascal : String} (word : IsPascal pascal)
  (named : resource.WellNamed)
include word named

/-- The handler of every route of a well-named resource is composed. -/
theorem succeeds_ofRoute (route : Route) (kind : RouteKind) (metadata : Metadata) :
    Succeeds (ofRoute resource pascal route kind metadata) := by
  refine Succeeds.bind ?_ fun _ => succeeds_ok _
  rw [supported]
  split
  · exact succeeds_ok _
  · exact Post.succeeds_handler word named kind metadata
  · exact Transient.succeeds_handler word named route kind metadata
  · exact Single.succeeds_handler word route kind metadata
  · exact Term.succeeds_handler word named route kind metadata

/-- The methods that the handlers of a well-named resource call are composed. -/
theorem succeeds_methods (beginning : String) : Succeeds (methods resource pascal beginning) := by
  rw [methods]
  split
  · exact succeeds_ok _
  · exact Post.succeeds_methods word named
  · exact Transient.succeeds_methods word named beginning
  · exact Single.succeeds_methods word _
  · exact Term.succeeds_methods word _

end Storage

end Handler

end RestPlugin
