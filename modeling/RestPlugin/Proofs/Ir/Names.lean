import RestPlugin.Php.Build
import RestPlugin.Proofs.Config.Checked
import RestPlugin.Proofs.Ir.Resource
import RestPlugin.Proofs.Ir.Routes

/-!
# Names in resolved resources

A resolved resource takes the words that become variables from its configuration or from a short
list: the parameter of its identity is one of those that can be inferred, and the keys of its meta
values and taxonomies are the declared ones.
-/

namespace RestPlugin.Ir

/-- The words of a resource that become variables are identifiers. -/
structure Resource.WellNamed (resource : Resource) : Prop where
  identity : ∀ identity ∈ resource.identity, Php.isIdentifier identity.param = true
  metaKeys : ∀ storage ∈ resource.post?, ∀ entry ∈ storage.metaFields,
    Php.isIdentifier (Text.snakeCase entry.1) = true
  taxonomyKeys : ∀ storage ∈ resource.post?, ∀ entry ∈ storage.taxonomies,
    Php.isIdentifier (Text.snakeCase entry.1) = true

theorem isIdentifier_of_mem_inferable : ∀ param ∈ inferable, Php.isIdentifier param = true := by
  decide

/-- A safe key becomes an identifier in snake case. -/
theorem isIdentifier_of_isSafeKey {key : String} (safe : Config.isSafeKey key = true) :
    Php.isIdentifier (Text.snakeCase key) = true := by
  have word : (fun d => d == '_' || Text.isAlnum d) = Text.isWord := by
    funext d
    rw [Text.isWord, Bool.or_comm]
  simp only [Config.isSafeKey, word] at safe
  rw [Php.isIdentifier]
  cases charsEq : (Text.snakeCase key).toList with
  | nil =>
      rw [charsEq] at safe
      cases safe
  | cons c rest =>
      rw [charsEq] at safe
      exact safe

theorem allowedParams_subset_inferable (kind : IdentityKind) : kind.allowedParams ⊆ inferable := by
  cases kind <;> decide

theorem param_of_identityOfPlaceholder {placeholder : String} {identity : Identity}
    (found : identityOfPlaceholder placeholder = some identity) : identity.param ∈ inferable := by
  rw [identityOfPlaceholder] at found
  split at found
  · rename_i isId
    cases found
    exact beq_iff_eq.mp isId ▸ by decide
  · split at found
    · rename_i isWord
      cases found
      rw [Bool.or_eq_true, beq_iff_eq, beq_iff_eq] at isWord
      rcases isWord with rfl | rfl <;> decide
    · cases found

theorem param_of_inferIdentity {name : String} {routes : List Route} {identity : Identity}
    (found : (inferIdentity name routes).identity = some identity) :
    identity.param ∈ inferable := by
  rw [inferIdentity] at found
  split at found
  · cases found
  · split at found
    · cases found
    · rename_i inferred inferredEq
      cases found
      exact param_of_identityOfPlaceholder inferredEq

/-- The identity of a resource is one that can be inferred, be it declared or not. -/
theorem param_of_resourceIdentity {resource : Config.Resource} (checked : resource.Checked)
    {routes : List Route} {identity : Identity}
    (found : (resourceIdentity resource routes).identity = some identity) :
    identity.param ∈ inferable := by
  have resolved :
      (resolveIdentity resource.name resource.identity routes).identity = some identity := by
    rw [resourceIdentity] at found
    split at found
    · cases found
    · exact found
  cases declaredEq : resource.identity with
  | none =>
      rw [declaredEq] at resolved
      exact param_of_inferIdentity resolved
  | some declared =>
      rw [declaredEq] at resolved
      cases resolved
      exact allowedParams_subset_inferable declared.kind (checked.identity declared declaredEq)

theorem mem_keys_of_mem_sorted_mapValues {α β : Type} {f : α → β} {entries : List (String × α)}
    {entry : String × β} (member : entry ∈ Keyed.sorted (Keyed.mapValues f entries)) :
    entry.1 ∈ entries.map (·.1) := by
  rw [← Keyed.map_fst_mapValues f entries]
  exact List.mem_map_of_mem (Keyed.mem_of_mem_sorted member)

theorem exists_postType (name slug : String) (declared : Config.PostStorage) :
    ∃ postType, (resolveStorage name (some (.post declared)) slug).storage =
      some (.post (.ofConfig postType declared)) := by
  cases typeEq : declared.postType with
  | none => exact ⟨(inferPostType name slug).1, by simp only [resolveStorage, typeEq]⟩
  | some postType => exact ⟨postType, by simp only [resolveStorage, typeEq]⟩

/-- The keys of a resolved post storage are declared. -/
theorem keys_of_resolveStorage {name slug : String} {storage : Option Config.Storage}
    {post : PostStorage}
    (resolved : (resolveStorage name storage slug).storage = some (.post post)) :
    ∃ declared, storage = some (.post declared) ∧
      (∀ entry ∈ post.metaFields, entry.1 ∈ declared.metaFields.map (·.1)) ∧
      ∀ entry ∈ post.taxonomies, entry.1 ∈ declared.taxonomies.map (·.1) := by
  rcases storage with _ | _ | _ | _ | declared
  · cases resolved
  · cases resolved
  · cases resolved
  · cases resolved
  · obtain ⟨postType, storageEq⟩ := exists_postType name slug declared
    rw [storageEq, Option.some_inj, Storage.post.injEq] at resolved
    rw [← resolved]
    exact ⟨declared, rfl, fun _ => mem_keys_of_mem_sorted_mapValues,
      fun _ => mem_keys_of_mem_sorted_mapValues⟩

/-- The name, identity and storage of a built resource come from its declaration. -/
theorem buildResource_fields {slug key : String} {claims after : Claims}
    {resource : Config.Resource} {built : Resource}
    (resolved : buildResource slug claims key resource = .ok (built, after)) :
    built.name = resource.name ∧
      built.identity = (resourceIdentity resource built.routes).identity ∧
      built.storage = (resolveStorage resource.name resource.storage slug).storage := by
  rw [buildResource] at resolved
  simp only [bind_eq_ok_iff] at resolved
  obtain ⟨routes, -, _, -, _, -, resolved⟩ := resolved
  cases resolved
  exact ⟨rfl, rfl, rfl⟩

/-- A resource built from a checked declaration is well named. -/
theorem wellNamed_of_buildResource {slug key : String} {claims after : Claims}
    {resource : Config.Resource} {built : Resource} (checked : resource.Checked)
    (resolved : buildResource slug claims key resource = .ok (built, after)) : built.WellNamed := by
  obtain ⟨-, identityEq, storageEq⟩ := buildResource_fields resolved
  have keys (post : PostStorage) (found : built.post? = some post) :
      (∀ entry ∈ post.metaFields, Php.isIdentifier (Text.snakeCase entry.1) = true) ∧
        ∀ entry ∈ post.taxonomies, Php.isIdentifier (Text.snakeCase entry.1) = true := by
    have stored :
        (resolveStorage resource.name resource.storage slug).storage = some (.post post) := by
      rw [← storageEq]
      rw [Resource.post?] at found
      split at found
      · cases found
        assumption
      · cases found
    obtain ⟨declared, declaredEq, inMeta, inTaxonomies⟩ := keys_of_resolveStorage stored
    have safe := checked.keys _ declaredEq
    exact ⟨fun entry member => isIdentifier_of_isSafeKey
        (safe _ (List.mem_append_left _ (inMeta entry member))),
      fun entry member => isIdentifier_of_isSafeKey
        (safe _ (List.mem_append_right _ (inTaxonomies entry member)))⟩
  constructor
  · intro identity found
    rw [identityEq] at found
    exact isIdentifier_of_mem_inferable _ (param_of_resourceIdentity checked found)
  · exact fun post found => (keys post found).1
  · exact fun post found => (keys post found).2

/-! ## Paths -/

/-- A resolved resource has the name of its declaration and the declared paths, normalised. -/
structure Resource.ResolvedFrom (built : Resource) (declared : Config.Resource) : Prop where
  name : built.name = declared.name
  paths : (built.routes.map fun route => Except.ok route.path).Perm
    (declared.routes.toList.map fun entry => normalisePath entry.2.path)

/-- A built resource is resolved from its declaration. -/
theorem resolvedFrom_of_buildResource {slug key : String} {claims after : Claims}
    {resource : Config.Resource} {built : Resource}
    (resolved : buildResource slug claims key resource = .ok (built, after)) :
    built.ResolvedFrom resource := by
  obtain ⟨⟨routes, perm, builtFrom⟩, -⟩ := builtFrom_of_buildResource resolved
  constructor
  · exact (buildResource_fields resolved).1
  · have paths := congrArg (List.map Prod.snd) (map_claim_of_builtFrom builtFrom)
    simp only [List.map_map, Function.comp_def, Route.claim, claimOf] at paths
    exact (perm.symm.map _).trans (List.Perm.of_eq paths)

/-! ## Names of all resources -/

/-- Resources resolved one after another have the names of their declarations. -/
theorem map_name_of_buildResourceList {slug : String} {claims : Claims}
    {declared : List (String × Config.Resource)} {resources : List Resource} {table : SchemaTable}
    (resolved : buildResourceList slug claims declared = .ok (resources, table)) :
    resources.map Resource.name = declared.map (·.2.name) := by
  rw [← List.forall₂_eq_eq_eq, List.forall₂_map_left_iff, List.forall₂_map_right_iff]
  exact (forall₂_of_buildResourceList resolved).imp
    fun _ _ ⟨_, _, found⟩ => (buildResource_fields found).1

/-- The resources of a representation are the configured ones, in another order. -/
theorem map_name_of_buildResources {loaded : Config.Loaded} {slug : String}
    {declared table : SchemaTable} {resources : List Resource}
    (built : buildResources loaded slug declared = .ok (resources, table)) :
    (resources.map Resource.name).Perm (loaded.config.resources.map (·.2.name)) := by
  obtain ⟨resolved, resolvedEq, rfl⟩ := exists_list_of_buildResources built
  have sorted := (List.mergeSort_perm resolved Resource.le).map Resource.name
  rw [map_name_of_buildResourceList resolvedEq] at sorted
  exact sorted.trans ((List.mergeSort_perm _ _).map _)

end RestPlugin.Ir
