import RestPlugin.Ir.Build
import RestPlugin.Proofs.Config.Reordering
import RestPlugin.Proofs.Ir.Capability
import RestPlugin.Proofs.Ir.Schema
import RestPlugin.Proofs.Lists

/-!
# Independence of the declaration order

Two configurations whose maps have the same entries in different orders come to the same
representation, with the same hash, or both fail.  Where they fail, the errors may differ, since the
first of several mistakes is reported.

Resolving a resource does not see the difference between it and its canonical form,
declarations with different keys are sorted in one way only, and the capability map depends on
the meanings of the declared keys.
-/

namespace RestPlugin.Ir

open Config

/-! ## Resolving canonical resources -/

/-- Sorting before the values are mapped makes no difference. -/
theorem sorted_mapValues_sorted {α β : Type} (f : α → β) (entries : List (String × α)) :
    Keyed.sorted (Keyed.mapValues f (Keyed.sorted entries)) =
      Keyed.sorted (Keyed.mapValues f entries) := by
  refine (Keyed.ascending_sorted _).ext (Keyed.ascending_sorted _) ?_
  intro key
  rw [((Keyed.ascending_sorted entries).mapValues f).distinct.get?_sorted, Keyed.get?_mapValues,
    Keyed.get?_sorted, Keyed.get?_sorted, ← Keyed.get?_mapValues, Keyed.mapValues, Keyed.mapValues,
    List.map_reverse]

theorem resolveStorage_canonical (resource : String) (storage : Option Config.Storage)
    (slug : String) :
    resolveStorage resource (storage.map Storage.canonical) slug =
      resolveStorage resource storage slug := by
  rcases storage with _ | _ | _ | _ | post
  case some.post =>
    simp only [Option.map_some, Storage.canonical, resolveStorage, PostStorage.ofConfig,
      sorted_mapValues_sorted]
  all_goals rfl

theorem schemaProperties_canonical (storage : Option Config.Storage) :
    schemaProperties (storage.map Storage.canonical) = schemaProperties storage := by
  rcases storage with _ | _ | _ | _ | post
  case some.post =>
    simp only [Option.map_some, Storage.canonical, schemaProperties, sorted_mapValues_sorted]
  all_goals rfl

theorem resourceIdentity_canonical (resource : Config.Resource) (routes : List Route) :
    resourceIdentity resource.canonical routes = resourceIdentity resource routes := by
  rcases resource with ⟨_, _, _, storage, _, _, _, _⟩
  rcases storage with _ | _ | _ | _ | post <;> rfl

theorem checkStorageIdentity_canonical (resource : String) (storage : Option Config.Storage)
    (declared : Option Config.Identity) (identity : Option Identity) (routes : List Route) :
    checkStorageIdentity resource (storage.map Storage.canonical) declared identity routes =
      checkStorageIdentity resource storage declared identity routes := by
  rcases storage with _ | _ | _ | _ | post <;> rfl

theorem schemaReference_canonical (resource : Config.Resource) :
    schemaReference resource.canonical = schemaReference resource := by
  rcases resource with ⟨_, _, _, storage, schema, _, _, _⟩
  cases schema <;> cases storage <;> rfl

theorem resolveSchema_canonical (table : SchemaTable) (key : String) (resource : Config.Resource)
    (slug : String) :
    resolveSchema table key resource.canonical slug = resolveSchema table key resource slug := by
  have synthesizedEq : Schema.synthesized key resource.canonical slug =
      Schema.synthesized key resource slug := by
    have documentEq : synthesize resource.canonical slug = synthesize resource slug := by
      rw [synthesize, synthesize]
      exact congrArg (fun properties => Json.sortKeys (.obj
        [_, _, _, _, _, ("properties", .obj properties)]))
          (schemaProperties_canonical resource.storage)
    simp only [Schema.synthesized, documentEq]
  rw [resolveSchema, resolveSchema, schemaReference_canonical, synthesizedEq]
  rfl

/-- Resolving a resource does not see the order of its maps. -/
theorem buildResource_canonical (slug : String) (claims : Claims) (key : String)
    (resource : Config.Resource) :
    buildResource slug claims key resource.canonical = buildResource slug claims key resource := by
  have paramsEq : (resource.queryParams.map Keyed.sorted).map
      (fun params => Keyed.sorted (Keyed.mapValues QueryParam.ofConfig params)) =
      resource.queryParams.map
        fun params => Keyed.sorted (Keyed.mapValues QueryParam.ofConfig params) := by
    cases resource.queryParams with
    | none => rfl
    | some params => exact congrArg some (sorted_mapValues_sorted _ params)
  simp only [buildResource, resolveSchema_canonical, resourceIdentity_canonical]
  simp only [Resource.canonical, checkStorageIdentity_canonical, resolveStorage_canonical, paramsEq]

/-- The entry of a resource in canonical form. -/
def canonicalEntry (entry : String × Config.Resource) : String × Config.Resource :=
  (entry.1, entry.2.canonical)

/-- Declarations are resolved as their canonical forms are. -/
theorem buildResourceList_map_canonicalEntry (slug : String) (claims : Claims)
    (declared : List (String × Config.Resource)) :
    buildResourceList slug claims (declared.map canonicalEntry) =
      buildResourceList slug claims declared := by
  induction declared generalizing claims with
  | nil => rfl
  | cons entry rest ih =>
      simp only [List.map_cons, canonicalEntry, buildResourceList, buildResource_canonical]
      exact congrArg _ (funext fun built => by rw [← ih])

/-! ## The order of declarations -/

/-- What a declaration is sorted by: its name, then its configuration key. -/
def declarationKey (entry : String × Config.Resource) : String ×ₗ String :=
  toLex (entry.2.name, entry.1)

theorem compares_declarationLe : Compares declarationLe declarationKey := fun first second => by
  rw [declarationKey, declarationKey, Prod.Lex.toLex_le_toLex, declarationLe, Bool.or_eq_true,
    decide_eq_true_iff, Bool.and_eq_true, beq_iff_eq, Bool.not_eq_true', decide_eq_false_iff_not,
    not_lt]

/-- Declarations with different keys are sorted in one way only. -/
theorem mergeSort_declarationLe_eq_of_perm {first second : List (String × Config.Resource)}
    (distinct : Keyed.Distinct first) (perm : first.Perm second) :
    first.mergeSort declarationLe = second.mergeSort declarationLe := by
  refine compares_declarationLe.mergeSort_eq_of_perm ?_ perm
  apply List.Nodup.of_map fun key => (ofLex key).2
  rw [List.map_map]
  exact distinct

theorem map_canonicalEntry_mergeSort (declared : List (String × Config.Resource)) :
    (declared.mergeSort declarationLe).map canonicalEntry =
      (declared.map canonicalEntry).mergeSort declarationLe :=
  List.map_mergeSort fun _ _ _ _ => rfl

/-! ## The parts of reordered configurations -/

section Reordered

variable {first second : Config.Loaded}

/-- Reordered declarations with different keys have the same canonical forms. -/
theorem map_canonicalEntry_eq_of_forall₂ {entries entries' : List (String × Config.Resource)}
    (reordered : List.Forall₂ EntryReordered entries entries')
    (distinct : ∀ entry ∈ entries, entry.2.DistinctKeys) :
    entries.map canonicalEntry = entries'.map canonicalEntry := by
  apply map_eq_map_of_forall₂ (fun _ _ => id)
  apply forall₂_imp_of_mem _ reordered
  intro entry member entry' _ related
  rw [canonicalEntry, canonicalEntry, related.1, related.2.canonical_eq (distinct entry member)]

theorem buildMeta_eq_of_reordered (reordered : first.Reordered second) :
    buildMeta first = buildMeta second := by
  simp only [buildMeta, Config.effectiveVersion, Config.Loaded.origin, reordered.version,
    reordered.declaredNamespace, reordered.sourcePath]

/-- Reordered resources are resolved to the same resources and schemas, with the same error if that
fails. -/
theorem buildResources_eq_of_reordered (distinct : first.DistinctKeys)
    (reordered : first.Reordered second) (slug : String) (table : SchemaTable) :
    buildResources first slug table = buildResources second slug table := by
  obtain ⟨entries, perm, related⟩ := reordered.resources
  have entriesEq : entries.map canonicalEntry = second.config.resources.map canonicalEntry :=
    map_canonicalEntry_eq_of_forall₂ related
      fun entry member => distinct.resource entry (perm.mem_iff.mpr member)
  have sortedEq : (first.config.resources.mergeSort declarationLe).map canonicalEntry =
      (second.config.resources.mergeSort declarationLe).map canonicalEntry := by
    rw [mergeSort_declarationLe_eq_of_perm distinct.resources perm, map_canonicalEntry_mergeSort,
      map_canonicalEntry_mergeSort, entriesEq]
  rw [buildResources, buildResources, ← buildResourceList_map_canonicalEntry, sortedEq,
    buildResourceList_map_canonicalEntry]

/-! ## Declared schemas -/

/-- Reordered declarations give the same table of schemas, if their documents are there. -/
theorem buildSchemas_eq_ok_of_reordered (distinct : first.DistinctKeys)
    (reordered : first.Reordered second) {table : SchemaTable} :
    buildSchemas first = .ok table ↔ buildSchemas second = .ok table := by
  have documentsEq : (fun key => Keyed.get? key first.schemas) =
      fun key => Keyed.get? key second.schemas :=
    funext (distinct.documents.get?_eq_of_perm reordered.documents)
  have entryEq : declaredEntry first.schemas = declaredEntry second.schemas := by
    funext entry
    rw [declaredEntry, declaredEntry, congrFun documentsEq]
  have sortedEq : Keyed.sorted (first.config.schemas.map (declaredEntry first.schemas)) =
      Keyed.sorted (second.config.schemas.map (declaredEntry second.schemas)) := by
    rw [entryEq]
    refine Keyed.Distinct.sorted_eq_of_perm ?_ (reordered.schemas.map _)
    rw [Keyed.Distinct, List.map_map]
    exact distinct.schemas
  rw [buildSchemas, buildSchemas, addDeclared_eq_ok_iff, addDeclared_eq_ok_iff]
  refine and_congr ?_ (by rw [← Keyed.sorted, sortedEq, Keyed.sorted])
  constructor
  · intro loaded entry member
    rw [← congrFun documentsEq]
    exact loaded entry (reordered.schemas.mem_iff.mpr member)
  · intro loaded entry member
    rw [congrFun documentsEq]
    exact loaded entry (reordered.schemas.mem_iff.mp member)

/-! ## Capabilities -/

theorem mem_getD_iff_of_rel {α : Type} {entries entries' : Option (List α)}
    (perm : Option.Rel List.Perm entries entries') (entry : α) :
    entry ∈ entries.getD [] ↔ entry ∈ entries'.getD [] := by
  cases perm with
  | none => rfl
  | some perm => exact perm.mem_iff

theorem isSome_eq_of_rel {α β : Type} {relation : α → β → Prop} {value : Option α}
    {value' : Option β} (related : Option.Rel relation value value') :
    value.isSome = value'.isSome := by
  cases related <;> rfl

/-- Reordered resources declare the same capabilities. -/
theorem mem_inline_iff_of_forall₂ {entries entries' : List (String × Config.Resource)}
    (reordered : List.Forall₂ EntryReordered entries entries')
    (capability : String × Config.Capability) :
    (capability ∈ entries.flatMap fun entry => entry.2.capabilities.getD []) ↔
      capability ∈ entries'.flatMap fun entry => entry.2.capabilities.getD [] := by
  induction reordered with
  | nil => rfl
  | cons related _ ih =>
      rw [List.flatMap_cons, List.flatMap_cons, List.mem_append, List.mem_append, ih,
        mem_getD_iff_of_rel related.2.capabilities]

theorem any_inline_eq_of_forall₂ {entries entries' : List (String × Config.Resource)}
    (reordered : List.Forall₂ EntryReordered entries entries') :
    (entries.any fun entry => entry.2.capabilities.isSome) =
      entries'.any fun entry => entry.2.capabilities.isSome := by
  have same : (entries.map fun entry => entry.2.capabilities.isSome) =
      entries'.map fun entry => entry.2.capabilities.isSome :=
    map_eq_map_of_forall₂ (fun _ _ related => isSome_eq_of_rel related.2.capabilities) reordered
  have anyEq := congrArg (List.any · id) same
  rwa [List.any_map, List.any_map] at anyEq

/-- Reordered configurations declare the same capabilities. -/
theorem mem_declaredCapabilities_iff (reordered : first.Reordered second)
    (capability : String × Config.Capability) :
    capability ∈ declaredCapabilities first.config ↔
      capability ∈ declaredCapabilities second.config := by
  obtain ⟨entries, perm, related⟩ := reordered.resources
  rw [declaredCapabilities, declaredCapabilities, List.mem_append, List.mem_append,
    mem_getD_iff_of_rel reordered.capabilities, (perm.flatMap_right _).mem_iff,
    mem_inline_iff_of_forall₂ related]

theorem capabilitySourcePath_eq_of_reordered (reordered : first.Reordered second) :
    capabilitySourcePath first = capabilitySourcePath second := by
  obtain ⟨entries, perm, related⟩ := reordered.resources
  rw [capabilitySourcePath, capabilitySourcePath, isSome_eq_of_rel reordered.capabilities,
    perm.any_eq, any_inline_eq_of_forall₂ related, reordered.sourcePath]

theorem distinct_capabilities_of_reordered (distinct : first.DistinctKeys)
    (reordered : first.Reordered second) :
    Keyed.Distinct (second.config.capabilities.getD []) := by
  have firstDistinct := distinct.capabilities
  have perm := reordered.capabilities
  revert firstDistinct perm
  generalize first.config.capabilities = capabilities
  generalize second.config.capabilities = capabilities'
  intro firstDistinct perm
  cases perm with
  | none => exact List.nodup_nil
  | some perm => exact (perm.map _).nodup_iff.mp firstDistinct

/-- Reordered declarations give the same capability map, if no key has two meanings. -/
theorem buildCapabilityMap_eq_ok_of_reordered (distinct : first.DistinctKeys)
    (reordered : first.Reordered second) (resources : List Resource) {map : CapabilityMap} :
    buildCapabilityMap first resources = .ok map ↔
      buildCapabilityMap second resources = .ok map := by
  have secondDistinct := distinct_capabilities_of_reordered distinct reordered
  have same := mem_declaredCapabilities_iff reordered
  simp only [buildCapabilityMap, bind_eq_ok_iff, capabilitySourcePath_eq_of_reordered reordered]
  constructor
  · rintro ⟨table, accepted, mapEq⟩
    obtain ⟨table', accepted', meaningsEq⟩ :=
      meanings_eq_of_mem_iff distinct.capabilities secondDistinct same accepted
    refine ⟨table', accepted', ?_⟩
    rw [isEmpty_eq_of_meanings meaningsEq, ofDeclarations_eq_of_meanings meaningsEq]
    exact mapEq
  · rintro ⟨table, accepted, mapEq⟩
    obtain ⟨table', accepted', meaningsEq⟩ :=
      meanings_eq_of_mem_iff secondDistinct distinct.capabilities (fun entry => (same entry).symm)
        accepted
    refine ⟨table', accepted', ?_⟩
    rw [isEmpty_eq_of_meanings meaningsEq, ofDeclarations_eq_of_meanings meaningsEq]
    exact mapEq

end Reordered

/-! ## The representation -/

/-- A representation, its hash included, does not depend on the order in which a configuration
declares things: reordered configurations succeed together, and with the same representation. -/
theorem build_eq_ok_iff_of_reordered {first second : Config.Loaded} (distinct : first.DistinctKeys)
    (reordered : first.Reordered second) (ir : Ir) :
    build first = .ok ir ↔ build second = .ok ir := by
  simp only [build, bind_eq_ok_iff, buildMeta_eq_of_reordered reordered,
    buildSchemas_eq_ok_of_reordered distinct reordered,
    buildResources_eq_of_reordered distinct reordered,
    buildCapabilityMap_eq_ok_of_reordered distinct reordered]

/-! ## Two orders of one configuration -/

/-- A resource kept in a post type, with the given entries of its maps. -/
def book (metaFields : List (String × Config.MetaField))
    (taxonomies : List (String × Config.Taxonomy)) (queryParams : List (String × Config.QueryParam))
    (capabilities : List (String × Config.Capability)) : Config.Resource where
  name := "book"
  routes :=
    { list := some ⟨"/shop/v1/books", .get, none⟩
      update := some ⟨"/shop/v1/books/:id", .put, some "book.edit"⟩ }
  identity := some ⟨.number, none⟩
  storage := some (.post
    { postType := none, statuses := [], supports := [], metaFields, taxonomies })
  schema := none
  cacheKeys := none
  queryParams := some queryParams
  capabilities := some capabilities

/-- A resource that repeats a capability of the project. -/
def loan : Config.Resource where
  name := "loan"
  routes := { list := some ⟨"/shop/v1/loans", .get, some "book.edit"⟩ }
  identity := none
  storage := none
  schema := some (.key "loan")
  cacheKeys := none
  queryParams := none
  capabilities := some [("book.edit", .simple "edit_posts")]

/-- A configuration in which every map has two entries. -/
def shelf : Config.Loaded where
  config :=
    { version := some 1
      declaredNamespace := "shop"
      schemas := [("loan", ⟨"loan.json", none⟩), ("card", ⟨"card.json", none⟩)]
      resources :=
        [("b", book [("pages", ⟨.integer, none⟩), ("author", ⟨.string, some false⟩)]
          [("genre", ⟨"genre", true, none⟩), ("award", ⟨"award", false, some true⟩)]
          [("sort", ⟨.string, true, none, none⟩), ("after", ⟨.string, false, none, none⟩)]
          [("book.edit", .simple "edit_posts"), ("book.burn", .simple "delete_posts")]),
         ("l", loan)]
      capabilities :=
        some [("book.edit", .simple "edit_posts"), ("book.lend", .simple "manage_options")] }
  sourcePath := "wpk.config.toml"
  schemas := [("loan", ⟨"loan.json", .obj []⟩), ("card", ⟨"card.json", .obj []⟩)]

/-- The same configuration with every map the other way round. -/
def turnedShelf : Config.Loaded where
  config :=
    { version := some 1
      declaredNamespace := "shop"
      schemas := [("card", ⟨"card.json", none⟩), ("loan", ⟨"loan.json", none⟩)]
      resources :=
        [("l", loan),
         ("b", book [("author", ⟨.string, some false⟩), ("pages", ⟨.integer, none⟩)]
          [("award", ⟨"award", false, some true⟩), ("genre", ⟨"genre", true, none⟩)]
          [("after", ⟨.string, false, none, none⟩), ("sort", ⟨.string, true, none, none⟩)]
          [("book.burn", .simple "delete_posts"), ("book.edit", .simple "edit_posts")])]
      capabilities :=
        some [("book.lend", .simple "manage_options"), ("book.edit", .simple "edit_posts")] }
  sourcePath := "wpk.config.toml"
  schemas := [("card", ⟨"card.json", .obj []⟩), ("loan", ⟨"loan.json", .obj []⟩)]

theorem shelf_distinctKeys : shelf.DistinctKeys where
  schemas := by decide
  resources := by decide
  resource := by
    intro entry member
    rcases List.mem_cons.mp member with rfl | member
    · refine ⟨?_, ?_, ?_⟩
      · rintro storage ⟨⟩
        exact ⟨by decide, by decide⟩
      · rintro params ⟨⟩
        decide
      · rintro capabilities ⟨⟩
        decide
    · obtain rfl := List.mem_singleton.mp member
      refine ⟨?_, ?_, ?_⟩
      · rintro storage ⟨⟩
      · rintro params ⟨⟩
      · rintro capabilities ⟨⟩
        decide
  capabilities := by decide
  documents := by decide

theorem shelf_reordered : shelf.Reordered turnedShelf where
  sourcePath := rfl
  version := rfl
  declaredNamespace := rfl
  schemas := List.Perm.swap _ _ _
  resources := by
    refine ⟨_, List.Perm.swap _ _ _, .cons ⟨rfl, ?_⟩ (.cons ⟨rfl, ?_⟩ .nil)⟩
    · exact ⟨rfl, rfl, rfl, .none, rfl, rfl, .none, .some (.refl _)⟩
    · exact ⟨rfl, rfl, rfl, .some (.post rfl rfl rfl (.swap _ _ _) (.swap _ _ _)), rfl, rfl,
        .some (.swap _ _ _), .some (.swap _ _ _)⟩
  capabilities := .some (List.Perm.swap _ _ _)
  documents := List.Perm.swap _ _ _

/-- The two shelves come to one representation. -/
theorem build_eq_ok_iff_of_reordered_shelf :
    shelf.DistinctKeys ∧ shelf.Reordered turnedShelf ∧
      ∃ ir, build shelf = .ok ir ∧ build turnedShelf = .ok ir := by
  have succeeds : (build shelf).isOk = true := by
    have sortedEq : shelf.config.resources.mergeSort declarationLe = shelf.config.resources :=
      List.mergeSort_of_pairwise (by decide)
    rw [build]
    simp only [buildResources, sortedEq]
    decide +kernel
  cases built : build shelf with
  | error error =>
      rw [built] at succeeds
      cases succeeds
  | ok ir =>
      exact ⟨shelf_distinctKeys, shelf_reordered, ir, rfl,
        (build_eq_ok_iff_of_reordered shelf_distinctKeys shelf_reordered ir).mp built⟩

end RestPlugin.Ir
