import RestPlugin.Ir.Build
import RestPlugin.Proofs.Json.Normal

/-!
# What the written form tells about a representation

The content hash of a representation is taken from the canonical text of its JSON form.  That text
determines nearly all of the representation: the segments of cache keys are known up to their
spelling, so that the numbers which are not finite cannot be told apart, and so are the contexts of
warnings, where one that is `null` cannot be told from one that is absent.
-/

namespace RestPlugin

open Json

/-! ## Spellings -/

theorem Method.text_injective : Function.Injective Method.text := by
  rintro ⟨⟩ ⟨⟩ <;> simp [text]

theorem IdentityKind.text_injective : Function.Injective IdentityKind.text := by
  rintro ⟨⟩ ⟨⟩ <;> simp [text]

theorem Support.text_injective : Function.Injective Support.text := by
  rintro ⟨⟩ ⟨⟩ <;> simp [text]

theorem MetaType.text_injective : Function.Injective MetaType.text := by
  rintro ⟨⟩ ⟨⟩ <;> simp [text]

theorem QueryType.text_injective : Function.Injective QueryType.text := by
  rintro ⟨⟩ ⟨⟩ <;> simp [text]

theorem AppliesTo.text_injective : Function.Injective AppliesTo.text := by
  rintro ⟨⟩ ⟨⟩ <;> simp [text]

namespace Ir

theorem Provenance.text_injective : Function.Injective Provenance.text := by
  rintro ⟨⟩ ⟨⟩ <;> simp [text]

theorem CapabilitySource.text_injective : Function.Injective CapabilitySource.text := by
  rintro ⟨⟩ ⟨⟩ <;> simp [text]

/-! ## Parts that are written faithfully -/

theorem faithful_optionalText : Faithful (Json.ofOption .str) :=
  faithful_str.ofOption normal_str_ne_null

/-- A route is told by its encoding. -/
theorem Route.faithful_toJson : Faithful Route.toJson := by
  rintro ⟨method, path, capability, hash⟩ ⟨method', path', capability', hash'⟩ same
  have parts := values_eq_of_normal_eq (by simp [Keyed.Distinct, content]) (by rfl) same
  simp only [content, List.cons_append, List.nil_append, List.map_cons, List.map_nil,
    List.cons.injEq, and_true] at parts
  obtain ⟨methodEq, pathEq, capabilityEq, hashEq⟩ := parts
  rw [mk.injEq]
  exact ⟨faithful_spelling Method.text_injective methodEq, faithful_str pathEq,
    faithful_optionalText capabilityEq, faithful_str hashEq⟩

theorem Identity.faithful_toJson : Faithful Identity.toJson := by
  rintro ⟨kind, param⟩ ⟨kind', param'⟩ same
  have parts := values_eq_of_normal_eq (by simp [Keyed.Distinct]) (by rfl) same
  simp only [List.map_cons, List.map_nil, List.cons.injEq, and_true] at parts
  obtain ⟨kindEq, paramEq⟩ := parts
  rw [mk.injEq]
  exact ⟨faithful_spelling IdentityKind.text_injective kindEq, faithful_str paramEq⟩

theorem MetaField.faithful_toJson : Faithful MetaField.toJson := by
  rintro ⟨type, single⟩ ⟨type', single'⟩ same
  have parts := values_eq_of_normal_eq (by simp [Keyed.Distinct]) (by rfl) same
  simp only [List.map_cons, List.map_nil, List.cons.injEq, and_true] at parts
  obtain ⟨typeEq, singleEq⟩ := parts
  rw [mk.injEq]
  exact ⟨faithful_spelling MetaType.text_injective typeEq, faithful_bool singleEq⟩

theorem Taxonomy.faithful_toJson : Faithful Taxonomy.toJson := by
  rintro ⟨taxonomy, hierarchical, register⟩ ⟨taxonomy', hierarchical', register'⟩ same
  have parts := values_eq_of_normal_eq (by simp [Keyed.Distinct]) (by rfl) same
  simp only [List.map_cons, List.map_nil, List.cons.injEq, and_true] at parts
  obtain ⟨taxonomyEq, hierarchicalEq, registerEq⟩ := parts
  rw [mk.injEq]
  exact ⟨faithful_str taxonomyEq, faithful_bool hierarchicalEq, faithful_bool registerEq⟩

/-- A query parameter is told by its encoding. -/
theorem QueryParam.faithful_toJson : Faithful QueryParam.toJson := by
  have optionalStrings : Faithful (Json.ofOption .strings) :=
    faithful_strings.ofOption fun items => normal_arr_ne_null _
  rintro ⟨type, optional, values, description⟩ ⟨type', optional', values', description'⟩ same
  have parts := values_eq_of_normal_eq (by simp [Keyed.Distinct]) (by rfl) same
  simp only [List.map_cons, List.map_nil, List.cons.injEq, and_true] at parts
  obtain ⟨typeEq, optionalEq, valuesEq, descriptionEq⟩ := parts
  rw [mk.injEq]
  exact ⟨faithful_spelling QueryType.text_injective typeEq, faithful_bool optionalEq,
    optionalStrings valuesEq, faithful_optionalText descriptionEq⟩

theorem Fallback.faithful : Faithful fun fallback : Fallback =>
    .obj [("capability", .str fallback.capability),
      ("appliesTo", .str fallback.appliesTo.text)] := by
  rintro ⟨capability, appliesTo⟩ ⟨capability', appliesTo'⟩ same
  have parts := values_eq_of_normal_eq (by simp [Keyed.Distinct]) (by rfl) same
  simp only [List.map_cons, List.map_nil, List.cons.injEq, and_true] at parts
  obtain ⟨capabilityEq, appliesToEq⟩ := parts
  rw [mk.injEq]
  exact ⟨faithful_str capabilityEq, faithful_spelling AppliesTo.text_injective appliesToEq⟩

/-- A definition of a capability is told by its encoding. -/
theorem Definition.faithful_toJson : Faithful Definition.toJson := by
  rintro ⟨key, capability, appliesTo, binding, source⟩
    ⟨key', capability', appliesTo', binding', source'⟩ same
  have parts := values_eq_of_normal_eq (by simp [Keyed.Distinct]) (by rfl) same
  simp only [List.map_cons, List.map_nil, List.cons.injEq, and_true] at parts
  obtain ⟨keyEq, capabilityEq, appliesToEq, bindingEq, sourceEq⟩ := parts
  rw [mk.injEq]
  exact ⟨faithful_str keyEq, faithful_str capabilityEq,
    faithful_spelling AppliesTo.text_injective appliesToEq, faithful_optionalText bindingEq,
    faithful_spelling CapabilitySource.text_injective sourceEq⟩

theorem PhpProject.faithful_toJson : Faithful PhpProject.toJson := by
  rintro ⟨phpNamespace, autoload, outputDirectory⟩ ⟨phpNamespace', autoload', outputDirectory'⟩ same
  have parts := values_eq_of_normal_eq (by simp [Keyed.Distinct]) (by rfl) same
  simp only [List.map_cons, List.map_nil, List.cons.injEq, and_true] at parts
  obtain ⟨namespaceEq, autoloadEq, directoryEq⟩ := parts
  rw [mk.injEq]
  exact ⟨faithful_str namespaceEq, faithful_str autoloadEq, faithful_str directoryEq⟩

/-! ## Maps with ascending keys -/

/-- Whether the maps of a storage have ascending keys. -/
def Storage.Ordered : Storage → Prop
  | .post storage => Keyed.Ascending storage.metaFields ∧ Keyed.Ascending storage.taxonomies
  | _ => True

/-- Whether the maps of a resource have ascending keys. -/
structure Resource.Ordered (resource : Resource) : Prop where
  storage : ∀ storage, resource.storage = some storage → storage.Ordered
  queryParams : ∀ params, resource.queryParams = some params → Keyed.Ascending params

/-- Whether all maps of a representation have ascending keys. -/
def Ordered (ir : Ir) : Prop := ∀ resource ∈ ir.resources, resource.Ordered

/-- The mode of a storage is written first of all its parts, under a key of its own. -/
theorem Storage.mode_eq_of_normal_eq {first second : Storage}
    (same : first.toJson.normal = second.toJson.normal) : first.mode = second.mode := by
  have distinct : ∀ storage : Storage, ∃ fields,
      storage.toJson = .obj (("mode", .str storage.mode) :: fields) ∧
        Keyed.Distinct (("mode", Json.str storage.mode) :: fields) := by
    intro storage
    cases storage <;> exact ⟨_, rfl, by simp [Keyed.Distinct]⟩
  obtain ⟨fields, fieldsEq, distinct₁⟩ := distinct first
  obtain ⟨fields', fieldsEq', distinct₂⟩ := distinct second
  rw [fieldsEq, fieldsEq'] at same
  have modes := get?_normal_eq distinct₁ distinct₂ same "mode"
  rw [Keyed.get?_cons, Keyed.get?_cons, if_pos rfl, if_pos rfl] at modes
  exact faithful_str (Option.some.inj modes)

/-- Ordered storages of posts are told by their encodings up to the order of keys. -/
theorem PostStorage.eq_of_normal_eq {first second : PostStorage}
    (ordered : (Storage.post first).Ordered) (ordered' : (Storage.post second).Ordered)
    (same : (Storage.post first).toJson.normal = (Storage.post second).toJson.normal) :
    first = second := by
  have supports : Faithful fun items : List Support => Json.strings (items.map Support.text) :=
    faithful_strings.comp (List.map_injective_iff.mpr Support.text_injective)
  have parts := values_eq_of_normal_eq (by simp [Keyed.Distinct]) (by rfl) same
  simp only [List.map_cons, List.map_nil, List.cons.injEq, and_true] at parts
  obtain ⟨-, postTypeEq, statusesEq, supportsEq, metaEq, taxonomiesEq⟩ := parts
  cases first
  cases second
  rw [mk.injEq]
  exact ⟨faithful_str postTypeEq, faithful_strings statusesEq, supports supportsEq,
    MetaField.faithful_toJson.map_eq ordered.1 ordered'.1 metaEq,
    Taxonomy.faithful_toJson.map_eq ordered.2 ordered'.2 taxonomiesEq⟩

/-- Ordered storages are told by their encodings up to the order of keys. -/
theorem Storage.eq_of_normal_eq {first second : Storage} (ordered : first.Ordered)
    (ordered' : second.Ordered) (same : first.toJson.normal = second.toJson.normal) :
    first = second := by
  have modes := mode_eq_of_normal_eq same
  cases first with
  | transient =>
      cases second with
      | transient => rfl
      | _ => exact absurd modes (by simp [mode])
  | option name =>
      cases second with
      | option name' =>
          have parts := values_eq_of_normal_eq (by simp [Keyed.Distinct]) (by rfl) same
          simp only [List.map_cons, List.map_nil, List.cons.injEq, and_true] at parts
          rw [faithful_str parts.2]
      | _ => exact absurd modes (by simp [mode])
  | taxonomy name hierarchical =>
      cases second with
      | taxonomy name' hierarchical' =>
          have parts := values_eq_of_normal_eq (by simp [Keyed.Distinct]) (by rfl) same
          simp only [List.map_cons, List.map_nil, List.cons.injEq, and_true] at parts
          rw [faithful_str parts.2.1, faithful_bool parts.2.2]
      | _ => exact absurd modes (by simp [mode])
  | post storage =>
      cases second with
      | post storage' => rw [PostStorage.eq_of_normal_eq ordered ordered' same]
      | _ => exact absurd modes (by simp [mode])

/-! ## Cache keys -/

end Ir

/-- The text of a segment in a JSON document. -/
def Segment.spelling (segment : Segment) : String := segment.toJson.scalarText

theorem Segment.isScalar_toJson (segment : Segment) : segment.toJson.IsScalar := by
  cases segment <;> trivial

theorem Segment.normal_toJson (segment : Segment) :
    segment.toJson.normal = .str segment.spelling :=
  segment.isScalar_toJson.normal_eq

namespace Ir

/-- The spellings of the segments of a cache key. -/
def CacheKey.spellings (key : CacheKey) : List String := key.segments.map Segment.spelling

/-- Of a cache key, the encoding tells the spellings of its segments. -/
theorem CacheKey.spellings_eq_of_normal_eq {first second : CacheKey}
    (same : first.toJson.normal = second.toJson.normal) : first.spellings = second.spellings := by
  have parts := values_eq_of_normal_eq (by simp [Keyed.Distinct]) (by rfl) same
  simp only [List.map_cons, List.map_nil, List.cons.injEq, and_true] at parts
  have segments := parts.1
  rw [normal_arr, normal_arr, List.map_map, List.map_map] at segments
  apply map_eq_of_map_eq _ (Json.arr.inj segments)
  intro segment _ other _ segmentSame
  rw [Function.comp_apply, Function.comp_apply, Segment.normal_toJson, Segment.normal_toJson]
    at segmentSame
  exact Json.str.inj segmentSame

/-- Whether cache keys have the same spellings for each operation. -/
def CacheKeys.Alike (first second : CacheKeys) : Prop :=
  ∀ operation, (first.at? operation).map CacheKey.spellings =
    (second.at? operation).map CacheKey.spellings

/-- Cache keys with the same encoding are alike. -/
theorem CacheKeys.alike_of_normal_eq {first second : CacheKeys}
    (same : first.toJson.normal = second.toJson.normal) : first.Alike second := by
  have optional : ∀ key other : Option CacheKey,
      (Json.ofOption CacheKey.toJson key).normal = (Json.ofOption CacheKey.toJson other).normal →
      key.map CacheKey.spellings = other.map CacheKey.spellings := by
    intro key other keySame
    apply map_eq_of_normal_ofOption_eq _ _ _ keySame
    · exact fun key _ => normal_obj_ne_null _
    · exact fun key _ => normal_obj_ne_null _
    · exact fun key other _ _ => CacheKey.spellings_eq_of_normal_eq
  have parts := values_eq_of_normal_eq (by simp [Keyed.Distinct]) (by rfl) same
  simp only [List.map_cons, List.map_nil, List.cons.injEq, and_true] at parts
  obtain ⟨listEq, getEq, createEq, updateEq, removeEq⟩ := parts
  intro operation
  cases operation with
  | list => exact congrArg some (CacheKey.spellings_eq_of_normal_eq listEq)
  | get => exact congrArg some (CacheKey.spellings_eq_of_normal_eq getEq)
  | create => exact optional _ _ createEq
  | update => exact optional _ _ updateEq
  | remove => exact optional _ _ removeEq

/-! ## Warnings -/

/-- Whether the context of a warning, if it has one, is not written as `null`. -/
def Warning.Stated (warning : Warning) : Prop :=
  ∀ context, warning.context = some context → context.normal ≠ Json.null.normal

/-- What the written form tells about a warning. -/
def Warning.told (warning : Warning) : String × String × Option Json :=
  (warning.code, warning.message, warning.context.map Json.normal)

/-- Of a stated warning, the encoding tells what is said. -/
theorem Warning.told_eq_of_normal_eq {first second : Warning} (stated : first.Stated)
    (stated' : second.Stated) (same : first.toJson.normal = second.toJson.normal) :
    first.told = second.told := by
  have parts := values_eq_of_normal_eq (by simp [Keyed.Distinct]) (by rfl) same
  simp only [List.map_cons, List.map_nil, List.cons.injEq, and_true] at parts
  obtain ⟨codeEq, messageEq, contextEq⟩ := parts
  have contexts : first.context.map Json.normal = second.context.map Json.normal := by
    apply map_eq_of_normal_ofOption_eq _ _ _ contextEq
    · intro context contextEq
      rw [normal_sortKeys]
      exact stated context contextEq
    · intro context contextEq
      rw [normal_sortKeys]
      exact stated' context contextEq
    · intro context other _ _ contextSame
      rwa [normal_sortKeys, normal_sortKeys] at contextSame
  rw [told, told, faithful_str codeEq, faithful_str messageEq, contexts]

/-! ## Representations -/

/-- Whether two resources differ at most in the values of cache segments with the same spelling, and
in their warnings. -/
structure Resource.Alike (first second : Resource) : Prop where
  eq : second = { first with cacheKeys := second.cacheKeys, warnings := second.warnings }
  cacheKeys : first.cacheKeys.Alike second.cacheKeys

/-- Ordered resources with the same encoding are alike. -/
theorem Resource.alike_of_normal_eq {first second : Resource} (ordered : first.Ordered)
    (ordered' : second.Ordered) (same : first.toJson.normal = second.toJson.normal) :
    first.Alike second := by
  have parts := values_eq_of_normal_eq (by simp [Keyed.Distinct]) (by rfl) same
  simp only [List.map_cons, List.map_nil, List.cons.injEq, and_true] at parts
  obtain ⟨nameEq, schemaKeyEq, provenanceEq, routesEq, cacheKeysEq, identityEq, storageEq,
    queryParamsEq, hashEq, -⟩ := parts
  have storages : first.storage = second.storage := by
    apply eq_of_normal_ofOption_eq _ _ storageEq
    · exact fun storage => normal_obj_ne_null _
    · exact fun storage other storageIs otherIs =>
        Storage.eq_of_normal_eq (ordered.storage storage storageIs)
          (ordered'.storage other otherIs)
  have queryParams : first.queryParams = second.queryParams := by
    apply eq_of_normal_ofOption_eq _ _ queryParamsEq
    · exact fun params => normal_obj_ne_null _
    · exact fun params others paramsAre othersAre =>
        QueryParam.faithful_toJson.map_eq (ordered.queryParams params paramsAre)
          (ordered'.queryParams others othersAre)
  constructor
  · cases first
    cases second
    rw [mk.injEq]
    refine ⟨(faithful_str nameEq).symm, (faithful_str schemaKeyEq).symm,
      (faithful_spelling Provenance.text_injective provenanceEq).symm,
      (Route.faithful_toJson.arr routesEq).symm, rfl, ?_, storages.symm, queryParams.symm,
      (faithful_str hashEq).symm, rfl⟩
    exact (Identity.faithful_toJson.ofOption (fun _ => normal_obj_ne_null _) identityEq).symm
  · exact CacheKeys.alike_of_normal_eq cacheKeysEq

/-- Whether two capability maps differ at most in what the written form does not tell about their
warnings. -/
structure CapabilityMap.Alike (first second : CapabilityMap) : Prop where
  eq : second = { first with warnings := second.warnings }
  warnings : first.warnings.map Warning.told = second.warnings.map Warning.told

/-- Maps of capabilities with the same encoding are alike. -/
theorem CapabilityMap.alike_of_normal_eq {first second : CapabilityMap}
    (stated : ∀ warning ∈ first.warnings, warning.Stated)
    (stated' : ∀ warning ∈ second.warnings, warning.Stated)
    (same : first.toJson.normal = second.toJson.normal) : first.Alike second := by
  have parts := values_eq_of_normal_eq (by simp [Keyed.Distinct]) (by rfl) same
  simp only [List.map_cons, List.map_nil, List.cons.injEq, and_true] at parts
  obtain ⟨sourcePathEq, fallbackEq, definitionsEq, missingEq, unusedEq, warningsEq⟩ := parts
  constructor
  · cases first
    cases second
    rw [mk.injEq]
    exact ⟨(faithful_optionalText sourcePathEq).symm, (Fallback.faithful fallbackEq).symm,
      (Definition.faithful_toJson.arr definitionsEq).symm, (faithful_strings missingEq).symm,
      (faithful_strings unusedEq).symm, rfl⟩
  · rw [normal_arr, normal_arr, List.map_map, List.map_map] at warningsEq
    apply map_eq_of_map_eq _ (Json.arr.inj warningsEq)
    exact fun warning member other otherMem =>
      Warning.told_eq_of_normal_eq (stated warning member) (stated' other otherMem)

/-- Whether two representations agree in all that their written forms tell, apart from their
schemas. -/
structure Alike (first second : Ir) : Prop where
  slug : first.info.slug = second.info.slug
  resources : List.Forall₂ Resource.Alike first.resources second.resources
  capabilityMap : first.capabilityMap.Alike second.capabilityMap
  php : first.php = second.php

/-- Whether the context of no warning of the capability map is written as `null`. -/
def Stated (ir : Ir) : Prop := ∀ warning ∈ ir.capabilityMap.warnings, warning.Stated

/-- Representations with one canonical text are alike. -/
theorem alike_of_canonical_eq {first second : Ir} (ordered : first.Ordered)
    (ordered' : second.Ordered) (stated : first.Stated) (stated' : second.Stated)
    (same : first.toJson.canonical = second.toJson.canonical) : first.Alike second := by
  rw [canonical_eq_iff_normal_eq] at same
  have parts := values_eq_of_normal_eq (by simp [Keyed.Distinct]) (by rfl) same
  simp only [List.map_cons, List.map_nil, List.cons.injEq, and_true] at parts
  obtain ⟨metaEq, -, resourcesEq, capabilityMapEq, phpEq⟩ := parts
  constructor
  · have fields := values_eq_of_normal_eq (by simp [Keyed.Distinct]) (by rfl) metaEq
    simp only [List.map_cons, List.map_nil, List.cons.injEq, and_true] at fields
    exact faithful_str fields.2.2.1
  · rw [normal_arr, normal_arr, List.map_map, List.map_map] at resourcesEq
    apply forall₂_of_map_eq _ (Json.arr.inj resourcesEq)
    exact fun resource member other otherMem =>
      Resource.alike_of_normal_eq (ordered resource member) (ordered' other otherMem)
  · exact CapabilityMap.alike_of_normal_eq stated stated' capabilityMapEq
  · exact PhpProject.faithful_toJson phpEq

end Ir

end RestPlugin
