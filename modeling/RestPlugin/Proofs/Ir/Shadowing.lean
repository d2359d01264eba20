import RestPlugin.Proofs.Ir.Unambiguous

/-!
# Shadowed schemas

A schema that is made up for a resource is put into the same table as the declared ones, under a key
that begins with `auto:`.  Such a key can be declared as well.  Then the declared schema is
replaced, and a resource that refers to it comes to the schema of another resource.  Every other
declared schema is in the representation as it was loaded.
-/

namespace RestPlugin

open Ir

namespace Ir

/-! ## What resolving a resource adds -/

/-- The table entry of the schema made up for a resource, if one is. -/
def madeUpEntry (slug : String) (entry : String × Config.Resource) : Option (String × Schema) :=
  match schemaReference entry.2 with
  | some .auto => some (autoKey entry.1, .synthesized entry.1 entry.2 slug)
  | _ => none

/-- A schema is made up exactly for the resources that ask for one. -/
theorem madeUpEntry_eq_some_iff {slug : String} {entry : String × Config.Resource}
    {found : String × Schema} :
    madeUpEntry slug entry = some found ↔ schemaReference entry.2 = some .auto ∧
      (autoKey entry.1, .synthesized entry.1 entry.2 slug) = found := by
  rw [madeUpEntry]
  split <;> simp_all

theorem autoKey_injective : Function.Injective autoKey :=
  fun _ _ same => (String.append_right_inj "auto:").mp same

/-- The schema of a resource is the one made up for it, or the one whose key it declares.  Nothing
else comes into the table. -/
theorem resolveSchema_cases {table after : SchemaTable} {slug : String}
    {entry : String × Config.Resource} {assignment : SchemaAssignment}
    (resolved : resolveSchema table entry.1 entry.2 slug = .ok (assignment, after)) :
    (schemaReference entry.2 = some .auto ∧ assignment = ⟨autoKey entry.1, .auto⟩ ∧
      after = table.add (.synthesized entry.1 entry.2 slug)) ∨
    ∃ key, schemaReference entry.2 = some (.key key) ∧ assignment = ⟨key, .manual⟩ ∧
      after = table := by
  rw [resolveSchema] at resolved
  split at resolved
  · cases resolved
  · rename_i key reference
    split at resolved
    · cases resolved
      exact .inr ⟨key, reference, rfl, rfl⟩
    · cases resolved
  · rename_i reference
    cases resolved
    exact .inl ⟨reference, rfl, rfl⟩

/-- Resolving resources adds the schemas made up for them, one after another. -/
theorem table_of_buildResourceList {slug : String} {claims : Claims}
    {declared : List (String × Config.Resource)} {resources : List Resource} {table : SchemaTable}
    (resolved : buildResourceList slug claims declared = .ok (resources, table)) :
    table = (declared.filterMap (madeUpEntry slug)).foldl
      (fun table entry => Keyed.insert entry.1 entry.2 table) claims.schemas := by
  induction declared generalizing claims resources with
  | nil =>
      cases resolved
      rfl
  | cons entry rest ih =>
      rw [buildResourceList] at resolved
      simp only [bind_eq_ok_iff] at resolved
      obtain ⟨⟨built, between⟩, builtEq, ⟨others, last⟩, othersEq, resolved⟩ := resolved
      cases resolved
      obtain ⟨assignment, schemaEq, -⟩ := buildResource_eq_ok builtEq
      rw [ih othersEq, List.filterMap_cons, madeUpEntry]
      rcases resolveSchema_cases schemaEq with ⟨reference, -, added⟩ | ⟨key, reference, -, kept⟩
      · rw [reference, added]
        rfl
      · rw [reference, kept]

/-- A schema that is made up for a resource of the configuration has this key. -/
def Shadowed (config : Config) (key : String) : Prop :=
  ∃ entry ∈ config.resources, schemaReference entry.2 = some .auto ∧ autoKey entry.1 = key

instance (config : Config) (key : String) : Decidable (Shadowed config key) :=
  inferInstanceAs (Decidable (∃ entry ∈ config.resources,
    schemaReference entry.2 = some .auto ∧ autoKey entry.1 = key))

end Ir

namespace Pipeline.Core.Parts

variable {loaded : Config.Loaded} (parts : Core.Parts loaded)

/-! ## The table -/

/-- What the table holds under a key is the last schema made up under it, else the declared one. -/
theorem get?_table (key : String) : Keyed.get? key parts.table =
    (Keyed.get? key ((loaded.config.resources.mergeSort declarationLe).filterMap
      (madeUpEntry parts.info.slug)).reverse).or (Keyed.get? key parts.declared) := by
  obtain ⟨resolved, resolvedEq, -⟩ := exists_list_of_buildResources parts.resources_eq
  rw [table_of_buildResourceList resolvedEq, Keyed.get?_foldl_insert]

/-- Under a shadowed key stands a schema made up for a resource. -/
theorem exists_synthesized_of_shadowed {key : String} (shadowed : Shadowed loaded.config key) :
    ∃ entry ∈ loaded.config.resources, autoKey entry.1 = key ∧
      Keyed.get? key parts.table = some (.synthesized entry.1 entry.2 parts.info.slug) := by
  obtain ⟨entry, entryMem, reference, rfl⟩ := shadowed
  have isThere : (Keyed.get? (autoKey entry.1) ((loaded.config.resources.mergeSort
      declarationLe).filterMap (madeUpEntry parts.info.slug)).reverse).isSome := by
    rw [Keyed.get?_isSome_iff, List.map_reverse, List.mem_reverse]
    exact List.mem_map_of_mem (f := (·.1)) (List.mem_filterMap.mpr ⟨entry,
      List.mem_mergeSort.mpr entryMem, madeUpEntry_eq_some_iff.mpr ⟨reference, rfl⟩⟩)
  obtain ⟨schema, schemaEq⟩ := Option.isSome_iff_exists.mp isThere
  have member := List.mem_reverse.mp (Keyed.mem_of_get?_eq_some schemaEq)
  obtain ⟨other, otherMem, found⟩ := List.mem_filterMap.mp member
  obtain ⟨-, same⟩ := madeUpEntry_eq_some_iff.mp found
  obtain ⟨keyEq, rfl⟩ := Prod.mk.inj same
  exact ⟨other, List.mem_mergeSort.mp otherMem, keyEq, by rw [get?_table, schemaEq, Option.some_or]⟩

/-- Under a key that is not shadowed stands the declared schema. -/
theorem get?_table_of_not_shadowed {key : String} (kept : ¬Shadowed loaded.config key) :
    Keyed.get? key parts.table = Keyed.get? key parts.declared := by
  rw [get?_table]
  cases foundEq : Keyed.get? key ((loaded.config.resources.mergeSort declarationLe).filterMap
      (madeUpEntry parts.info.slug)).reverse with
  | none => rw [Option.none_or]
  | some schema =>
      have member := List.mem_reverse.mp (Keyed.mem_of_get?_eq_some foundEq)
      obtain ⟨entry, entryMem, found⟩ := List.mem_filterMap.mp member
      obtain ⟨reference, same⟩ := madeUpEntry_eq_some_iff.mp found
      exact absurd ⟨entry, List.mem_mergeSort.mp entryMem, reference, (Prod.mk.inj same).1⟩ kept

/-- A schema is a declared one exactly if its key is not shadowed. -/
theorem provenance_eq_manual_iff {key : String} {schema : Schema}
    (found : Keyed.get? key parts.table = some schema) :
    schema.provenance = .manual ↔ ¬Shadowed loaded.config key := by
  by_cases shadowed : Shadowed loaded.config key
  · obtain ⟨entry, -, -, madeUp⟩ := parts.exists_synthesized_of_shadowed shadowed
    obtain rfl := Option.some.inj (found.symm.trans madeUp)
    exact iff_of_false (by rintro ⟨⟩) (not_not_intro shadowed)
  · rw [parts.get?_table_of_not_shadowed shadowed] at found
    obtain ⟨path, document, -, rfl⟩ := exists_document_of_buildSchemas parts.declared_eq found
    exact iff_of_true rfl shadowed

/-! ## The schemas of the representation -/

theorem pairwise_key_schemas :
    parts.table.schemas.Pairwise fun first second => first.key < second.key := by
  refine List.pairwise_map.mpr (parts.table_filed.ascending.imp_of_mem ?_)
  intro first second firstMem secondMem less
  rwa [parts.table_filed.key_eq first firstMem, parts.table_filed.key_eq second secondMem]

/-- The schemas stand in the representation as in the table. -/
theorem schemas_ir : parts.ir.schemas = parts.table.schemas := by
  refine List.mergeSort_of_pairwise (parts.pairwise_key_schemas.imp ?_)
  intro first second less
  rw [Schema.le, Bool.not_eq_true', decide_eq_false_iff_not]
  exact not_lt.mpr less.le

/-- The schemas of a representation are those that the table has under their keys. -/
theorem mem_schemas_iff {schema : Schema} :
    schema ∈ parts.ir.schemas ↔ Keyed.get? schema.key parts.table = some schema := by
  rw [schemas_ir, parts.table_filed.ascending.distinct.get?_eq_some_iff, SchemaTable.schemas,
    List.mem_map]
  constructor
  · rintro ⟨⟨key, found⟩, member, rfl⟩
    rwa [show found.key = key from parts.table_filed.key_eq _ member]
  · exact fun member => ⟨_, member, rfl⟩

theorem mem_schemas_of_get? {key : String} {schema : Schema}
    (found : Keyed.get? key parts.table = some schema) :
    schema ∈ parts.ir.schemas ∧ schema.key = key := by
  have keyEq : schema.key = key :=
    parts.table_filed.key_eq (key, schema) (Keyed.mem_of_get?_eq_some found)
  exact ⟨parts.mem_schemas_iff.mpr (keyEq.symm ▸ found), keyEq⟩

end Pipeline.Core.Parts

namespace Ir

open Pipeline

/-- The schemas of an accepted configuration stand in the representation in strict order of their
keys.  A declared schema is among them, with the document loaded for it and the hash of that
document, exactly if its key is not shadowed.  Every resource comes to a schema: one that is made up
is made up for this resource, and one that was referred to is the declared one exactly if its key is
not shadowed. -/
theorem schemas_faithful_iff_not_shadowed {format : Config.Format} {source : String}
    {warnings : List Config.Warning} {loaded : Config.Loaded} {ir : Ir}
    (accepted : Config.parse format source = .ok (loaded.config, warnings))
    (built : build loaded = .ok ir) :
    (ir.schemas.Pairwise fun first second => first.key < second.key) ∧
    (∀ entry ∈ loaded.config.schemas, ∃ document,
      Keyed.get? entry.1 loaded.schemas = some document ∧
        ((∃ schema ∈ ir.schemas, schema.key = entry.1 ∧ schema.provenance = .manual ∧
            schema.document = document.document ∧
            schema.hash = document.document.contentHash) ↔
          ¬Shadowed loaded.config entry.1)) ∧
    ∀ resource ∈ ir.resources, ∃ entry ∈ loaded.config.resources, entry.2.name = resource.name ∧
      (∀ other ∈ loaded.config.resources, other.2.name = resource.name → other = entry) ∧
      ∃ schema ∈ ir.schemas, schema.key = resource.schemaKey ∧
        (resource.schemaProvenance = .auto →
          schema.provenance = .auto ∧ schema.generatedFrom = some entry.1) ∧
        (resource.schemaProvenance = .manual →
          (schema.provenance = .manual ↔ ¬Shadowed loaded.config resource.schemaKey)) := by
  obtain ⟨parts, rfl⟩ := Core.exists_parts_of_build built
  refine ⟨?_, ?_, ?_⟩
  · rw [parts.schemas_ir]
    exact parts.pairwise_key_schemas
  · intro entry entryMem
    have isThere := (mem_keys_of_buildSchemas parts.declared_eq).mpr (List.mem_map_of_mem entryMem)
    obtain ⟨declared, declaredEq⟩ := Option.isSome_iff_exists.mp (Keyed.get?_isSome_iff.mpr isThere)
    obtain ⟨path, document, documentEq, rfl⟩ :=
      exists_document_of_buildSchemas parts.declared_eq declaredEq
    refine ⟨document, documentEq, ?_, ?_⟩
    · rintro ⟨schema, member, keyEq, isManual, -⟩
      rw [← keyEq]
      exact (parts.provenance_eq_manual_iff (parts.mem_schemas_iff.mp member)).mp isManual
    · intro kept
      rw [← parts.get?_table_of_not_shadowed kept] at declaredEq
      exact ⟨.declared entry.1 path document.document, parts.mem_schemas_iff.mpr declaredEq,
        rfl, rfl, rfl, rfl⟩
  · intro resource member
    obtain ⟨entry, entryMem, before, after, resolved⟩ := parts.exists_declaration resource member
    have nameEq : entry.2.name = resource.name := (buildResource_fields resolved).1.symm
    refine ⟨entry, entryMem, nameEq, ?_, ?_⟩
    · intro other otherMem same
      have distinct := Config.nodup_names_of_check (Config.check_of_parse accepted)
      exact List.inj_on_of_nodup_map distinct otherMem entryMem (same.trans nameEq.symm)
    · obtain ⟨assignment, schemaEq, keyEq, provenanceEq⟩ := buildResource_eq_ok resolved
      obtain ⟨schema, found⟩ := Option.isSome_iff_exists.mp
        (Keyed.get?_isSome_iff.mpr (parts.schemaKey_mem (List.mem_mergeSort.mp member)))
      obtain ⟨schemaMem, schemaKeyEq⟩ := parts.mem_schemas_of_get? found
      refine ⟨schema, schemaMem, schemaKeyEq, ?_, fun _ => parts.provenance_eq_manual_iff found⟩
      intro isAuto
      rcases resolveSchema_cases schemaEq with ⟨reference, rfl, -⟩ | ⟨key, -, rfl, -⟩
      · obtain ⟨other, -, sameKey, madeUp⟩ :=
          parts.exists_synthesized_of_shadowed ⟨entry, entryMem, reference, keyEq.symm⟩
        obtain rfl := Option.some.inj (found.symm.trans madeUp)
        exact ⟨rfl, congrArg some (autoKey_injective (sameKey.trans keyEq))⟩
      · rw [provenanceEq] at isAuto
        cases isAuto

/-- The lines of a text with two schemas, a resource that refers to one of them, and a resource
whose schema is made up. -/
def advertsLines : List String :=
  ["version = 1\n", "namespace = \"acme\"\n",
   "[schemas]\n", "\"auto:job\".path = \"ad.json\"\n", "job.path = \"job.json\"\n",
   "[resources.ad]\n", "name = \"ad\"\n", "schema = \"auto:job\"\n",
   "routes.list.path = \"/ads\"\n", "routes.list.method = \"GET\"\n",
   "[resources.job]\n", "name = \"job\"\n", "schema = \"auto\"\n",
   "routes.list.path = \"/jobs\"\n", "routes.list.method = \"GET\"\n"]

/-- The configuration of the text, with documents for the schemas. -/
def adverts : Config.Loaded where
  config :=
    { version := some 1
      declaredNamespace := "acme"
      schemas := [("auto:job", ⟨"ad.json", none⟩), ("job", ⟨"job.json", none⟩)]
      resources :=
        [("ad", { listed "ad" "/ads" with schema := some (.key "auto:job") }),
         ("job", listed "job" "/jobs")]
      capabilities := none }
  sourcePath := "wpk.config.toml"
  schemas := [("auto:job", ⟨"ad.json", .obj []⟩), ("job", ⟨"job.json", .obj []⟩)]

theorem parse_adverts :
    Config.parse .toml (String.join advertsLines) = .ok (adverts.config, []) :=
  Config.parse_join_eq_ok (by decide +kernel) (by decide +kernel)

theorem exists_build_adverts : ∃ ir, build adverts = .ok ir := by
  have sortedEq : adverts.config.resources.mergeSort declarationLe = adverts.config.resources :=
    List.mergeSort_of_pairwise (by decide)
  refine exists_eq_ok ?_
  rw [build]
  simp only [buildResources, sortedEq]
  decide +kernel

/-- The schema under `job` is kept. -/
theorem schemas_faithful_iff_not_shadowed_adverts :
    Config.parse .toml (String.join advertsLines) = .ok (adverts.config, []) ∧
    ∃ ir, build adverts = .ok ir ∧ ¬Shadowed adverts.config "job" ∧
      ∃ schema ∈ ir.schemas, schema.key = "job" ∧ schema.provenance = .manual ∧
        schema.document = .obj [] := by
  obtain ⟨ir, built⟩ := exists_build_adverts
  have kept : ¬Shadowed adverts.config "job" := by decide
  obtain ⟨-, declared, -⟩ := schemas_faithful_iff_not_shadowed parse_adverts built
  obtain ⟨document, documentEq, faithful⟩ := declared _ (List.mem_cons_of_mem _ List.mem_cons_self)
  cases documentEq
  obtain ⟨schema, member, keyEq, isManual, sameDocument, -⟩ := faithful.mpr kept
  exact ⟨parse_adverts, ir, built, kept, schema, member, keyEq, isManual, sameDocument⟩

/-- The schema under `auto:job` is replaced by the one made up for the resource `job`.  The resource
that refers to it is said to have a manual schema, but its key leads to the one that is made up. -/
theorem declared_schema_lost_of_shadowed :
    Config.parse .toml (String.join advertsLines) = .ok (adverts.config, []) ∧
    ∃ ir, build adverts = .ok ir ∧
      (∀ schema ∈ ir.schemas, schema.key = "auto:job" → schema.provenance = .auto) ∧
      ∃ resource ∈ ir.resources, resource.schemaKey = "auto:job" ∧
        resource.schemaProvenance = .manual := by
  obtain ⟨ir, built⟩ := exists_build_adverts
  obtain ⟨parts, rfl⟩ := Core.exists_parts_of_build built
  refine ⟨parse_adverts, parts.ir, built, ?_, ?_⟩
  · intro schema member keyEq
    have shadowed : Shadowed adverts.config "auto:job" := by decide
    have found := parts.mem_schemas_iff.mp member
    obtain ⟨entry, -, -, madeUp⟩ := parts.exists_synthesized_of_shadowed shadowed
    rw [keyEq] at found
    obtain rfl := Option.some.inj (found.symm.trans madeUp)
    rfl
  · obtain ⟨resource, resourceMem, _, _, resolved⟩ := parts.exists_resource _ List.mem_cons_self
    obtain ⟨assignment, schemaEq, keyEq, provenanceEq⟩ := buildResource_eq_ok resolved
    refine ⟨resource, resourceMem, ?_⟩
    rw [keyEq, provenanceEq]
    rcases resolveSchema_cases schemaEq with ⟨reference, -⟩ | ⟨key, reference, rfl, -⟩
    · cases reference
    · cases reference
      exact ⟨rfl, rfl⟩

end Ir

end RestPlugin
