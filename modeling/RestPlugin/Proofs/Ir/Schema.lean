import RestPlugin.Ir.Resource
import RestPlugin.Proofs.Except
import RestPlugin.Proofs.Keyed

/-!
# Tables of schemas

In every table that arises while a configuration is resolved the keys ascend and each schema stands
under its own key, so the table can be rebuilt from its schemas alone.  Resolving a resource only
adds to the table, and the schema that the resource comes to is in it.
-/

namespace RestPlugin.Ir

namespace SchemaTable

/-- The keys ascend, and each schema stands under its own key. -/
structure Filed (table : SchemaTable) : Prop where
  ascending : Keyed.Ascending table
  key_eq : ∀ entry ∈ table, entry.2.key = entry.1

theorem filed_nil : Filed [] := ⟨List.Pairwise.nil, by simp⟩

/-- Adding a schema keeps the table filed. -/
theorem Filed.add {table : SchemaTable} (filed : table.Filed) (schema : Schema) :
    (table.add schema).Filed := by
  have ascending := filed.ascending.insert schema.key schema
  refine ⟨ascending, ?_⟩
  rintro ⟨key, found⟩ member
  have value := ascending.distinct.get?_eq_some_iff.mpr member
  rw [Keyed.get?_insert] at value
  split at value
  · rename_i keyEq
    cases value
    exact keyEq
  · exact filed.key_eq _ (Keyed.mem_of_get?_eq_some value)

/-- Adding schemas that stand under their own keys one by one inserts the entries of their table. -/
theorem foldl_add_map_snd (entries start : SchemaTable)
    (key_eq : ∀ entry ∈ entries, entry.2.key = entry.1) :
    (entries.map (·.2)).foldl SchemaTable.add start =
      entries.foldl (fun table entry => Keyed.insert entry.1 entry.2 table) start := by
  induction entries generalizing start with
  | nil => rfl
  | cons entry rest ih =>
      rw [List.map_cons, List.foldl_cons, List.foldl_cons, SchemaTable.add,
        key_eq entry List.mem_cons_self]
      exact ih _ fun other member => key_eq other (List.mem_cons_of_mem _ member)

/-- The schemas of a table determine it. -/
theorem Filed.ofSchemas_schemas {table : SchemaTable} (filed : table.Filed) :
    ofSchemas table.schemas = table := by
  rw [ofSchemas, schemas, foldl_add_map_snd table [] filed.key_eq]
  exact filed.ascending.sorted_eq

/-- The keys of the schemas of a table are its keys. -/
theorem Filed.mem_map_key_iff {table : SchemaTable} (filed : table.Filed) {key : String} :
    (∃ schema ∈ table.schemas, schema.key = key) ↔ key ∈ table.map (·.1) := by
  simp only [schemas, List.mem_map]
  constructor
  · rintro ⟨_, ⟨entry, member, rfl⟩, rfl⟩
    exact ⟨entry, member, (filed.key_eq entry member).symm⟩
  · rintro ⟨entry, member, rfl⟩
    exact ⟨entry.2, ⟨entry, member, rfl⟩, filed.key_eq entry member⟩

/-- Adding a schema adds its key. -/
theorem mem_map_fst_add {table : SchemaTable} {schema : Schema} {key : String} :
    key ∈ (table.add schema).map (·.1) ↔ key = schema.key ∨ key ∈ table.map (·.1) :=
  Keyed.mem_map_fst_insert

end SchemaTable

/-! ## Declared schemas -/

/-- Adding declared schemas keeps the table filed. -/
theorem addDeclared_filed {documents : List (String × Config.LoadedSchema)}
    {start table : SchemaTable} {declared : List (String × Config.SchemaFile)}
    (filed : start.Filed) (added : addDeclared documents start declared = .ok table) :
    table.Filed := by
  induction declared generalizing start with
  | nil =>
      cases added
      exact filed
  | cons entry rest ih =>
      rcases entry with ⟨key, file⟩
      rw [addDeclared] at added
      split at added
      · cases added
      · exact ih (filed.add _) added

/-- The table of declared schemas is filed. -/
theorem buildSchemas_filed {loaded : Config.Loaded} {table : SchemaTable}
    (built : buildSchemas loaded = .ok table) : table.Filed :=
  addDeclared_filed SchemaTable.filed_nil built

/-- The table entry of a declared schema, if its document is there. -/
def declaredEntry (documents : List (String × Config.LoadedSchema))
    (entry : String × Config.SchemaFile) : String × Schema :=
  (entry.1, .declared entry.1 entry.2.path ((Keyed.get? entry.1 documents).getD default).document)

/-- Declared schemas can be added exactly if each has a document. -/
theorem addDeclared_eq_ok_iff {documents : List (String × Config.LoadedSchema)}
    {start table : SchemaTable} {declared : List (String × Config.SchemaFile)} :
    addDeclared documents start declared = .ok table ↔
      (∀ entry ∈ declared, (Keyed.get? entry.1 documents).isSome) ∧
        (declared.map (declaredEntry documents)).foldl
          (fun table entry => Keyed.insert entry.1 entry.2 table) start = table := by
  induction declared generalizing start with
  | nil => simp [addDeclared]
  | cons entry rest ih =>
      rcases entry with ⟨key, file⟩
      rw [addDeclared]
      cases found : Keyed.get? key documents with
      | none => simp [found]
      | some loaded =>
          have stepEq : SchemaTable.add start (.declared key file.path loaded.document) =
              Keyed.insert key (declaredEntry documents (key, file)).2 start := by
            rw [SchemaTable.add, declaredEntry, found]
            rfl
          simp only [ih, stepEq, List.forall_mem_cons, found, Option.isSome_some, true_and,
            List.map_cons, List.foldl_cons]
          rfl

section Declared

variable {loaded : Config.Loaded} {table : SchemaTable} (built : buildSchemas loaded = .ok table)
include built

theorem get?_of_buildSchemas (key : String) : Keyed.get? key table =
    Keyed.get? key (loaded.config.schemas.map (declaredEntry loaded.schemas)).reverse := by
  rw [← (addDeclared_eq_ok_iff.mp built).2, Keyed.get?_foldl_insert, Keyed.get?_nil, Option.or_none]

/-- The table of declared schemas has the declared keys. -/
theorem mem_keys_of_buildSchemas {key : String} :
    key ∈ table.map (·.1) ↔ key ∈ loaded.config.schemas.map (·.1) := by
  rw [← Keyed.get?_isSome_iff, get?_of_buildSchemas built, Keyed.get?_isSome_iff, List.map_reverse,
    List.mem_reverse, List.map_map]
  rfl

/-- A declared schema has the document that was loaded for it. -/
theorem exists_document_of_buildSchemas {key : String} {schema : Schema}
    (found : Keyed.get? key table = some schema) :
    ∃ path document, Keyed.get? key loaded.schemas = some document ∧
      schema = .declared key path document.document := by
  rw [get?_of_buildSchemas built] at found
  have member := List.mem_reverse.mp (Keyed.mem_of_get?_eq_some found)
  obtain ⟨⟨key', file⟩, fileMem, entryEq⟩ := List.mem_map.mp member
  have isThere := (addDeclared_eq_ok_iff.mp built).1 _ fileMem
  obtain ⟨document, documentEq⟩ := Option.isSome_iff_exists.mp isThere
  rw [declaredEntry, documentEq] at entryEq
  cases entryEq
  exact ⟨file.path, document, documentEq, rfl⟩

end Declared

/-! ## Schemas of resources -/

/-- What resolving a resource does to the table: it stays filed, loses no key, and holds the schema
that the resource was assigned. -/
theorem resolveSchema_eq_ok {table after : SchemaTable} {key slug : String}
    {resource : Config.Resource} {assignment : SchemaAssignment} (filed : table.Filed)
    (resolved : resolveSchema table key resource slug = .ok (assignment, after)) :
    after.Filed ∧ table.map (·.1) ⊆ after.map (·.1) ∧ assignment.key ∈ after.map (·.1) := by
  rw [resolveSchema] at resolved
  split at resolved
  · cases resolved
  · split at resolved
    · rename_i isThere
      cases resolved
      exact ⟨filed, List.Subset.refl _, Keyed.contains_iff.mp isThere⟩
    · cases resolved
  · cases resolved
    refine ⟨filed.add _, ?_, SchemaTable.mem_map_fst_add.mpr (Or.inl rfl)⟩
    intro other member
    exact SchemaTable.mem_map_fst_add.mpr (Or.inr member)

end RestPlugin.Ir
