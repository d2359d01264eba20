import RestPlugin.Proofs.Ir.Schema

/-!
# Resolved resources

What resolving a resource, and then a list of resources, does to the table of schemas: it stays
filed, and at the end it holds the schema of every resource.
-/

namespace RestPlugin

namespace Ir

/-- The parts from which a resource is resolved. -/
theorem buildResource_eq_ok {slug key : String} {claims after : Claims}
    {resource : Config.Resource} {built : Resource}
    (resolved : buildResource slug claims key resource = .ok (built, after)) :
    ∃ assignment,
      resolveSchema claims.schemas key resource slug = .ok (assignment, after.schemas) ∧
      built.schemaKey = assignment.key ∧ built.schemaProvenance = assignment.provenance := by
  rw [buildResource] at resolved
  simp only [bind_eq_ok_iff] at resolved
  obtain ⟨routes, routesEq, _, _, ⟨assignment, table⟩, schemaEq, resolved⟩ := resolved
  cases resolved
  exact ⟨assignment, schemaEq, rfl, rfl⟩

/-- The resources resolved one after another leave the table filed, and it holds the schemas that
were there before and those of the resources. -/
theorem buildResourceList_eq_ok {slug : String} {claims : Claims}
    {declared : List (String × Config.Resource)} {resources : List Resource} {table : SchemaTable}
    (filed : claims.schemas.Filed)
    (resolved : buildResourceList slug claims declared = .ok (resources, table)) :
    table.Filed ∧ claims.schemas.map (·.1) ⊆ table.map (·.1) ∧
      ∀ resource ∈ resources, resource.schemaKey ∈ table.map (·.1) := by
  induction declared generalizing claims resources with
  | nil =>
      cases resolved
      exact ⟨filed, List.Subset.refl _, by simp⟩
  | cons entry rest ih =>
      rcases entry with ⟨key, resource⟩
      rw [buildResourceList] at resolved
      simp only [bind_eq_ok_iff] at resolved
      obtain ⟨⟨built, between⟩, builtEq, ⟨others, last⟩, othersEq, resolved⟩ := resolved
      cases resolved
      obtain ⟨assignment, schemaEq, keyEq, -⟩ := buildResource_eq_ok builtEq
      obtain ⟨betweenFiled, kept, assigned⟩ := resolveSchema_eq_ok filed schemaEq
      obtain ⟨tableFiled, keptLater, othersIn⟩ := ih betweenFiled othersEq
      refine ⟨tableFiled, List.Subset.trans kept keptLater, ?_⟩
      intro other member
      rcases List.mem_cons.mp member with rfl | inRest
      · rw [keyEq]
        exact keptLater assigned
      · exact othersIn other inRest

/-- Resources resolved one after another are each resolved from the declaration in their place. -/
theorem forall₂_of_buildResourceList {slug : String} {claims : Claims}
    {declared : List (String × Config.Resource)} {resources : List Resource} {table : SchemaTable}
    (resolved : buildResourceList slug claims declared = .ok (resources, table)) :
    List.Forall₂ (fun resource entry => ∃ before after,
      buildResource slug before entry.1 entry.2 = .ok (resource, after)) resources declared := by
  induction declared generalizing claims resources with
  | nil =>
      cases resolved
      exact .nil
  | cons entry rest ih =>
      rw [buildResourceList] at resolved
      simp only [bind_eq_ok_iff] at resolved
      obtain ⟨⟨built, between⟩, builtEq, ⟨others, last⟩, othersEq, resolved⟩ := resolved
      cases resolved
      exact .cons ⟨claims, between, builtEq⟩ (ih othersEq)

/-! ## The resources of a configuration -/

section Resources

variable {loaded : Config.Loaded} {slug : String} {declared table : SchemaTable}
  {resources : List Resource}
  (built : buildResources loaded slug declared = .ok (resources, table))
include built

/-- The declarations are resolved in order, and the resources sorted afterwards. -/
theorem exists_list_of_buildResources : ∃ resolved,
    buildResourceList slug { schemas := declared }
        (loaded.config.resources.mergeSort declarationLe) = .ok (resolved, table) ∧
      resources = resolved.mergeSort Resource.le := by
  rw [buildResources] at built
  simp only [bind_eq_ok_iff] at built
  obtain ⟨⟨resolved, last⟩, resolvedEq, built⟩ := built
  cases built
  exact ⟨resolved, resolvedEq, rfl⟩

/-- The schema of every resolved resource is in the table. -/
theorem buildResources_eq_ok (filed : declared.Filed) :
    table.Filed ∧ ∀ resource ∈ resources, resource.schemaKey ∈ table.map (·.1) := by
  obtain ⟨resolved, resolvedEq, rfl⟩ := exists_list_of_buildResources built
  obtain ⟨tableFiled, _, keysIn⟩ := buildResourceList_eq_ok filed resolvedEq
  exact ⟨tableFiled, fun resource member => keysIn resource (List.mem_mergeSort.mp member)⟩

/-- Every resource of a representation is resolved from a declaration of the configuration. -/
theorem exists_origin_of_buildResources :
    ∀ resource ∈ resources, ∃ entry ∈ loaded.config.resources, ∃ before after,
      buildResource slug before entry.1 entry.2 = .ok (resource, after) := by
  obtain ⟨resolved, resolvedEq, rfl⟩ := exists_list_of_buildResources built
  intro resource member
  obtain ⟨entry, entryMem, found⟩ := exists_right_of_forall₂
    (forall₂_of_buildResourceList resolvedEq) resource (List.mem_mergeSort.mp member)
  exact ⟨entry, List.mem_mergeSort.mp entryMem, found⟩

/-- Every declaration of the configuration is resolved to a resource of the representation. -/
theorem exists_resolved_of_buildResources :
    ∀ entry ∈ loaded.config.resources, ∃ resource ∈ resources, ∃ before after,
      buildResource slug before entry.1 entry.2 = .ok (resource, after) := by
  obtain ⟨resolved, resolvedEq, rfl⟩ := exists_list_of_buildResources built
  intro entry member
  obtain ⟨resource, resourceMem, found⟩ := exists_left_of_forall₂
    (forall₂_of_buildResourceList resolvedEq) entry (List.mem_mergeSort.mpr member)
  exact ⟨resource, List.mem_mergeSort.mpr resourceMem, found⟩

end Resources

end Ir

end RestPlugin
