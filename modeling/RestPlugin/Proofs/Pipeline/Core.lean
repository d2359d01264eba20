import RestPlugin.Pipeline.Core
import RestPlugin.Proofs.Ir.Resource

/-!
# The core fragments build the representation

The pipeline of the core fragments does by scheduled steps on a draft what `Ir.build` does directly.
Both succeed on the same configurations and with the same representation; where a part cannot be
built, the pipeline stops at the fragment for that part, with the same error.  The final check and
the completion of the draft never fail after the other fragments.
-/

namespace RestPlugin.Pipeline

open Ir

/-! ## Applying helpers in two groups -/

/-- Helpers are applied in two parts, the second one to what the first one comes to. -/
theorem applyAll_append {ι ω : Type} (stage : Stage) (input : ι)
    (first second : List (Helper (ι → Action ω))) (output : ω) (context : Context) :
    applyAll stage input (first ++ second) output context =
      match applyAll stage input first output context with
      | (.error error, context) => (.error error, context)
      | (.ok output, context) => applyAll stage input second output context := by
  induction first generalizing output context with
  | nil => rfl
  | cons helper rest ih =>
      rw [List.cons_append, applyAll, applyAll]
      split
      · rfl
      · exact ih _ _

namespace Core

/-! ## The parts of a representation -/

/-- The parts that a configuration comes to, each built from the ones before it. -/
structure Parts (loaded : Config.Loaded) where
  info : Meta
  declared : SchemaTable
  resources : List Resource
  table : SchemaTable
  capabilityMap : CapabilityMap
  info_eq : buildMeta loaded = .ok info
  declared_eq : buildSchemas loaded = .ok declared
  resources_eq : buildResources loaded info.slug declared = .ok (resources, table)
  capabilityMap_eq : buildCapabilityMap loaded resources = .ok capabilityMap

/-- The first part that cannot be built, as the fragment that builds it, and why. -/
inductive FailsAt (loaded : Config.Loaded) (error : Ir.Error) : Fragment → Prop
  | info (failed : buildMeta loaded = .error error) : FailsAt loaded error metaFragment
  | schemas {info : Meta} (info_eq : buildMeta loaded = .ok info)
      (failed : buildSchemas loaded = .error error) : FailsAt loaded error schemasFragment
  | resources {info : Meta} {declared : SchemaTable} (info_eq : buildMeta loaded = .ok info)
      (declared_eq : buildSchemas loaded = .ok declared)
      (failed : buildResources loaded info.slug declared = .error error) :
      FailsAt loaded error resourcesFragment
  | capabilityMap {info : Meta} {declared table : SchemaTable} {resources : List Resource}
      (info_eq : buildMeta loaded = .ok info) (declared_eq : buildSchemas loaded = .ok declared)
      (resources_eq : buildResources loaded info.slug declared = .ok (resources, table))
      (failed : buildCapabilityMap loaded resources = .error error) :
      FailsAt loaded error capabilityMapFragment

/-- Either all parts can be built or there is a first one that cannot. -/
theorem exists_parts_or_failsAt (loaded : Config.Loaded) :
    Nonempty (Parts loaded) ∨ ∃ error fragment, FailsAt loaded error fragment := by
  cases info_eq : buildMeta loaded with
  | error error => exact Or.inr ⟨error, _, .info info_eq⟩
  | ok info =>
      cases declared_eq : buildSchemas loaded with
      | error error => exact Or.inr ⟨error, _, .schemas info_eq declared_eq⟩
      | ok declared =>
          cases resources_eq : buildResources loaded info.slug declared with
          | error error => exact Or.inr ⟨error, _, .resources info_eq declared_eq resources_eq⟩
          | ok built =>
              rcases built with ⟨resources, table⟩
              cases map_eq : buildCapabilityMap loaded resources with
              | error error =>
                  exact Or.inr ⟨error, _, .capabilityMap info_eq declared_eq resources_eq map_eq⟩
              | ok capabilityMap =>
                  exact Or.inl ⟨⟨info, declared, resources, table, capabilityMap, info_eq,
                    declared_eq, resources_eq, map_eq⟩⟩

namespace Parts

variable {loaded : Config.Loaded}

/-- The draft with all parts filled in. -/
def draft (parts : Parts loaded) : Draft where
  info := some parts.info
  schemas := some parts.table.schemas
  resources := some parts.resources
  capabilityMap := some parts.capabilityMap
  php := some (buildPhpProject parts.info)

/-- The representation that the parts come to. -/
def ir (parts : Parts loaded) : Ir :=
  Ir.withHash
    { info := parts.info
      schemas := parts.table.schemas.mergeSort Schema.le
      resources := parts.resources.mergeSort Resource.le
      capabilityMap := parts.capabilityMap
      php := buildPhpProject parts.info
      hash := "" }

/-- A draft with all parts is completed to their representation. -/
theorem finalise_draft (parts : Parts loaded) : parts.draft.finalise = .ok parts.ir := rfl

/-- The direct builder comes to the representation of the parts. -/
theorem build_eq (parts : Parts loaded) : build loaded = .ok parts.ir := by
  rw [build, parts.info_eq, ok_bind, parts.declared_eq, ok_bind, parts.resources_eq, ok_bind]
  simp only [parts.capabilityMap_eq, ok_bind]
  exact parts.finalise_draft

theorem table_filed (parts : Parts loaded) : parts.table.Filed :=
  (buildResources_eq_ok parts.resources_eq (buildSchemas_filed parts.declared_eq)).1

theorem schemaKey_mem (parts : Parts loaded) {resource : Resource}
    (member : resource ∈ parts.resources) : resource.schemaKey ∈ parts.table.map (·.1) :=
  (buildResources_eq_ok parts.resources_eq (buildSchemas_filed parts.declared_eq)).2 resource member

/-- The final check finds the schema of every resource. -/
theorem applyValidation_draft (parts : Parts loaded) (context : Context) :
    applyValidation loaded parts.draft context = (.ok parts.draft, context) := by
  have noneDangling : (parts.resources.find? fun resource =>
      !parts.table.schemas.any fun schema => schema.key == resource.schemaKey) = none := by
    rw [List.find?_eq_none]
    intro resource member
    obtain ⟨schema, schemaMem, keyEq⟩ :=
      parts.table_filed.mem_map_key_iff.mpr (parts.schemaKey_mem member)
    have present :
        (parts.table.schemas.any fun schema => schema.key == resource.schemaKey) = true :=
      List.any_eq_true.mpr ⟨schema, schemaMem, beq_of_eq keyEq⟩
    simp [present]
  simp only [applyValidation, draft, noneDangling]

end Parts

/-- The direct builder fails with the error of the first part that cannot be built. -/
theorem FailsAt.build_eq {loaded : Config.Loaded} {error : Ir.Error} {fragment : Fragment}
    (fails : FailsAt loaded error fragment) : build loaded = .error error := by
  cases fails with
  | info failed => rw [build, failed, error_bind]
  | schemas info_eq failed => rw [build, info_eq, ok_bind, failed, error_bind]
  | resources info_eq declared_eq failed =>
      rw [build, info_eq, ok_bind, declared_eq, ok_bind, failed, error_bind]
  | capabilityMap info_eq declared_eq resources_eq failed =>
      rw [build, info_eq, ok_bind, declared_eq, ok_bind, resources_eq, ok_bind]
      simp only [failed, error_bind]

/-- What is built, is built from parts. -/
theorem exists_parts_of_build {loaded : Config.Loaded} {ir : Ir} (built : build loaded = .ok ir) :
    ∃ parts : Parts loaded, parts.ir = ir := by
  rcases exists_parts_or_failsAt loaded with ⟨⟨parts⟩⟩ | ⟨error, fragment, fails⟩
  · exact ⟨parts, Except.ok.inj (parts.build_eq.symm.trans built)⟩
  · rw [fails.build_eq] at built
    cases built

/-- Resources that are declared in order are resolved as they stand. -/
theorem exists_parts_of_sorted {loaded : Config.Loaded} {info : Meta} {declared : SchemaTable}
    (info_eq : buildMeta loaded = .ok info) (declared_eq : buildSchemas loaded = .ok declared)
    (sorted : loaded.config.resources.Pairwise fun first second =>
      declarationLe first second = true)
    (resolved : Succeeds
      (buildResourceList info.slug { schemas := declared } loaded.config.resources))
    (capabilities : Succeeds (declarations loaded.config)) :
    ∃ parts : Parts loaded, parts.info = info := by
  obtain ⟨⟨resources, table⟩, resolvedEq⟩ := resolved
  have resourcesEq : buildResources loaded info.slug declared =
      .ok (resources.mergeSort Resource.le, table) := by
    simp only [buildResources, List.mergeSort_of_pairwise sorted, resolvedEq, ok_bind]
  obtain ⟨map, mapEq⟩ : Succeeds (buildCapabilityMap loaded (resources.mergeSort Resource.le)) := by
    refine capabilities.bind fun found => ?_
    split <;> exact succeeds_ok _
  exact ⟨⟨info, declared, _, table, map, info_eq, declared_eq, resourcesEq, mapEq⟩, rfl⟩

/-! ## The run of the fragments -/

/-- The fragments that fill the draft, which are all but the final check. -/
def filling : List Fragment :=
  [metaFragment, schemasFragment, resourcesFragment, capabilityMapFragment, phpFragment]

theorem fragments_eq : fragments = filling ++ [validationFragment] := rfl

/-- Once all parts can be built, the filling fragments put them into the draft.  The table of
schemas passes through the draft as a list, from which it is rebuilt. -/
theorem applyAll_filling_of_parts {loaded : Config.Loaded} (parts : Parts loaded)
    (context : Context) :
    ∃ after, applyAll .fragment loaded filling {} context = (.ok parts.draft, after) := by
  have rebuilt := (buildSchemas_filed parts.declared_eq).ofSchemas_schemas
  simp only [filling, applyAll, metaFragment, applyMeta, parts.info_eq, schemasFragment,
    applySchemas, parts.declared_eq, resourcesFragment, applyResources, Option.getD_some, rebuilt,
    parts.resources_eq, capabilityMapFragment, applyCapabilityMap, parts.capabilityMap_eq,
    phpFragment, applyPhp]
  exact ⟨_, rfl⟩

/-- Where a part cannot be built, its fragment fails. -/
theorem applyAll_filling_of_failsAt {loaded : Config.Loaded} {error : Ir.Error}
    {fragment : Fragment} (fails : FailsAt loaded error fragment) (context : Context) :
    ∃ after, applyAll .fragment loaded filling {} context =
      (.error (.helper .fragment .fragment fragment.key (.representation error)), after) := by
  cases fails with
  | info failed =>
      simp only [filling, applyAll, metaFragment, applyMeta, failed]
      exact ⟨_, rfl⟩
  | schemas info_eq failed =>
      simp only [filling, applyAll, metaFragment, applyMeta, info_eq, schemasFragment,
        applySchemas, failed]
      exact ⟨_, rfl⟩
  | resources info_eq declared_eq failed =>
      have rebuilt := (buildSchemas_filed declared_eq).ofSchemas_schemas
      simp only [filling, applyAll, metaFragment, applyMeta, info_eq, schemasFragment,
        applySchemas, declared_eq, resourcesFragment, applyResources, Option.getD_some, rebuilt,
        failed]
      exact ⟨_, rfl⟩
  | capabilityMap info_eq declared_eq resources_eq failed =>
      have rebuilt := (buildSchemas_filed declared_eq).ofSchemas_schemas
      simp only [filling, applyAll, metaFragment, applyMeta, info_eq, schemasFragment,
        applySchemas, declared_eq, resourcesFragment, applyResources, Option.getD_some, rebuilt,
        resources_eq, capabilityMapFragment, applyCapabilityMap, failed]
      exact ⟨_, rfl⟩

/-- Whatever draft the filling fragments come to, it holds the parts of the representation. -/
theorem exists_parts_of_applyAll_filling {loaded : Config.Loaded} {draft : Draft}
    {context after : Context}
    (filled : applyAll .fragment loaded filling {} context = (.ok draft, after)) :
    ∃ parts : Parts loaded, draft = parts.draft := by
  rcases exists_parts_or_failsAt loaded with ⟨⟨parts⟩⟩ | ⟨error, fragment, fails⟩
  · obtain ⟨_, filledEq⟩ := applyAll_filling_of_parts parts context
    rw [filledEq] at filled
    cases filled
    exact ⟨parts, rfl⟩
  · obtain ⟨_, failedEq⟩ := applyAll_filling_of_failsAt fails context
    rw [failedEq] at filled
    cases filled

/-- The final check passes after the filling fragments. -/
theorem applyAll_fragments_of_parts {loaded : Config.Loaded} (parts : Parts loaded)
    (context : Context) :
    ∃ after, applyAll .fragment loaded fragments {} context = (.ok parts.draft, after) := by
  obtain ⟨after, filled⟩ := applyAll_filling_of_parts parts context
  simp only [fragments_eq, applyAll_append, filled, applyAll, validationFragment,
    parts.applyValidation_draft]
  exact ⟨_, rfl⟩

/-- Whatever draft the fragments come to, it holds the parts of the representation. -/
theorem exists_parts_of_applyAll_fragments {loaded : Config.Loaded} {draft : Draft}
    {context after : Context}
    (done : applyAll .fragment loaded fragments {} context = (.ok draft, after)) :
    ∃ parts : Parts loaded, draft = parts.draft := by
  rw [fragments_eq, applyAll_append] at done
  split at done
  · cases done
  · rename_i filled
    obtain ⟨parts, rfl⟩ := exists_parts_of_applyAll_filling filled
    simp only [applyAll, validationFragment, parts.applyValidation_draft] at done
    cases done
    exact ⟨parts, rfl⟩

/-! ## The run of the pipeline -/

/-- The core fragments run in the order in which they are registered. -/
theorem fragmentSchedule_order : core.fragmentSchedule.order = fragments := rfl

theorem builderSchedule_order : core.builderSchedule.order = [] := rfl

/-- The steps of the core fragments, each of them executed. -/
def executedSteps : List Step := fragments.map fun fragment => ⟨fragment.key, .fragment, .executed⟩

theorem plannedSteps_eq : Schedule.steps .fragment core.fragmentSchedule ++
    Schedule.steps .builder core.builderSchedule = executedSteps := rfl

/-- Every core fragment is needed by another one or is terminal, whatever is requested. -/
theorem diagnostics_eq_nil (requested : List String) : core.diagnostics requested = [] := rfl

theorem run_of_parts {loaded : Config.Loaded} (parts : Parts loaded) (requested : List String)
    (context : Context) :
    ∃ files, (core.run loaded requested context).1 = .ok ⟨parts.ir, files, [], executedSteps⟩ := by
  obtain ⟨after, done⟩ := applyAll_fragments_of_parts parts (context.setPhase (some .fragment))
  refine ⟨[], ?_⟩
  simp only [run, fragmentSchedule_order, done, parts.finalise_draft, builderSchedule_order,
    applyAll, diagnostics_eq_nil, plannedSteps_eq]

theorem run_of_failsAt {loaded : Config.Loaded} {error : Ir.Error} {fragment : Fragment}
    (fails : FailsAt loaded error fragment) (requested : List String) (context : Context) :
    (core.run loaded requested context).1 =
      .error (.helper .fragment .fragment fragment.key (.representation error)) := by
  obtain ⟨after, failed⟩ :=
    applyAll_filling_of_failsAt fails (context.setPhase (some .fragment))
  simp only [run, fragmentSchedule_order, fragments_eq, applyAll_append, failed]

/-- The pipeline of the core fragments agrees with the direct builder for every configuration,
context and set of requested keys.  It comes to a representation exactly if the builder comes to
it, and then without diagnostics and with every fragment executed.  If the builder fails, the run
stops at the fragment of the part that cannot be built, which the outermost message names, and the
innermost message is that of the builder.  The final check and the completion of the draft succeed
on every draft that the other fragments filled. -/
theorem core_run_agrees_with_build (loaded : Config.Loaded) (requested : List String)
    (context : Context) :
    (∀ ir, build loaded = .ok ir ↔
      ∃ result, (core.run loaded requested context).1 = .ok result ∧ result.ir = ir) ∧
    (∀ result, (core.run loaded requested context).1 = .ok result →
      result.diagnostics = [] ∧ result.steps = executedSteps) ∧
    (∀ error, build loaded = .error error →
      ∃ fragment report, FailsAt loaded error fragment ∧
        (core.run loaded requested context).1 = .error report ∧
        report.chain.head? = some (s!"fragment helper \"{fragment.key}\" failed") ∧
        report.chain.getLast? = some error.message) ∧
    ∀ draft before after, applyAll .fragment loaded filling {} before = (.ok draft, after) →
      applyValidation loaded draft after = (.ok draft, after) ∧ ∃ ir, draft.finalise = .ok ir := by
  refine ⟨?_, ?_, ?_, ?_⟩
  · intro ir
    rcases exists_parts_or_failsAt loaded with ⟨⟨parts⟩⟩ | ⟨error, fragment, fails⟩
    · obtain ⟨files, runEq⟩ := run_of_parts parts requested context
      simp [parts.build_eq, runEq]
    · simp [fails.build_eq, run_of_failsAt fails]
  · intro result success
    rcases exists_parts_or_failsAt loaded with ⟨⟨parts⟩⟩ | ⟨error, fragment, fails⟩
    · obtain ⟨files, runEq⟩ := run_of_parts parts requested context
      rw [runEq] at success
      cases success
      exact ⟨rfl, rfl⟩
    · rw [run_of_failsAt fails] at success
      cases success
  · intro error failed
    rcases exists_parts_or_failsAt loaded with ⟨⟨parts⟩⟩ | ⟨error', fragment, fails⟩
    · rw [parts.build_eq] at failed
      cases failed
    · rw [fails.build_eq] at failed
      cases failed
      exact ⟨fragment, _, fails, run_of_failsAt fails requested context, rfl, rfl⟩
  · intro draft before after filled
    obtain ⟨parts, rfl⟩ := exists_parts_of_applyAll_filling filled
    exact ⟨parts.applyValidation_draft after, parts.ir, parts.finalise_draft⟩

end Core

end RestPlugin.Pipeline
