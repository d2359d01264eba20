import RestPlugin.Ir.Build
import RestPlugin.Proofs.Except
import RestPlugin.Proofs.Lists

/-!
# Finalising a draft

Fragments may fill a draft in any order of schemas and resources.  Finalising it restores one order
of both, so drafts that differ in nothing but their order come to one representation and one hash.
-/

namespace RestPlugin.Ir

/-! ## The orders of a representation -/

theorem Schema.compares : Compares Schema.le Schema.key := fun first second => by
  rw [Schema.le, Bool.not_eq_true', decide_eq_false_iff_not, not_lt]

/-- What a resource is sorted by: its name, then its schema key. -/
def Resource.sortKey (resource : Resource) : String ×ₗ String :=
  toLex (resource.name, resource.schemaKey)

theorem Resource.compares : Compares Resource.le Resource.sortKey := fun first second => by
  rw [Resource.sortKey, Resource.sortKey, Prod.Lex.toLex_le_toLex, Resource.le, Bool.or_eq_true,
    decide_eq_true_iff, Bool.and_eq_true, beq_iff_eq, Bool.not_eq_true', decide_eq_false_iff_not,
    not_lt]

theorem Resource.nodup_sortKey {resources : List Resource}
    (distinct : (resources.map fun resource => (resource.name, resource.schemaKey)).Nodup) :
    (resources.map Resource.sortKey).Nodup := by
  have keys : resources.map Resource.sortKey =
      (resources.map fun resource => (resource.name, resource.schemaKey)).map toLex := by
    rw [List.map_map]
    rfl
  rw [keys]
  exact distinct.map toLex.injective

/-! ## Complete drafts -/

/-- A draft cannot be finalised exactly if one of its five parts is missing. -/
theorem Draft.error_finalise_iff (draft : Draft) :
    (∃ error, draft.finalise = .error error) ↔
      draft.schemas = none ∨ draft.resources = none ∨ draft.info = none ∨
        draft.capabilityMap = none ∨ draft.php = none := by
  rcases draft with ⟨_ | info, _ | schemas, _ | resources, _ | capabilityMap, _ | php⟩ <;>
    simp [finalise, need]

/-- The hash of a finalised draft is that of its content. -/
theorem hash_of_finalise {draft : Draft} {ir : Ir} (finalised : draft.finalise = .ok ir) :
    ir.hash = ir.toJson.contentHash := by
  rw [Draft.finalise] at finalised
  simp only [bind_eq_ok_iff] at finalised
  obtain ⟨schemas, -, resources, -, info, -, capabilityMap, -, php, -, sealed⟩ := finalised
  cases sealed
  rfl

/-! ## The order of a draft does not matter -/

/-- A draft that lacks nothing. -/
def Draft.complete (info : Meta) (schemas : List Schema) (resources : List Resource)
    (capabilityMap : CapabilityMap) (php : PhpProject) : Draft :=
  ⟨some info, some schemas, some resources, some capabilityMap, some php⟩

section Complete

variable (info : Meta) {schemas schemas' : List Schema} {resources resources' : List Resource}
  (capabilityMap : CapabilityMap) (php : PhpProject)

/-- A complete draft is finalised with its schemas and resources sorted. -/
theorem Draft.finalise_complete (schemas : List Schema) (resources : List Resource) :
    (complete info schemas resources capabilityMap php).finalise =
      .ok (Ir.withHash
        { info
          schemas := schemas.mergeSort Schema.le
          resources := resources.mergeSort Resource.le
          capabilityMap
          php
          hash := "" }) := rfl

/-- Reordered drafts come to the same, if nothing in them has the same place. -/
theorem Draft.finalise_eq_of_perm (keys : (schemas.map Schema.key).Nodup)
    (names : (resources.map Resource.sortKey).Nodup) (permSchemas : schemas'.Perm schemas)
    (permResources : resources'.Perm resources) :
    (complete info schemas' resources' capabilityMap php).finalise =
      (complete info schemas resources capabilityMap php).finalise := by
  rw [finalise_complete, finalise_complete,
    Schema.compares.mergeSort_eq_of_perm keys permSchemas.symm,
    Resource.compares.mergeSort_eq_of_perm names permResources.symm]

end Complete

/-- A draft can be finalised exactly if it lacks nothing.  If its schemas have different keys and
its resources differ in name or schema key, then it comes to one representation in whatever order
they are: both are sorted strictly, the rest stays, and the hash is that of the canonical text. -/
theorem finalise_canonical :
    (∀ draft : Draft, (∃ error, draft.finalise = .error error) ↔
      draft.schemas = none ∨ draft.resources = none ∨ draft.info = none ∨
        draft.capabilityMap = none ∨ draft.php = none) ∧
    ∀ (info : Meta) (schemas : List Schema) (resources : List Resource)
      (capabilityMap : CapabilityMap) (php : PhpProject),
      (schemas.map Schema.key).Nodup →
      (resources.map fun resource => (resource.name, resource.schemaKey)).Nodup →
      ∃ ir : Ir, ir.info = info ∧ ir.capabilityMap = capabilityMap ∧ ir.php = php ∧
        ir.schemas.Perm schemas ∧
        (ir.schemas.Pairwise fun first second => first.key < second.key) ∧
        ir.resources.Perm resources ∧
        (ir.resources.Pairwise fun first second => first.name < second.name ∨
          first.name = second.name ∧ first.schemaKey < second.schemaKey) ∧
        ir.hash = ir.toJson.contentHash ∧
        ∀ schemas' resources', schemas'.Perm schemas → resources'.Perm resources →
          (Draft.complete info schemas' resources' capabilityMap php).finalise = .ok ir := by
  refine ⟨Draft.error_finalise_iff, fun info schemas resources capabilityMap php keys names => ?_⟩
  have apart := Resource.nodup_sortKey names
  have finalised := Draft.finalise_complete info capabilityMap php schemas resources
  refine ⟨_, rfl, rfl, rfl, List.mergeSort_perm _ _, Schema.compares.pairwise_lt_mergeSort keys,
    List.mergeSort_perm _ _, ?_, hash_of_finalise finalised, ?_⟩
  · exact (Resource.compares.pairwise_lt_mergeSort apart).imp Prod.Lex.toLex_lt_toLex.mp
  · intro schemas' resources' permSchemas permResources
    rw [Draft.finalise_eq_of_perm info capabilityMap php keys apart permSchemas permResources]
    exact finalised

/-- A resource that is called a note, with a schema of its own. -/
def noteUnder (schemaKey : String) : Resource :=
  { (default : Resource) with name := "note", schemaKey }

/-- Two notes under different schema keys come to one representation in either order. -/
theorem finalise_canonical_notes :
    ∃ ir : Ir, ir.hash = ir.toJson.contentHash ∧
      (Draft.complete default [] [noteUnder "b", noteUnder "a"] default default).finalise = .ok ir ∧
      (Draft.complete default [] [noteUnder "a", noteUnder "b"] default default).finalise =
        .ok ir := by
  obtain ⟨ir, -, -, -, -, -, -, -, hashed, all⟩ := finalise_canonical.2 default []
    [noteUnder "a", noteUnder "b"] default default (by decide) (by decide)
  exact ⟨ir, hashed, all _ _ (.refl _) (.swap _ _ _), all _ _ (.refl _) (.refl _)⟩

end RestPlugin.Ir
