import RestPlugin.Plugin.Manifest
import RestPlugin.Proofs.Controller.Segments
import RestPlugin.Proofs.Ir.Capability
import RestPlugin.Proofs.Json.RoundTrip

/-!
# The hash that a manifest records

The manifest of a representation can be read back: its numbers are the numbers of cache segments,
and it nests only a few levels deep.  So the hash read from a manifest is the hash it was made
with, whatever the names, warnings and segments of the project are.
-/

namespace RestPlugin

open Json Number

/-! ## Controllers -/

theorem Segment.readable_toJson {segment : Segment} (representable : segment.Representable)
    (levels : Nat) : Readable segment.toJson levels := by
  cases segment with
  | bool value => trivial
  | int value =>
      have wider : greatestSigned ≤ greatestUnsigned := by decide
      exact ⟨representable.1, representable.2.trans wider⟩
  | float value => exact representable
  | text value => trivial

theorem readable_segments {segments : List Segment}
    (representable : ∀ segment ∈ segments, segment.Representable) (levels : Nat) :
    Readable (.arr (segments.map Segment.toJson)) (levels + 1) := by
  rw [readable_arr_iff, List.forall_mem_map]
  exact fun segment member => Segment.readable_toJson (representable segment member) levels

/-- The fields of an optional part. -/
theorem forall_mem_map_toList {α β : Type} {f : α → β} {part : Option α} {holds : β → Prop} :
    (∀ field ∈ (part.map f).toList, holds field) ↔
      ∀ value, part = some value → holds (f value) := by
  cases part <;> simp

namespace Controller

/-- The document of a route can be read back if its segments are representable. -/
theorem RouteMetadata.readable_toJson {route : RouteMetadata}
    (representable : ∀ segments, route.cacheSegments = some segments →
      ∀ segment ∈ segments, segment.Representable) (levels : Nat) :
    Readable route.toJson (levels + 2) := by
  rw [toJson, readable_obj_iff, List.forall_mem_append, List.forall_mem_append,
    forall_mem_map_toList, forall_mem_map_toList]
  refine ⟨⟨?_, ?_⟩, ?_⟩
  · simp
  · exact fun segments segmentsEq => readable_segments (representable segments segmentsEq) levels
  · intro tags _
    rw [readable_obj_iff, Keyed.mapValues, List.forall_mem_map]
    exact fun tag _ => readable_str tag.2 levels

theorem CacheEvent.readable_toJson {event : CacheEvent}
    (representable : ∀ segment ∈ event.segments, segment.Representable) (levels : Nat) :
    Readable event.toJson (levels + 2) := by
  have segments := readable_segments representable levels
  rw [toJson, readable_obj_iff, List.forall_mem_append, forall_mem_map_toList]
  constructor
  · simpa using segments
  · simp

theorem CachePlan.readable_toJson {plan : CachePlan}
    (representable : ∀ event ∈ plan.events, ∀ segment ∈ event.segments, segment.Representable)
    (levels : Nat) : Readable plan.toJson (levels + 4) := by
  rw [toJson, readable_obj_iff, List.forall_mem_singleton, readable_arr_iff, List.forall_mem_map]
  exact fun event member => CacheEvent.readable_toJson (representable event member) levels

theorem Metadata.Representable.readable_toJson {metadata : Metadata}
    (representable : metadata.Representable) (levels : Nat) :
    Readable metadata.toJson (levels + 5) := by
  have routes : ∀ route ∈ metadata.routes, Readable route.toJson (levels + 3) := fun route member =>
    RouteMetadata.readable_toJson (representable.routes route member) (levels + 1)
  have plan := CachePlan.readable_toJson representable.events levels
  rw [toJson, readable_obj_iff]
  simpa [Ir.Identity.toJson, plan] using routes

end Controller

/-! ## Capabilities -/

namespace Ir

/-- Whether the context of a warning, if it has one, nests at most three levels deep. -/
def Warning.Shallow (warning : Warning) : Prop :=
  ∀ context, warning.context = some context → ∀ levels, Readable context (levels + 3)

theorem shallow_bindingWarning {definition : Definition} {warning : Warning}
    (raised : bindingWarning definition = some warning) : warning.Shallow := by
  rw [bindingWarning] at raised
  split at raised
  · cases raised
    rintro context ⟨⟩
    simp
  · cases raised

theorem shallow_mapMissingWarning (missing : List String) :
    (mapMissingWarning missing).Shallow := by
  rintro context ⟨⟩
  simp

theorem shallow_entriesMissingWarning (missing : List String) (references : References) :
    (entriesMissingWarning missing references).Shallow := by
  rintro context ⟨⟩
  simp

theorem shallow_entriesUnusedWarning (unused : List String) :
    (entriesUnusedWarning unused).Shallow := by
  rintro context ⟨⟩
  simp

/-- The warnings of a capability map speak of lists of names and of nothing deeper. -/
theorem shallow_of_buildCapabilityMap {loaded : Config.Loaded} {resources : List Resource}
    {map : CapabilityMap} (built : buildCapabilityMap loaded resources = .ok map) :
    ∀ warning ∈ map.warnings, warning.Shallow :=
  forall_mem_warnings_of_buildCapabilityMap (fun _ _ => shallow_bindingWarning)
    shallow_mapMissingWarning shallow_entriesMissingWarning shallow_entriesUnusedWarning built

end Ir

/-! ## The manifest -/

namespace Plugin

open Controller Ir

theorem readable_warningSummary {warning : Ir.Warning} (shallow : warning.Shallow) (levels : Nat) :
    Readable (warningSummary warning) (levels + 4) := by
  rw [warningSummary, readable_obj_iff, List.forall_mem_append, forall_mem_map_toList]
  constructor
  · simp
  · exact fun context contextEq => (shallow context contextEq levels).sortKeys

theorem readable_capabilitySummary {map : CapabilityMap}
    (shallow : ∀ warning ∈ map.warnings, warning.Shallow) (levels : Nat) :
    Readable (capabilitySummary map) (levels + 6) := by
  have summaries : ∀ warning ∈ map.warnings, Readable (warningSummary warning) (levels + 4) :=
    fun warning member => readable_warningSummary (shallow warning member) levels
  rw [capabilitySummary, readable_obj_iff]
  simpa [Definition.toJson] using summaries

theorem readable_manifest {ir : Ir} {controllers : List Metadata}
    (shallow : ∀ warning ∈ ir.capabilityMap.warnings, warning.Shallow)
    (representable : ∀ metadata ∈ controllers, metadata.Representable) (files : List String)
    (levels : Nat) : Readable (manifest ir controllers files) (levels + 7) := by
  have capabilities := readable_capabilitySummary shallow levels
  have metadata : ∀ metadata ∈ controllers, Readable metadata.toJson (levels + 5) :=
    fun metadata member => (representable metadata member).readable_toJson levels
  rw [manifest, readable_obj_iff]
  simpa [capabilities] using metadata

/-- No key of a manifest occurs twice, so the order in which it is read does not matter. -/
theorem field?_irHash_manifest (ir : Ir) (controllers : List Metadata) (files : List String) :
    (reread (manifest ir controllers files)).field? "irHash" = some (.str ir.hash) := by
  rw [manifest, reread, field?, Keyed.Distinct.get?_sorted]
  · rfl
  · simp [Keyed.Distinct, rereadFields]

/-- The hash read from a manifest is the hash it was made with. -/
theorem manifestHash_manifestFile {ir : Ir} {controllers : List Metadata}
    (shallow : ∀ warning ∈ ir.capabilityMap.warnings, warning.Shallow)
    (representable : ∀ metadata ∈ controllers, metadata.Representable) (files : List String) :
    manifestHash (manifestFile ir controllers files).content = some ir.hash := by
  have readable : Readable (manifest ir controllers files) maxDepth :=
    readable_manifest shallow representable files 120
  have parsed : Json.parse (manifestFile ir controllers files).content =
      .ok (reread (manifest ir controllers files)) := by
    apply parse_pretty readable
    · simp [Ends]
    · simp [isSpace]
  rw [manifestHash, parsed]
  dsimp only
  rw [field?_irHash_manifest]

end Plugin

end RestPlugin
