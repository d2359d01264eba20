import RestPlugin.Proofs.Ir.Capability
import RestPlugin.Proofs.Lists

/-!
# Definitions of capabilities

A capability map is refused exactly if a key is declared with two meanings.  Otherwise it defines
every key that is declared or referred to, once and in ascending order: a declared key by its
declaration, any other by the fallback.
-/

namespace RestPlugin.Ir

/-- A key is declared for the whole project or inside a resource. -/
def Declared (config : Config) (key : String) : Prop :=
  ∃ capability, (key, capability) ∈ declaredCapabilities config

/-- A route of one of the resources refers to a key. -/
def Referenced (resources : List Resource) (key : String) : Prop :=
  ∃ resource ∈ resources, ∃ route ∈ resource.routes, route.capability = some key

theorem referenced_of_perm {first second : List Resource} (perm : first.Perm second) {key : String}
    (referenced : Referenced first key) : Referenced second key := by
  obtain ⟨resource, member, asked⟩ := referenced
  exact ⟨resource, perm.mem_iff.mp member, asked⟩

/-- A map defines exactly the keys that are declared or referred to. -/
structure CapabilityMap.Describes (map : CapabilityMap) (config : Config)
    (resources : List Resource) : Prop where
  ascending : map.definitions.Pairwise fun first second => first.key < second.key
  keys : ∀ key, (∃ definition ∈ map.definitions, definition.key = key) ↔
    Declared config key ∨ Referenced resources key
  source : ∀ definition ∈ map.definitions,
    definition.source = .map ↔ Declared config definition.key
  declared : ∀ definition ∈ map.definitions, ∀ capability,
    (definition.key, capability) ∈ declaredCapabilities config →
      definition = .ofDeclaration (collectReferences resources) resources definition.key
        ⟨capability, none⟩
  fallback : ∀ definition ∈ map.definitions, ¬Declared config definition.key →
    definition.capability = "manage_options" ∧ definition.appliesTo = .resource ∧
      definition.binding = none ∧ definition.source = .fallback
  missing : ∀ key, key ∈ map.missing ↔ Referenced resources key ∧ ¬Declared config key
  missing_ascending : map.missing.Pairwise (· < ·)
  unused : ∀ key, key ∈ map.unused ↔ Declared config key ∧ ¬Referenced resources key
  unused_ascending : map.unused.Pairwise (· < ·)

/-! ## References -/

/-- A resource refers to the keys of its routes. -/
theorem mem_capabilityKeys_iff {resource : Resource} {key : String} :
    key ∈ resource.capabilityKeys ↔ ∃ route ∈ resource.routes, route.capability = some key := by
  rw [Resource.capabilityKeys, ← Keyed.get?_isSome_iff, Keyed.get?_sorted, Keyed.get?_isSome_iff]
  simp

/-- Keys with ascending entries, of which exactly the given ones occur. -/
structure Collects (references : References) (keys : String → Prop) : Prop where
  ascending : Keyed.Ascending references
  mem_iff : ∀ key, key ∈ references.map (·.1) ↔ keys key

/-- Inserting a key collects it beside the others. -/
theorem Collects.insert {references : References} {keys : String → Prop}
    (collects : Collects references keys) (key : String) (names : List String) :
    Collects (Keyed.insert key names references) fun wanted => wanted = key ∨ keys wanted :=
  ⟨collects.ascending.insert key names, fun wanted => by
    rw [Keyed.mem_map_fst_insert, collects.mem_iff]⟩

theorem Collects.congr {references : References} {keys keys' : String → Prop}
    (collects : Collects references keys) (same : ∀ key, keys key ↔ keys' key) :
    Collects references keys' :=
  ⟨collects.ascending, fun key => (collects.mem_iff key).trans (same key)⟩

/-- The references of one resource add its keys. -/
theorem Collects.addKeys {references : References} {before : String → Prop}
    (collects : Collects references before) (name : String) (keys : List String) :
    Collects (keys.foldl (fun references key =>
      Keyed.insert key (insertName name ((Keyed.get? key references).getD [])) references)
        references) fun key => before key ∨ key ∈ keys := by
  induction keys generalizing references before with
  | nil => exact collects.congr fun key => by simp
  | cons first rest ih =>
      refine (ih (collects.insert first _)).congr fun key => ?_
      rw [List.mem_cons]
      tauto

/-- The references of resources are collected under the keys that routes have. -/
theorem collects_collectReferences (resources : List Resource) :
    Collects (collectReferences resources) (Referenced resources) := by
  have each (references : References) (before : String → Prop)
      (collects : Collects references before) :
      Collects (resources.foldl (fun references resource =>
        resource.capabilityKeys.foldl (fun references key =>
          Keyed.insert key (insertName resource.name ((Keyed.get? key references).getD []))
            references) references) references)
        fun key => before key ∨ Referenced resources key := by
    induction resources generalizing references before with
    | nil => exact collects.congr fun key => by simp [Referenced]
    | cons first rest ih =>
        refine (ih _ _ (collects.addKeys first.name first.capabilityKeys)).congr fun key => ?_
        rw [mem_capabilityKeys_iff, Referenced, Referenced, or_assoc, List.exists_mem_cons_iff]
  refine (each [] (fun _ => False) ⟨List.Pairwise.nil, by simp⟩).congr fun key => ?_
  rw [false_or]

/-! ## Declarations -/

/-- The declarations fail exactly if they contradict each other. -/
theorem declarations_isError_iff {config : Config}
    (distinct : Keyed.Distinct (config.capabilities.getD [])) :
    (∃ error, declarations config = .error error) ↔ ¬Consistent (declaredCapabilities config) := by
  rcases declarations_spec distinct with ⟨table, accepted, covers⟩ | ⟨failed, inconsistent⟩
  · constructor
    · rintro ⟨error, failed⟩
      rw [accepted] at failed
      cases failed
    · exact fun inconsistent => absurd covers.consistent inconsistent
  · exact ⟨fun _ => inconsistent, fun _ => failed⟩

/-- Declarations are contradictory exactly if two of them differ under one key. -/
theorem not_consistent_iff {declared : List (String × Config.Capability)} :
    ¬Consistent declared ↔ ∃ key first second,
      (key, first) ∈ declared ∧ (key, second) ∈ declared ∧ first ≠ second := by
  simp only [Consistent, not_forall, exists_prop]

/-- The map of capabilities fails exactly if the declarations do. -/
theorem buildCapabilityMap_isError_iff {loaded : Config.Loaded} (resources : List Resource) :
    (∃ error, buildCapabilityMap loaded resources = .error error) ↔
      ∃ error, declarations loaded.config = .error error := by
  rw [buildCapabilityMap]
  cases declarations loaded.config with
  | error error => simp
  | ok declared =>
      rw [ok_bind]
      split <;> simp

/-- A table that covers the declarations has the keys that are declared. -/
theorem Covers.mem_keys_iff {table : List (String × Declaration)} {config : Config}
    (covers : Covers table (declaredCapabilities config)) (key : String) :
    key ∈ table.map (·.1) ↔ Declared config key := by
  rw [← Keyed.map_fst_mapValues Declaration.capability, ← meanings, ← Keyed.get?_isSome_iff,
    Option.isSome_iff_exists]
  exact exists_congr fun capability => covers.get?_iff key capability

/-! ## Definitions -/

theorem Definition.compares : Compares Definition.le Definition.key := fun first second => by
  rw [Definition.le, Bool.not_eq_true', decide_eq_false_iff_not, not_lt]

section Tables

variable {config : Config} {resources : List Resource} {table : List (String × Declaration)}
  (covers : Covers table (declaredCapabilities config))
include covers

/-- A key is missing in the table exactly if it is not declared. -/
theorem not_contains_iff (key : String) :
    (!Keyed.contains key table) = true ↔ ¬Declared config key := by
  rw [Bool.not_eq_true', Bool.eq_false_iff, ne_eq, Keyed.contains_iff, covers.mem_keys_iff]

/-- The key of an entry is declared with its capability, and with nothing else. -/
theorem mem_declaredCapabilities_iff_eq {entry : String × Declaration} (member : entry ∈ table)
    (capability : Config.Capability) :
    (entry.1, capability) ∈ declaredCapabilities config ↔ capability = entry.2.capability := by
  rw [← covers.get?_iff, meanings, Keyed.get?_mapValues,
    covers.ascending.distinct.get?_eq_some_iff.mpr member, Option.map_some, Option.some.injEq]
  exact eq_comm

/-- What a map defines follows from where its definitions come from. -/
theorem describes_of {map : CapabilityMap}
    (ascending : map.definitions.Pairwise fun first second => first.key < second.key)
    (origin : ∀ definition, definition ∈ map.definitions ↔
      (∃ entry ∈ table, definition = .ofDeclaration (collectReferences resources) resources entry.1
        ⟨entry.2.capability, none⟩) ∨ ∃ key ∈ map.missing, definition = .ofFallback key)
    (missing : ∀ key, key ∈ map.missing ↔ Referenced resources key ∧ ¬Declared config key)
    (missing_ascending : map.missing.Pairwise (· < ·))
    (unused : ∀ key, key ∈ map.unused ↔ Declared config key ∧ ¬Referenced resources key)
    (unused_ascending : map.unused.Pairwise (· < ·)) : map.Describes config resources where
  ascending := ascending
  keys := by
    intro key
    constructor
    · rintro ⟨definition, member, rfl⟩
      rcases (origin definition).mp member with ⟨entry, entryMem, rfl⟩ | ⟨key, keyMem, rfl⟩
      · exact .inl ((covers.mem_keys_iff _).mp (List.mem_map_of_mem entryMem))
      · exact .inr ((missing key).mp keyMem).1
    · intro known
      by_cases declared : Declared config key
      · obtain ⟨entry, entryMem, rfl⟩ := List.mem_map.mp ((covers.mem_keys_iff key).mpr declared)
        exact ⟨_, (origin _).mpr (.inl ⟨entry, entryMem, rfl⟩), rfl⟩
      · have isMissing := (missing key).mpr ⟨known.resolve_left declared, declared⟩
        exact ⟨_, (origin _).mpr (.inr ⟨key, isMissing, rfl⟩), rfl⟩
  source := by
    intro definition member
    rcases (origin definition).mp member with ⟨entry, entryMem, rfl⟩ | ⟨key, keyMem, rfl⟩
    · exact iff_of_true rfl ((covers.mem_keys_iff _).mp (List.mem_map_of_mem entryMem))
    · exact iff_of_false nofun ((missing key).mp keyMem).2
  declared := by
    intro definition member capability declared
    rcases (origin definition).mp member with ⟨entry, entryMem, rfl⟩ | ⟨key, keyMem, rfl⟩
    · rw [(mem_declaredCapabilities_iff_eq covers entryMem capability).mp declared]
      rfl
    · exact absurd ⟨capability, declared⟩ ((missing key).mp keyMem).2
  fallback := by
    intro definition member notDeclared
    rcases (origin definition).mp member with ⟨entry, entryMem, rfl⟩ | ⟨key, keyMem, rfl⟩
    · exact absurd ((covers.mem_keys_iff _).mp (List.mem_map_of_mem entryMem)) notDeclared
    · exact ⟨rfl, rfl, rfl, rfl⟩
  missing := missing
  missing_ascending := missing_ascending
  unused := unused
  unused_ascending := unused_ascending

/-- The map that is made from declarations describes them and what the routes refer to. -/
theorem describes_ofDeclarations (sourcePath : Option String) :
    (CapabilityMap.ofDeclarations sourcePath resources table).Describes config resources := by
  have collects := collects_collectReferences resources
  have references : ((collectReferences resources).map (·.1)).Pairwise (· < ·) :=
    List.pairwise_map.mpr collects.ascending
  have declared : (table.map (·.1)).Pairwise (· < ·) := List.pairwise_map.mpr covers.ascending
  have missing (key : String) :
      key ∈ (CapabilityMap.ofDeclarations sourcePath resources table).missing ↔
        Referenced resources key ∧ ¬Declared config key := by
    rw [CapabilityMap.ofDeclarations, List.mem_filter, collects.mem_iff, not_contains_iff covers]
  refine describes_of covers (Definition.compares.pairwise_lt_mergeSort ?_)
    (fun definition => ?_) missing (references.filter _) (fun key => ?_) (declared.filter _)
  · rw [List.map_append, List.map_map, List.map_map, List.nodup_append]
    refine ⟨declared.imp ne_of_lt, ?_, ?_⟩
    · exact List.pairwise_map.mpr ((references.filter _).imp ne_of_lt)
    · rintro key inTable _ isMissing rfl
      obtain ⟨missed, missedMem, missedEq⟩ := List.mem_map.mp isMissing
      obtain rfl : missed = key := missedEq
      exact ((missing missed).mp missedMem).2 ((covers.mem_keys_iff missed).mp inTable)
  · rw [CapabilityMap.ofDeclarations, List.mem_mergeSort, List.mem_append, List.mem_map,
      List.mem_map]
    exact or_congr (exists_congr fun entry => and_congr_right fun _ => eq_comm)
      (exists_congr fun key => and_congr_right fun _ => eq_comm)
  · rw [CapabilityMap.ofDeclarations, List.mem_filter, covers.mem_keys_iff, Bool.not_eq_true',
      Bool.eq_false_iff, ne_eq, Keyed.contains_iff, collects.mem_iff]

/-- Without declarations, the map describes what the routes refer to. -/
theorem describes_undeclared (isEmpty : table = []) :
    (CapabilityMap.undeclared ((collectReferences resources).map (·.1))).Describes config
      resources := by
  have collects := collects_collectReferences resources
  have references : ((collectReferences resources).map (·.1)).Pairwise (· < ·) :=
    List.pairwise_map.mpr collects.ascending
  have nothing (key : String) : ¬Declared config key := by
    rw [← covers.mem_keys_iff, isEmpty]
    exact List.not_mem_nil
  refine describes_of covers (List.pairwise_map.mpr references) (fun definition => ?_)
    (fun key => ?_) references (fun key => ?_) List.Pairwise.nil
  · rw [isEmpty, CapabilityMap.undeclared, List.mem_map]
    simp [eq_comm]
  · rw [CapabilityMap.undeclared, collects.mem_iff, and_iff_left (nothing key)]
  · exact iff_of_false List.not_mem_nil fun declared => nothing key declared.1

end Tables

/-- A map that is built defines exactly the keys that are declared or referred to. -/
theorem describes_of_buildCapabilityMap {loaded : Config.Loaded} {resources : List Resource}
    {map : CapabilityMap} (distinct : Keyed.Distinct (loaded.config.capabilities.getD []))
    (built : buildCapabilityMap loaded resources = .ok map) :
    map.Describes loaded.config resources := by
  rw [buildCapabilityMap, bind_eq_ok_iff] at built
  obtain ⟨table, accepted, built⟩ := built
  have covers : Covers table (declaredCapabilities loaded.config) := by
    rcases declarations_spec distinct with ⟨_, acceptedEq, covers⟩ | ⟨⟨_, failedEq⟩, -⟩
    · rw [acceptedEq] at accepted
      cases accepted
      exact covers
    · rw [failedEq] at accepted
      cases accepted
  split at built
  · rename_i isEmpty
    cases built
    exact describes_undeclared covers (List.isEmpty_iff.mp isEmpty)
  · cases built
    exact describes_ofDeclarations covers _

/-- A map warns about every definition for objects without a request parameter. -/
theorem mem_warnings_of_bindingWarning {loaded : Config.Loaded} {resources : List Resource}
    {map : CapabilityMap} (built : buildCapabilityMap loaded resources = .ok map)
    {definition : Definition} (member : definition ∈ map.definitions) {warning : Warning}
    (raised : bindingWarning definition = some warning) : warning ∈ map.warnings := by
  have notFallback (key : String) : bindingWarning (.ofFallback key) = none := rfl
  rw [buildCapabilityMap, bind_eq_ok_iff] at built
  obtain ⟨table, -, built⟩ := built
  split at built
  · cases built
    obtain ⟨key, -, rfl⟩ := List.mem_map.mp member
    rw [notFallback] at raised
    cases raised
  · cases built
    rw [CapabilityMap.ofDeclarations, List.mem_mergeSort, List.mem_append] at member
    rcases member with declared | missing
    · rw [CapabilityMap.ofDeclarations, sortWarnings, List.mem_mergeSort, List.append_assoc,
        List.mem_append]
      exact .inl (List.mem_filterMap.mpr ⟨definition, declared, raised⟩)
    · obtain ⟨key, -, rfl⟩ := List.mem_map.mp missing
      rw [notFallback] at raised
      cases raised

end RestPlugin.Ir
