import RestPlugin.Ir.Capability
import RestPlugin.Proofs.Except
import RestPlugin.Proofs.Keyed

/-!
# Declared capabilities

A key may be declared for the whole project and inside any number of resources.  The declarations
are accepted exactly if no key is given two meanings, and the accepted table gives every declared
key its meaning.  Who declared a key first is remembered only for error messages: the capability map
does not depend on it.
-/

namespace RestPlugin.Ir

/-- All declarations of a configuration: those for the whole project, then those inside
resources. -/
def declaredCapabilities (config : Config) : List (String × Config.Capability) :=
  config.capabilities.getD [] ++
    config.resources.flatMap fun entry => entry.2.capabilities.getD []

/-- No key is given two meanings. -/
def Consistent (declared : List (String × Config.Capability)) : Prop :=
  ∀ key first second, (key, first) ∈ declared → (key, second) ∈ declared → first = second

/-- The meanings in a table of declarations. -/
def meanings (table : List (String × Declaration)) : List (String × Config.Capability) :=
  Keyed.mapValues Declaration.capability table

/-- A table has ascending keys, and its meanings are exactly the given declarations. -/
structure Covers (table : List (String × Declaration))
    (declared : List (String × Config.Capability)) : Prop where
  ascending : Keyed.Ascending table
  get?_iff : ∀ key capability,
    Keyed.get? key (meanings table) = some capability ↔ (key, capability) ∈ declared

namespace Covers

variable {table : List (String × Declaration)} {declared : List (String × Config.Capability)}

/-- What a table covers is consistent. -/
theorem consistent (covers : Covers table declared) : Consistent declared := by
  intro key first second firstMem secondMem
  have firstEq := (covers.get?_iff key first).mpr firstMem
  rw [(covers.get?_iff key second).mpr secondMem] at firstEq
  exact (Option.some.inj firstEq).symm

/-- A declaration of a new key is covered once it is inserted. -/
theorem insert (covers : Covers table declared) {key : String} (isNew : Keyed.get? key table = none)
    (capability : Config.Capability) (owner : Option String) :
    Covers (Keyed.insert key ⟨capability, owner⟩ table) (declared ++ [(key, capability)]) := by
  refine ⟨covers.ascending.insert key _, ?_⟩
  intro wanted other
  have absent : (wanted, other) ∈ declared → key ≠ wanted := by
    rintro member rfl
    have found := (covers.get?_iff key other).mpr member
    rw [meanings, Keyed.get?_mapValues, isNew] at found
    cases found
  have elsewhere := covers.get?_iff wanted other
  rw [meanings, Keyed.get?_mapValues] at elsewhere ⊢
  rw [Keyed.get?_insert, List.mem_append, List.mem_singleton, Prod.mk.injEq]
  by_cases keyEq : key = wanted
  · simp only [keyEq, if_true, Option.map_some, Option.some.injEq, true_and]
    exact ⟨fun same => Or.inr same.symm,
      fun either => either.elim (fun member => absurd keyEq (absent member)) Eq.symm⟩
  · simp only [if_neg keyEq, elsewhere, Ne.symm keyEq, false_and, or_false]

/-- A repeated declaration with the same meaning is covered already. -/
theorem repeated (covers : Covers table declared) {key : String} {capability : Config.Capability}
    (known : (key, capability) ∈ declared) : Covers table (declared ++ [(key, capability)]) := by
  refine ⟨covers.ascending, ?_⟩
  intro wanted other
  rw [covers.get?_iff, List.mem_append, List.mem_singleton]
  exact ⟨Or.inl, fun either => either.elim id fun same => same ▸ known⟩

end Covers

theorem Consistent.of_append_left {first second : List (String × Config.Capability)}
    (consistent : Consistent (first ++ second)) : Consistent first :=
  fun key _ _ firstMem secondMem => consistent key _ _
    (List.mem_append_left _ firstMem) (List.mem_append_left _ secondMem)

/-! ## Adding declarations -/

/-- What one more declaration inside a resource can do: it is new, or a repetition, or it conflicts
with a meaning that is there. -/
theorem addInline_cons (owner key : String) (capability : Config.Capability)
    (rest : List (String × Config.Capability)) (table : List (String × Declaration)) :
    (Keyed.get? key table = none ∧ addInline owner table ((key, capability) :: rest) =
      addInline owner (Keyed.insert key ⟨capability, some owner⟩ table) rest) ∨
    (∃ existing, Keyed.get? key table = some existing ∧ existing.capability = capability ∧
      addInline owner table ((key, capability) :: rest) = addInline owner table rest) ∨
    ∃ existing, Keyed.get? key table = some existing ∧ existing.capability ≠ capability ∧
      addInline owner table ((key, capability) :: rest) =
        .error (.developer owner (.capabilityConflict key existing.owner)) := by
  rw [addInline]
  cases found : Keyed.get? key table with
  | none => exact Or.inl ⟨rfl, rfl⟩
  | some existing =>
      by_cases same : existing.capability = capability
      · exact Or.inr (Or.inl ⟨existing, rfl, same, if_pos same⟩)
      · exact Or.inr (Or.inr ⟨existing, rfl, same, if_neg same⟩)

/-- Declarations inside a resource are accepted exactly if they are consistent with those before
them, and are covered then. -/
theorem addInline_spec {table : List (String × Declaration)}
    {before : List (String × Config.Capability)} (covers : Covers table before) (owner : String)
    (inline : List (String × Config.Capability)) :
    (∃ after, addInline owner table inline = .ok after ∧ Covers after (before ++ inline)) ∨
      (∃ error, addInline owner table inline = .error error) ∧ ¬ Consistent (before ++ inline) := by
  induction inline generalizing table before with
  | nil => exact Or.inl ⟨table, rfl, by rwa [List.append_nil]⟩
  | cons entry rest ih =>
      rcases entry with ⟨key, capability⟩
      have split : before ++ (key, capability) :: rest = before ++ [(key, capability)] ++ rest := by
        simp
      rw [split]
      rcases addInline_cons owner key capability rest table with
        ⟨isNew, stepEq⟩ | ⟨existing, found, same, stepEq⟩ | ⟨existing, found, differs, stepEq⟩
      · rw [stepEq]
        exact ih (covers.insert isNew capability (some owner))
      · rw [stepEq]
        refine ih (covers.repeated ?_)
        rw [← covers.get?_iff, meanings, Keyed.get?_mapValues, found, Option.map_some, same]
      · refine Or.inr ⟨⟨_, stepEq⟩, ?_⟩
        intro consistent
        have known : (key, existing.capability) ∈ before := by
          rw [← covers.get?_iff, meanings, Keyed.get?_mapValues, found, Option.map_some]
        exact differs (consistent.of_append_left key _ _ (List.mem_append_left _ known)
          (List.mem_append_right _ (List.mem_singleton.mpr rfl)))

/-- Adding the capabilities of resources covers them, unless they contradict what is there. -/
theorem addInlines_spec {table : List (String × Declaration)}
    {before : List (String × Config.Capability)} (covers : Covers table before)
    (resources : List (String × Config.Resource)) :
    let declared := before ++ resources.flatMap fun entry => entry.2.capabilities.getD []
    (∃ after, addInlines table resources = .ok after ∧ Covers after declared) ∨
      (∃ error, addInlines table resources = .error error) ∧ ¬ Consistent declared := by
  induction resources generalizing table before with
  | nil => exact Or.inl ⟨table, rfl, by simpa using covers⟩
  | cons entry rest ih =>
      rcases entry with ⟨key, resource⟩
      simp only [addInlines, List.flatMap_cons, ← List.append_assoc]
      rcases addInline_spec covers resource.name (resource.capabilities.getD []) with
        ⟨between, addedEq, betweenCovers⟩ | ⟨⟨error, failedEq⟩, inconsistent⟩
      · rw [addedEq, ok_bind]
        exact ih betweenCovers
      · rw [failedEq, error_bind]
        exact Or.inr ⟨⟨error, rfl⟩, fun consistent => inconsistent consistent.of_append_left⟩

/-- The declarations for the whole project, which stand in one map, are covered by their table. -/
theorem covers_sorted {capabilities : List (String × Config.Capability)}
    (distinct : Keyed.Distinct capabilities) :
    Covers (Keyed.sorted (Keyed.mapValues (fun capability => ⟨capability, none⟩) capabilities))
      capabilities := by
  refine ⟨Keyed.ascending_sorted _, ?_⟩
  intro key capability
  rw [meanings, Keyed.get?_mapValues, (distinct.mapValues _).get?_sorted, Keyed.get?_mapValues,
    Option.map_map, ← distinct.get?_eq_some_iff]
  exact iff_of_eq (congrArg (· = some capability) Option.map_id')

/-- The declarations of a configuration are accepted exactly if they are consistent, and are covered
then. -/
theorem declarations_spec {config : Config}
    (distinct : Keyed.Distinct (config.capabilities.getD [])) :
    (∃ table, declarations config = .ok table ∧ Covers table (declaredCapabilities config)) ∨
      (∃ error, declarations config = .error error) ∧
        ¬ Consistent (declaredCapabilities config) :=
  addInlines_spec (covers_sorted distinct) config.resources

/-- Which declarations there are decides whether they are accepted, and with which meanings. -/
theorem meanings_eq_of_mem_iff {first second : Config}
    (firstDistinct : Keyed.Distinct (first.capabilities.getD []))
    (secondDistinct : Keyed.Distinct (second.capabilities.getD []))
    (same : ∀ entry, entry ∈ declaredCapabilities first ↔ entry ∈ declaredCapabilities second)
    {table : List (String × Declaration)} (accepted : declarations first = .ok table) :
    ∃ table', declarations second = .ok table' ∧ meanings table' = meanings table := by
  have firstCovers : Covers table (declaredCapabilities first) := by
    rcases declarations_spec firstDistinct with ⟨_, acceptedEq, covers⟩ | ⟨⟨_, failedEq⟩, _⟩
    · rw [acceptedEq] at accepted
      cases accepted
      exact covers
    · rw [failedEq] at accepted
      cases accepted
  rcases declarations_spec secondDistinct with ⟨table', acceptedEq, covers⟩ | ⟨_, inconsistent⟩
  · refine ⟨table', acceptedEq, ?_⟩
    refine (covers.ascending.mapValues _).ext (firstCovers.ascending.mapValues _) ?_
    intro key
    apply Option.ext
    intro capability
    exact (covers.get?_iff key capability).trans
      ((same _).symm.trans (firstCovers.get?_iff key capability).symm)
  · refine absurd ?_ inconsistent
    intro key first second firstMem secondMem
    exact firstCovers.consistent key first second ((same _).mpr firstMem) ((same _).mpr secondMem)

/-! ## The capability map -/

/-- The capability map depends on the meanings of the declared keys only. -/
theorem ofDeclarations_eq_of_meanings {first second : List (String × Declaration)}
    (same : meanings first = meanings second) (sourcePath : Option String)
    (resources : List Resource) :
    CapabilityMap.ofDeclarations sourcePath resources first =
      CapabilityMap.ofDeclarations sourcePath resources second := by
  have definitionsEq (table : List (String × Declaration)) :
      (table.map fun entry =>
        Definition.ofDeclaration (collectReferences resources) resources entry.1 entry.2) =
      (meanings table).map fun entry =>
        Definition.ofDeclaration (collectReferences resources) resources entry.1
          ⟨entry.2, none⟩ := by
    rw [meanings, Keyed.mapValues, List.map_map]
    rfl
  have keysEq (table : List (String × Declaration)) :
      table.map (·.1) = (meanings table).map (·.1) := (Keyed.map_fst_mapValues _ table).symm
  have containsEq (table : List (String × Declaration)) (key : String) :
      Keyed.contains key table = Keyed.contains key (meanings table) := by
    rw [Keyed.contains, Keyed.contains, meanings, Keyed.get?_mapValues, Option.isSome_map]
  simp only [CapabilityMap.ofDeclarations, definitionsEq, keysEq, containsEq, same]

theorem isEmpty_eq_of_meanings {first second : List (String × Declaration)}
    (same : meanings first = meanings second) : first.isEmpty = second.isEmpty := by
  have lengthEq := congrArg List.length same
  rw [meanings, meanings, Keyed.mapValues, Keyed.mapValues, List.length_map,
    List.length_map] at lengthEq
  rw [Bool.eq_iff_iff, List.isEmpty_iff_length_eq_zero, List.isEmpty_iff_length_eq_zero, lengthEq]

/-! ## Warnings -/

theorem holds_of_mem_warnUnlessEmpty {holds : Warning → Prop} {keys : List String}
    {warning raised : Warning} (given : holds warning)
    (member : raised ∈ warnUnlessEmpty keys warning) : holds raised := by
  rw [warnUnlessEmpty] at member
  split at member
  · cases member
  · rw [List.mem_singleton.mp member]
    exact given

/-- What holds of the four warnings about capabilities holds of all warnings of a map. -/
theorem forall_mem_warnings_of_buildCapabilityMap {holds : Warning → Prop}
    (binding : ∀ definition warning, bindingWarning definition = some warning → holds warning)
    (mapMissing : ∀ missing, holds (mapMissingWarning missing))
    (entriesMissing : ∀ missing references, holds (entriesMissingWarning missing references))
    (entriesUnused : ∀ unused, holds (entriesUnusedWarning unused))
    {loaded : Config.Loaded} {resources : List Resource} {map : CapabilityMap}
    (built : buildCapabilityMap loaded resources = .ok map) :
    ∀ warning ∈ map.warnings, holds warning := by
  rw [buildCapabilityMap, bind_eq_ok_iff] at built
  obtain ⟨declared, -, built⟩ := built
  intro warning member
  split at built
  · cases built
    exact holds_of_mem_warnUnlessEmpty (mapMissing _) member
  · cases built
    rw [CapabilityMap.ofDeclarations, sortWarnings, List.mem_mergeSort, List.mem_append,
      List.mem_append] at member
    rcases member with (raised | missing) | unused
    · obtain ⟨definition, -, raisedBy⟩ := List.mem_filterMap.mp raised
      exact binding definition warning raisedBy
    · exact holds_of_mem_warnUnlessEmpty (entriesMissing _ _) missing
    · exact holds_of_mem_warnUnlessEmpty (entriesUnused _) unused

end RestPlugin.Ir
