import RestPlugin.Proofs.Controller.Checks
import RestPlugin.Proofs.Ir.Definitions
import RestPlugin.Proofs.Plugin.Controllers

/-!
# Enforced capabilities

The table of the policy class has one item for each definition of the capability map.  A controller
only checks the capabilities of its routes, which the map defines, so every checked key is in the
table.
-/

namespace RestPlugin

namespace Php

/-- The text under which an item stands in an array. -/
def ArrayItem.keyText? : ArrayItem → Option String
  | .mk (some (.string key)) _ => some key
  | .mk _ _ => none

end Php

namespace Plugin

open Controller Ir Php Pipeline

/-! ## The table of capabilities -/

/-- The item of a definition in the table of capabilities. -/
def tableItem (definition : Definition) : ArrayItem :=
  .keyed definition.key (.record
    [("capability", .string definition.capability),
     ("appliesTo", .string definition.appliesTo.text),
     ("binding", (definition.binding.map Expr.string).getD .null)])

theorem capabilityTable_eq (definitions : List Definition) :
    capabilityTable definitions = .array (definitions.map tableItem) := by
  rw [capabilityTable, Expr.record, List.map_map]
  rfl

/-- A definition has one item in the table if no other definition has its key. -/
theorem filter_tableItem {definitions : List Definition}
    (ascending : definitions.Pairwise fun first second => first.key < second.key)
    {definition : Definition} (member : definition ∈ definitions) :
    ((definitions.map tableItem).filter fun item => item.keyText? == some definition.key) =
      [tableItem definition] := by
  induction definitions with
  | nil => cases member
  | cons first rest ih =>
      obtain ⟨smaller, ascending⟩ := List.pairwise_cons.mp ascending
      rw [List.map_cons]
      rcases List.mem_cons.mp member with rfl | later
      · have others : (rest.map tableItem).filter (fun item =>
            item.keyText? == some definition.key) = [] := by
          rw [List.filter_eq_nil_iff, List.forall_mem_map]
          intro other otherMem
          have larger := smaller other otherMem
          simpa [tableItem, ArrayItem.keyed, ArrayItem.keyText?] using ne_of_gt larger
        rw [List.filter_cons_of_pos (by simp [tableItem, ArrayItem.keyed, ArrayItem.keyText?]),
          others]
      · have differs := ne_of_lt (smaller definition later)
        rw [List.filter_cons_of_neg
          (by simpa [tableItem, ArrayItem.keyed, ArrayItem.keyText?] using differs)]
        exact ih ascending later

/-- The policy file consists of its class. -/
theorem stmts_policySource {space : String} {map : CapabilityMap} {policy : Php.File}
    (made : policySource space map = .ok policy) :
    policy.stmts = [.classDecl (policyClass map)] := by
  obtain ⟨name, -, made⟩ := bind_eq_ok_iff.mp made
  cases made
  rfl

/-! ## Controllers -/

theorem exists_resource_of_composeAll {ir : Ir} {controllers : List Composed}
    (composed : composeAll ir = .ok controllers) {controller : Composed}
    (member : controller ∈ controllers) :
    ∃ resource ∈ ir.resources, compose ir resource = .ok controller := by
  obtain ⟨resource, resourceMem, done⟩ := exists_mem_of_mapM_eq_ok composed controller member
  exact ⟨resource, resourceMem, mapError_eq_ok_iff.mp done⟩

/-- The table of capabilities of a policy class. -/
def IsTable (policy : Php.File) (items : List ArrayItem) : Prop :=
  ∃ decl : Php.Class, policy.stmts = [.classDecl decl] ∧ decl.name = "Policy" ∧
    (decl.consts.filter fun constant => constant.name == "CAPABILITIES").map (·.value) =
      [.array items]

theorem isTable_policySource {space : String} {map : CapabilityMap} {policy : Php.File}
    (made : policySource space map = .ok policy) :
    IsTable policy (map.definitions.map tableItem) := by
  refine ⟨policyClass map, stmts_policySource made, rfl, ?_⟩
  rw [← capabilityTable_eq]
  rfl

/-- Every key that a controller checks has a definition, if the map defines the
keys of its routes. -/
theorem exists_definition_of_checks {ir : Ir} (sources : Sources ir)
    (defined : ∀ key, Referenced ir.resources key →
      ∃ definition ∈ ir.capabilityMap.definitions, definition.key = key) :
    ∀ controller ∈ sources.controllers, controller.file.Everywhere fun node =>
      ∀ args, node = .staticCall ⟨["Policy"]⟩ "enforce" args →
        ∃ definition ∈ ir.capabilityMap.definitions,
          args = [.string definition.key, Snippet.request] := by
  intro controller member
  obtain ⟨resource, resourceMem, composed⟩ :=
    exists_resource_of_composeAll sources.controllers_eq member
  refine fun stmt stmtMem => (everywhere_checks_of_compose composed stmt stmtMem).mono ?_
  rintro node checked args rfl
  obtain ⟨-, -, route, routeMem, key, asked, argsEq⟩ := checked _ _ _ rfl
  obtain ⟨definition, definitionMem, rfl⟩ :=
    defined key ⟨resource, resourceMem, route, routeMem, asked⟩
  exact ⟨definition, definitionMem, argsEq⟩

/-- A capability map is refused exactly for a key with two meanings, and otherwise defines exactly
the keys that are declared or referred to.  So every key that a generated controller checks stands
once in the table of the generated policy class, with its definition. -/
theorem enforced_capabilities_defined {loaded : Config.Loaded}
    (distinct : Keyed.Distinct (loaded.config.capabilities.getD [])) :
    (∀ resources, (∃ error, buildCapabilityMap loaded resources = .error error) ↔
      ∃ key first second, (key, first) ∈ declaredCapabilities loaded.config ∧
        (key, second) ∈ declaredCapabilities loaded.config ∧ first ≠ second) ∧
    (∀ resources map, buildCapabilityMap loaded resources = .ok map →
      map.Describes loaded.config resources) ∧
    ∀ ir, Ir.build loaded = .ok ir →
      (∃ slug declared resources table,
        buildResources loaded slug declared = .ok (resources, table) ∧
        buildCapabilityMap loaded resources = .ok ir.capabilityMap ∧
        ir.resources.Perm resources) ∧
      ∀ sources : Sources ir, ∃ items, IsTable sources.policy items ∧
        ∀ controller ∈ sources.controllers, controller.file.Everywhere fun node =>
          ∀ args, node = .staticCall ⟨["Policy"]⟩ "enforce" args →
            ∃ definition ∈ ir.capabilityMap.definitions,
              args = [.string definition.key, .var "request"] ∧
              (items.filter fun item => item.keyText? == some definition.key) =
                [.keyed definition.key (.record
                  [("capability", .string definition.capability),
                   ("appliesTo", .string definition.appliesTo.text),
                   ("binding", (definition.binding.map Expr.string).getD .null)])] := by
  refine ⟨fun resources => ?_, fun resources map built =>
    describes_of_buildCapabilityMap distinct built, fun ir built => ?_⟩
  · rw [buildCapabilityMap_isError_iff, declarations_isError_iff distinct, not_consistent_iff]
  · obtain ⟨parts, rfl⟩ := Core.exists_parts_of_build built
    have describes := describes_of_buildCapabilityMap distinct parts.capabilityMap_eq
    have perm : parts.ir.resources.Perm parts.resources := List.mergeSort_perm _ _
    refine ⟨⟨_, _, _, _, parts.resources_eq, parts.capabilityMap_eq, perm⟩, fun sources => ?_⟩
    refine ⟨_, isTable_policySource sources.policy_eq, fun controller member stmt stmtMem => ?_⟩
    have checks := exists_definition_of_checks sources (fun key referenced =>
      (describes.keys key).mpr (.inr (referenced_of_perm perm referenced))) controller member
    refine (checks stmt stmtMem).mono fun node checked args argsEq => ?_
    obtain ⟨definition, definitionMem, argsEq⟩ := checked args argsEq
    exact ⟨definition, definitionMem, argsEq,
      filter_tableItem describes.ascending definitionMem⟩

/-! ## A profile -/

/-- A profile.  Editing it asks for a capability under a key, and there is a capability of an object
to edit it. -/
def profile (key : String) : List (String × Config.Resource) :=
  [("profile",
    { name := "profile"
      routes := { update := some ⟨"/acme/v1/profile", .put, some key⟩ }
      identity := none
      storage := none
      schema := some .auto
      cacheKeys := none
      queryParams := none
      capabilities := some [("profile.edit", .detailed "edit_profile" .object none)] })]

theorem normalisePath_profile : normalisePath "/acme/v1/profile" = .ok "/acme/v1/profile" :=
  eq_ok_of_toOption (by decide)

theorem check_profile : Config.check (acme (profile "profile.edit")).config = .ok [] :=
  eq_ok_of_toOption (by decide)

/-- The example comes to sources. -/
theorem exists_sources_profile :
    ∃ parts : Core.Parts (acme (profile "profile.edit")), Nonempty (Sources parts.ir) :=
  exists_sources_acme (Config.checked_of_check check_profile) (List.pairwise_singleton _ _)
    (exists_eq_ok (by decide)) (exists_eq_ok (by decide)) (by decide)

theorem enforced_capabilities_defined_profile :
    ∃ (ir : Ir) (sources : Sources ir) (items : List ArrayItem),
      Ir.build (acme (profile "profile.edit")) = .ok ir ∧ IsTable sources.policy items ∧
      ∀ controller ∈ sources.controllers, controller.file.Everywhere fun node =>
        ∀ args, node = .staticCall ⟨["Policy"]⟩ "enforce" args →
          ∃ definition ∈ ir.capabilityMap.definitions,
            args = [.string definition.key, .var "request"] := by
  obtain ⟨parts, ⟨sources⟩⟩ := exists_sources_profile
  have distinct : Keyed.Distinct ((acme (profile "profile.edit")).config.capabilities.getD []) :=
    List.Pairwise.nil
  obtain ⟨-, -, built⟩ := enforced_capabilities_defined distinct
  obtain ⟨-, checks⟩ := built parts.ir parts.build_eq
  obtain ⟨items, isTable, each⟩ := checks sources
  refine ⟨parts.ir, sources, items, parts.build_eq, isTable,
    fun controller member stmt inFile => ?_⟩
  refine (each controller member stmt inFile).mono fun node checked args argsEq => ?_
  obtain ⟨definition, definitionMem, argsEq, -⟩ := checked args argsEq
  exact ⟨definition, definitionMem, argsEq⟩

end Plugin

end RestPlugin
