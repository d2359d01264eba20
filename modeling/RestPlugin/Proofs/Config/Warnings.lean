import Mathlib.Data.String.Basic
import RestPlugin.Proofs.Config.Checked

/-!
# Warnings about routes

An accepted configuration comes with one warning for each route that writes and declares no
capability.  A capability that is declared is not looked at.
-/

namespace RestPlugin.Config

/-- The warning about a route of a resource. -/
def missingCapability (name : String) (route : Route) : Warning where
  code := "route.capability.missing"
  message := s!"Write route " ++ route.method.text ++
    s!" {Text.trim route.path} of resource '{name}' has no capability."
  resource := some name

/-- A route writes, by its operation or by its method. -/
def Writes (operation : Operation) (route : Route) : Prop :=
  operation.isWrite = true ∨ route.method.isWrite = true

/-- A route is warned about exactly if it writes and has no capability. -/
theorem mem_capabilityWarning_iff {name : String} {operation : Operation} {route : Route}
    {warning : Warning} :
    warning ∈ capabilityWarning name operation route ↔
      Writes operation route ∧ route.capability = none ∧
        warning = missingCapability name route := by
  rw [capabilityWarning, Writes]
  split
  · rename_i unguarded
    rw [Bool.and_eq_true, Bool.or_eq_true, Option.isNone_iff_eq_none] at unguarded
    rw [List.mem_singleton, and_iff_right unguarded.1, and_iff_right unguarded.2]
    rfl
  · rename_i guarded
    rw [Bool.and_eq_true, Bool.or_eq_true, Option.isNone_iff_eq_none] at guarded
    exact iff_of_false List.not_mem_nil fun unguarded => guarded ⟨unguarded.1, unguarded.2.1⟩

/-! ## All warnings -/

/-- The warnings of routes are those of each route. -/
theorem mem_checkRoutes_iff {key name : String} {seen : List (Method × String)}
    {routes : List (Operation × Route)} {warnings : List Warning}
    (accepted : checkRoutes key name seen routes = .ok warnings) {warning : Warning} :
    warning ∈ warnings ↔ ∃ entry ∈ routes, warning ∈ capabilityWarning name entry.1 entry.2 := by
  induction routes generalizing seen warnings with
  | nil =>
      cases accepted
      simp
  | cons entry rest ih =>
      rcases entry with ⟨operation, route⟩
      simp only [checkRoutes, bind_eq_ok_iff] at accepted
      obtain ⟨-, -, -, -, others, othersEq, accepted⟩ := accepted
      cases accepted
      rw [List.mem_append, ih othersEq, List.exists_mem_cons_iff]

/-- The warnings of a resource are those of its routes, with its name trimmed. -/
theorem mem_checkResource_iff {config : Config} {key : String} {resource : Resource}
    {warnings : List Warning} (accepted : checkResource config key resource = .ok warnings)
    {warning : Warning} :
    warning ∈ warnings ↔ ∃ entry ∈ resource.routes.toList,
      warning ∈ capabilityWarning (Text.trim resource.name) entry.1 entry.2 := by
  simp only [checkResource, bind_eq_ok_iff] at accepted
  obtain ⟨-, -, -, -, found, foundEq, -, -, -, -, -, -, -, -, -, -, accepted⟩ := accepted
  cases accepted
  exact mem_checkRoutes_iff foundEq

/-- The warnings of resources are those of their routes. -/
theorem mem_checkResources_iff {config : Config} {names : List String}
    {resources : List (String × Resource)} {warnings : List Warning}
    (accepted : checkResources config names resources = .ok warnings) {warning : Warning} :
    warning ∈ warnings ↔ ∃ resource ∈ resources, ∃ entry ∈ resource.2.routes.toList,
      warning ∈ capabilityWarning (Text.trim resource.2.name) entry.1 entry.2 := by
  induction resources generalizing names warnings with
  | nil =>
      cases accepted
      simp
  | cons entry rest ih =>
      rcases entry with ⟨key, resource⟩
      simp only [checkResources, bind_eq_ok_iff] at accepted
      obtain ⟨first, firstEq, -, -, others, othersEq, accepted⟩ := accepted
      cases accepted
      rw [List.mem_append, mem_checkResource_iff firstEq, ih othersEq, List.exists_mem_cons_iff]

/-- A version is warned about only because it is missing. -/
theorem code_of_checkVersion {version : Option Nat} {warnings : List Warning}
    (accepted : checkVersion version = .ok warnings) :
    ∀ warning ∈ warnings, warning.code = "config.version.missing" := by
  cases version with
  | none =>
      cases accepted
      simp
  | some version =>
      rw [checkVersion] at accepted
      split at accepted <;> cases accepted
      simp

theorem code_of_checkNamespace {declared : String} {warnings : List Warning}
    (accepted : checkNamespace declared = .ok warnings) :
    ∀ warning ∈ warnings, warning.code = "namespace.sanitized" := by
  rw [checkNamespace] at accepted
  split at accepted
  · cases accepted
  · split at accepted <;> cases accepted <;> simp

/-- The warnings about missing capabilities are those about the declared routes. -/
theorem mem_check_iff {config : Config} {warnings : List Warning}
    (accepted : check config = .ok warnings) {warning : Warning}
    (isMissing : warning.code = "route.capability.missing") :
    warning ∈ warnings ↔ ∃ resource ∈ config.resources, ∃ entry ∈ resource.2.routes.toList,
      Writes entry.1 entry.2 ∧ entry.2.capability = none ∧
        warning = missingCapability (Text.trim resource.2.name) entry.2 := by
  simp only [check, bind_eq_ok_iff] at accepted
  obtain ⟨version, versionEq, space, spaceEq, routes, routesEq, -, -, accepted⟩ := accepted
  cases accepted
  have notVersion : warning ∉ version := by
    intro member
    have code := code_of_checkVersion versionEq warning member
    rw [isMissing] at code
    exact absurd code (by decide)
  have notSpace : warning ∉ space := by
    intro member
    have code := code_of_checkNamespace spaceEq warning member
    rw [isMissing] at code
    exact absurd code (by decide)
  rw [List.mem_append, List.mem_append, or_iff_right (not_or.mpr ⟨notVersion, notSpace⟩),
    mem_checkResources_iff routesEq]
  simp only [mem_capabilityWarning_iff]

/-! ## Telling warnings apart -/

theorem text_append_space_inj {first second : Method} {path path' : String}
    (same : first.text ++ (" " ++ path) = second.text ++ (" " ++ path')) :
    first = second ∧ path = path' := by
  have chars := congrArg String.toList same
  simp only [String.toList_append] at chars
  have equal : first = second := by
    cases first <;> cases second <;> first | rfl | simp [Method.text] at chars
  subst equal
  exact ⟨rfl, (String.append_right_inj _).mp ((String.append_right_inj _).mp same)⟩

theorem message_missingCapability (name : String) (route : Route) :
    (missingCapability name route).message =
      "Write route " ++ ((route.method.text ++ (" " ++ Text.trim route.path)) ++
        (" of resource '" ++ name ++ "' has no capability.")) := by
  simp only [missingCapability, toString, String.append_assoc]

/-- A warning names the resource, the method and the path of its route. -/
theorem missingCapability_inj {name name' : String} {route route' : Route}
    (same : missingCapability name route = missingCapability name' route') :
    name = name' ∧ route.method = route'.method ∧ Text.trim route.path = Text.trim route'.path := by
  obtain rfl : name = name' := Option.some.inj (congrArg Warning.resource same)
  have message := congrArg Warning.message same
  rw [message_missingCapability, message_missingCapability, String.append_right_inj,
    String.append_left_inj] at message
  exact ⟨rfl, text_append_space_inj message⟩

end RestPlugin.Config
