import RestPlugin.Ir.Resource

/-!
# The capability map

Routes refer to capability keys, which are defined for the whole project or inside a resource.  A
key that is referred to and not defined means the fallback capability.
-/

namespace RestPlugin.Ir

/-- The capability of keys that nothing defines. -/
def fallbackCapability : String := "manage_options"

/-- The source path of a map that is only declared inside resources. -/
def inlineSource : String := "inline"

/-- A declared capability with the resource that declared it, if one did. -/
structure Declaration where
  capability : Config.Capability
  owner : Option String
deriving Repr, Inhabited

/-- Capability keys with the names of the resources that refer to them, both ascending. -/
abbrev References : Type := List (String × List String)

/-- Adds a name to an ascending list of names. -/
def insertName (name : String) (names : List String) : List String :=
  (Keyed.insert name () (names.map (·, ()))).map (·.1)

/-- The references of the routes of resources. -/
def collectReferences (resources : List Resource) : References :=
  resources.foldl
    (fun references resource =>
      resource.capabilityKeys.foldl
        (fun references key =>
          Keyed.insert key (insertName resource.name ((Keyed.get? key references).getD []))
            references)
        references)
    []

/-- Adds the capabilities declared inside a resource.  A key may be declared again only with the
same meaning. -/
def addInline (owner : String) :
    List (String × Declaration) → List (String × Config.Capability) →
      Except Error (List (String × Declaration))
  | declared, [] => .ok declared
  | declared, (key, capability) :: rest =>
      match Keyed.get? key declared with
      | none => addInline owner (Keyed.insert key ⟨capability, some owner⟩ declared) rest
      | some existing =>
          if existing.capability = capability then addInline owner declared rest
          else .error (.developer owner (.capabilityConflict key existing.owner))

/-- Adds the capabilities declared inside resources, in the order of the configuration. -/
def addInlines :
    List (String × Declaration) → List (String × Config.Resource) →
      Except Error (List (String × Declaration))
  | declared, [] => .ok declared
  | declared, (_, resource) :: rest => do
      let declared ← addInline resource.name declared (resource.capabilities.getD [])
      addInlines declared rest

/-- The declared capabilities with ascending keys. -/
def declarations (config : Config) : Except Error (List (String × Declaration)) :=
  addInlines
    (Keyed.sorted (Keyed.mapValues (fun capability => ⟨capability, none⟩)
      (config.capabilities.getD [])))
    config.resources

/-- Where the capabilities are declared. -/
def capabilitySourcePath (loaded : Config.Loaded) : Option String :=
  if loaded.config.capabilities.isSome then some (displayPath loaded.sourcePath)
  else if loaded.config.resources.any fun entry => entry.2.capabilities.isSome then
    some inlineSource
  else none

/-- The identity parameter shared by all resources that refer to an object capability. -/
def deriveBinding (key : String) (appliesTo : AppliesTo) (references : References)
    (resources : List Resource) : Option String :=
  if appliesTo != .object then none
  else
    match Keyed.get? key references with
    | none => none
    | some names =>
        let referring := resources.filter fun resource => names.contains resource.name
        match distinct (referring.filterMap fun resource => resource.identity.map (·.param)) with
        | [param] => some param
        | _ => none

/-- The definition of a declared key. -/
def Definition.ofDeclaration (references : References) (resources : List Resource) (key : String)
    (declaration : Declaration) : Definition :=
  let appliesTo := declaration.capability.appliesTo
  { key
    capability := Text.trim declaration.capability.capability
    appliesTo
    binding := (declaration.capability.binding.bind nonBlank).or
      (deriveBinding key appliesTo references resources)
    source := .map }

/-- The definition of a key that is not declared. -/
def Definition.ofFallback (key : String) : Definition :=
  { key, capability := fallbackCapability, appliesTo := .resource, binding := none,
    source := .fallback }

/-- The warning about an object capability without a request parameter. -/
def bindingWarning (definition : Definition) : Option Warning :=
  if definition.appliesTo == .object && definition.binding.isNone then
    some
      { code := "capability-map.binding.missing"
        message := "Capability \"" ++ definition.key ++ "\" targets an object but no request " ++
          "parameter could be inferred. The helper will default to \"id\"."
        context := some (.obj [("capability", .str definition.key)]) }
  else none

/-- The warning about keys that are referred to while nothing is declared. -/
def mapMissingWarning (missing : List String) : Warning :=
  { code := "capability-map.missing"
    message := s!"Capability map not found. Falling back to \"{fallbackCapability}\" for " ++
      "referenced capabilities."
    context := some (.obj [("capabilities", .strings missing)]) }

/-- The warning about keys that are referred to and not declared. -/
def entriesMissingWarning (missing : List String) (references : References) : Warning :=
  let referencedBy := missing.map fun key =>
    (key, Json.strings ((Keyed.get? key references).getD []))
  { code := "capability-map.entries.missing"
    message := "Capabilities referenced by routes are missing from the capability map."
    context := some (.obj [("capabilities", .strings missing),
      ("referencedBy", .obj referencedBy)]) }

/-- The warning about keys that are declared and not referred to. -/
def entriesUnusedWarning (unused : List String) : Warning :=
  { code := "capability-map.entries.unused"
    message := "Capability map defines capabilities that are not referenced by any route."
    context := some (.obj [("capabilities", .strings unused)]) }

/-- The warning for a list of keys, unless it is empty. -/
def warnUnlessEmpty (keys : List String) (warning : Warning) : List Warning :=
  if keys.isEmpty then [] else [warning]

/-- Order of definitions by key. -/
def Definition.le (a b : Definition) : Bool := !(b.key < a.key)

/-- The fallback of every map. -/
def Fallback.standard : Fallback := ⟨fallbackCapability, .resource⟩

/-- The map of a project in which nothing is declared. -/
def CapabilityMap.undeclared (missing : List String) : CapabilityMap where
  sourcePath := none
  fallback := .standard
  definitions := missing.map .ofFallback
  missing := missing
  unused := []
  warnings := warnUnlessEmpty missing (mapMissingWarning missing)

/-- The map of declared capabilities. -/
def CapabilityMap.ofDeclarations (sourcePath : Option String) (resources : List Resource)
    (declared : List (String × Declaration)) : CapabilityMap :=
  let references := collectReferences resources
  let definitions := declared.map fun entry =>
    Definition.ofDeclaration references resources entry.1 entry.2
  let missing := (references.map (·.1)).filter fun key => !Keyed.contains key declared
  let unused := (declared.map (·.1)).filter fun key => !Keyed.contains key references
  { sourcePath
    fallback := .standard
    definitions := (definitions ++ missing.map Definition.ofFallback).mergeSort Definition.le
    missing
    unused
    warnings := sortWarnings
      (definitions.filterMap bindingWarning ++
        warnUnlessEmpty missing (entriesMissingWarning missing references) ++
        warnUnlessEmpty unused (entriesUnusedWarning unused)) }

/-- Matches the declared capabilities with the routes of the resources. -/
def buildCapabilityMap (loaded : Config.Loaded) (resources : List Resource) :
    Except Error CapabilityMap := do
  let declared ← declarations loaded.config
  if declared.isEmpty then .ok (.undeclared ((collectReferences resources).map (·.1)))
  else .ok (.ofDeclarations (capabilitySourcePath loaded) resources declared)

end RestPlugin.Ir
