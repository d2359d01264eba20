import RestPlugin.Pipeline.Run

/-!
# Core fragments

The fragments that together build the whole representation.  Each fills one part of the draft and
reports the warnings that arise; the last one checks the result.
-/

namespace RestPlugin.Pipeline

namespace Core

open Ir Report

/-- A fragment. -/
abbrev Fragment : Type := Helper (Config.Loaded → Action Draft)

/-- Where the core fragments come from. -/
def origin : String := "wpkernel-codegen"

/-- Reports warnings under a scope. -/
def reportWarnings (scope : String) (warnings : List Ir.Warning) (context : Context) : Context :=
  warnings.foldl (fun context warning =>
    context.reportBelow scope .warn warning.message
      (some (.obj [("code", .str warning.code), ("context", .ofOption id warning.context)])))
    context

/-- Reports a warning about the configuration. -/
def reportConfigWarning (context : Context) (warning : Config.Warning) : Context :=
  context.reportBelow "config" .warn warning.message
    (some (.obj [("code", .str warning.code), ("resource", .ofOption .str warning.resource)]))

/-- Fills in the origin of the project. -/
def applyMeta (loaded : Config.Loaded) : Action Draft := fun draft context =>
  let context := loaded.warnings.foldl reportConfigWarning context
  match buildMeta loaded with
  | .error error => (.error (.representation error), context)
  | .ok info => (.ok { draft with info := some info }, context)

/-- Fills in the declared schemas. -/
def applySchemas (loaded : Config.Loaded) : Action Draft := fun draft context =>
  match buildSchemas loaded with
  | .error error => (.error (.representation error), context)
  | .ok table => (.ok { draft with schemas := some table.schemas }, context)

/-- Registers a resource and reports its warnings. -/
def announce (context : Context) (resource : Resource) : Context :=
  reportWarnings ("resource." ++ resource.name) resource.warnings
    (context.registerResource resource.name)

/-- Fills in the resources, and the schemas made up for them. -/
def applyResources (loaded : Config.Loaded) : Action Draft := fun draft context =>
  match draft.info with
  | none => (.error .resourcesWithoutMeta, context)
  | some info =>
      match buildResources loaded info.slug (.ofSchemas (draft.schemas.getD [])) with
      | .error error => (.error (.representation error), context)
      | .ok (resources, table) =>
          (.ok { draft with schemas := some table.schemas, resources := some resources },
           resources.foldl announce context)

/-- Fills in the capability map. -/
def applyCapabilityMap (loaded : Config.Loaded) : Action Draft := fun draft context =>
  match draft.resources with
  | none => (.error .capabilitiesWithoutResources, context)
  | some resources =>
      match buildCapabilityMap loaded resources with
      | .error error => (.error (.representation error), context)
      | .ok map =>
          (.ok { draft with capabilityMap := some map },
           reportWarnings "capability-map" map.warnings context)

/-- Fills in the PHP side of the project. -/
def applyPhp (_loaded : Config.Loaded) : Action Draft := fun draft context =>
  match draft.info with
  | none => (.error .phpWithoutMeta, context)
  | some info => (.ok { draft with php := some (buildPhpProject info) }, context)

/-- Checks that the schema of every resource is there. -/
def applyValidation (_loaded : Config.Loaded) : Action Draft := fun draft context =>
  match draft.schemas, draft.resources with
  | some schemas, some resources =>
      let dangling := resources.find? fun resource =>
        !schemas.any fun schema => schema.key == resource.schemaKey
      match dangling with
      | some resource => (.error (.unknownSchema resource.name resource.schemaKey), context)
      | none => (.ok draft, context)
  | _, _ => (.error .incompleteDraft, context)

/-- The origin of the project. -/
def metaFragment : Fragment where
  key := "ir.meta.core"
  kind := .fragment
  priority := 100
  origin := some origin
  action := applyMeta

/-- The declared schemas. -/
def schemasFragment : Fragment where
  key := "ir.schemas.core"
  kind := .fragment
  dependsOn := ["ir.meta.core"]
  origin := some origin
  action := applySchemas

/-- The resources. -/
def resourcesFragment : Fragment where
  key := "ir.resources.core"
  kind := .fragment
  dependsOn := ["ir.meta.core", "ir.schemas.core"]
  origin := some origin
  action := applyResources

/-- The capability map. -/
def capabilityMapFragment : Fragment where
  key := "ir.capability-map.core"
  kind := .fragment
  dependsOn := ["ir.resources.core"]
  origin := some origin
  action := applyCapabilityMap

/-- The PHP side of the project. -/
def phpFragment : Fragment where
  key := "ir.php.core"
  kind := .fragment
  dependsOn := ["ir.meta.core"]
  origin := some origin
  action := applyPhp

/-- The final check. -/
def validationFragment : Fragment where
  key := "ir.validation.core"
  kind := .fragment
  dependsOn :=
    ["ir.meta.core", "ir.schemas.core", "ir.resources.core", "ir.capability-map.core",
     "ir.php.core"]
  priority := -100
  origin := some origin
  terminal := true
  action := applyValidation

/-- All core fragments, in registration order. -/
def fragments : List Fragment :=
  [metaFragment, schemasFragment, resourcesFragment, capabilityMapFragment, phpFragment,
   validationFragment]

end Core

/-- The pipeline that builds the representation and no files. -/
def core : Pipeline := Core.fragments.foldl addFragment {}

end RestPlugin.Pipeline
