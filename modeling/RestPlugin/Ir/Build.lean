import RestPlugin.Ir.Capability
import RestPlugin.Text.Slug

/-!
# Building the representation

The parts of a representation are built one after another into a draft, which is then put into
canonical order and sealed with its hash.
-/

namespace RestPlugin.Ir

/-- A representation whose parts may still be missing. -/
structure Draft where
  info : Option Meta := none
  schemas : Option (List Schema) := none
  resources : Option (List Resource) := none
  capabilityMap : Option CapabilityMap := none
  php : Option PhpProject := none
deriving Inhabited

/-- A part of a draft that has to be there. -/
def Draft.need {α : Type} (slot : Slot) : Option α → Except Error α
  | none => .error (.missingSlot slot)
  | some part => .ok part

/-- Order of schemas by key. -/
def Schema.le (a b : Schema) : Bool := !(b.key < a.key)

/-- Completes a draft: all parts are there, schemas and resources are sorted, and the hash is
taken. -/
def Draft.finalise (draft : Draft) : Except Error Ir := do
  let schemas ← need .schemas draft.schemas
  let resources ← need .resources draft.resources
  let info ← need .info draft.info
  let capabilityMap ← need .capabilityMap draft.capabilityMap
  let php ← need .php draft.php
  .ok (Ir.withHash
    { info
      schemas := schemas.mergeSort Schema.le
      resources := resources.mergeSort Resource.le
      capabilityMap
      php
      hash := "" })

/-- The origin of a project. -/
def buildMeta (loaded : Config.Loaded) : Except Error Meta :=
  match Text.sanitizeNamespace loaded.config.declaredNamespace with
  | none => .error (.unusableNamespace loaded.config.declaredNamespace)
  | some slug =>
      .ok
        { version := loaded.config.effectiveVersion
          declaredNamespace := loaded.config.declaredNamespace
          slug
          sourcePath := displayPath loaded.sourcePath
          origin := loaded.origin }

/-- The directory from which classes are loaded. -/
def autoloadDirectory : String := "inc/"

/-- The directory of generated PHP sources, relative to the plugin. -/
def phpOutputDirectory : String := ".generated/php"

/-- The PHP side of a project. -/
def buildPhpProject (info : Meta) : PhpProject where
  phpNamespace := Text.phpNamespace info.slug
  autoload := autoloadDirectory
  outputDirectory := phpOutputDirectory

/-- Builds the representation of a loaded configuration. -/
def build (loaded : Config.Loaded) : Except Error Ir := do
  let info ← buildMeta loaded
  let declared ← buildSchemas loaded
  let (resources, schemas) ← buildResources loaded info.slug declared
  let capabilityMap ← buildCapabilityMap loaded resources
  Draft.finalise
    { info := some info
      schemas := some schemas.schemas
      resources := some resources
      capabilityMap := some capabilityMap
      php := some (buildPhpProject info) }

end RestPlugin.Ir
