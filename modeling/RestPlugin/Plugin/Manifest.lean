import RestPlugin.Json.Reader
import RestPlugin.Plugin.Source

/-!
# The manifest

A manifest records the hash of the representation that sources were generated from, together with
what the controllers and capabilities are.  It tells later whether the sources are up to date.
-/

namespace RestPlugin.Plugin

open Ir

/-- The JSON form of a warning; an absent context is left out. -/
def warningSummary (warning : Ir.Warning) : Json :=
  .obj ([("code", .str warning.code), ("message", .str warning.message)] ++
    (warning.context.map fun context => ("context", context.sortKeys)).toList)

/-- What a manifest says about capabilities. -/
def capabilitySummary (map : CapabilityMap) : Json :=
  .obj [("kind", .str "capability-helper"), ("sourcePath", .ofOption .str map.sourcePath),
    ("fallback", .obj [("capability", .str map.fallback.capability),
      ("appliesTo", .str map.fallback.appliesTo.text)]),
    ("definitions", .arr (map.definitions.map Definition.toJson)),
    ("missing", .strings map.missing), ("unused", .strings map.unused),
    ("warnings", .arr (map.warnings.map warningSummary))]

/-- The manifest of a project; `files` are the paths of its other files below the output
directory. -/
def manifest (ir : Ir) (controllers : List Controller.Metadata) (files : List String) : Json :=
  .obj [("irHash", .str ir.hash), ("namespace", .str ir.php.phpNamespace),
    ("autoload", .str ir.php.autoload), ("outputDir", .str ir.php.outputDirectory),
    ("controllers", .arr (controllers.map Controller.Metadata.toJson)),
    ("capabilities", capabilitySummary ir.capabilityMap), ("files", .strings files)]

/-- The manifest file of a project. -/
def manifestFile (ir : Ir) (controllers : List Controller.Metadata) (files : List String) :
    Output.File where
  path := Output.below ir.php.outputDirectory manifestPath
  content := (manifest ir controllers files).pretty ++ "\n"

/-- The hash that the text of a manifest records. -/
def manifestHash (text : String) : Option String :=
  match Json.parse text with
  | .error _ => none
  | .ok document =>
      match document.field? "irHash" with
      | some (.str recorded) => some recorded
      | _ => none

/-- The paths of queued files below the output directory, ascending. -/
def relativePaths (directory : String) (files : Output.Queue) : List String :=
  (files.map fun file =>
    Text.replaceChar '\\' "/" (Path.relativeTo directory file.path)).mergeSort fun a b => !(b < a)

end RestPlugin.Plugin
