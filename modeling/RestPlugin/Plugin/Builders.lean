import RestPlugin.Pipeline.Core
import RestPlugin.Plugin.Manifest
import RestPlugin.Plugin.Policy

/-!
# Builders of the plugin

The builders queue the base class, the capability checks, a controller for each resource, the table
of classes, the loader, and at last the manifest, which lists all the files before it.
-/

namespace RestPlugin.Plugin

open Controller Pipeline Report

/-- A builder. -/
abbrev Builder : Type := Helper (Ir → Action Output.Queue)

/-- Where the builders come from. -/
def origin : String := "wpkernel-php"

/-- The scope under which builders report. -/
def reportScope : String := "php"

/-- Composes the controllers of all resources. -/
def composeAll (ir : Ir) : Except Failure (List Controller.Composed) :=
  ir.resources.mapM fun resource =>
    (compose ir resource).mapError (.controller resource.name)

/-- Queues the base class. -/
def applyBase (ir : Ir) : Action Output.Queue := fun queue context =>
  match baseSource (restNamespace ir.php) with
  | .error error => (.error (.tree error), context)
  | .ok source =>
      let file := sourceFile ir.php.outputDirectory basePath source
      (.ok (queue.add file),
       context.reportBelow reportScope .debug "Queued base controller"
         (some (.obj [("path", .str file.path)])))

/-- Reports a capability key that takes the fallback. -/
def reportFallback (capability : String) (context : Context) (key : String) : Context :=
  context.reportBelow "php.policy" .debug "Capability falls back to the default policy"
    (some (.obj [("capability", .str key), ("fallback", .str capability)]))

/-- Queues the capability checks. -/
def applyPolicy (ir : Ir) : Action Output.Queue := fun queue context =>
  let map := ir.capabilityMap
  let context := map.missing.foldl (reportFallback map.fallback.capability) context
  match policySource (policyNamespace ir.php) map with
  | .error error => (.error (.tree error), context)
  | .ok source => (.ok (queue.add (sourceFile ir.php.outputDirectory policyPath source)), context)

/-- The file of a controller. -/
def controllerFile (directory : String) (controller : Controller.Composed) : Output.File :=
  sourceFile directory (controllerPath controller.className) controller.file

/-- Queues a controller. -/
def queueController (directory : String) (state : Output.Queue × Context)
    (controller : Controller.Composed) : Output.Queue × Context :=
  let file := controllerFile directory controller
  (state.1.add file,
   state.2.reportBelow reportScope .info ("Generated " ++ controller.className)
     (some (.obj [("resource", .str controller.metadata.name),
       ("routes", .nat controller.metadata.routes.length), ("path", .str file.path)])))

/-- Queues the controllers. -/
def applyControllers (ir : Ir) : Action Output.Queue := fun queue context =>
  match composeAll ir with
  | .error failure => (.error failure, context)
  | .ok controllers =>
      let (queue, context) :=
        controllers.foldl (queueController ir.php.outputDirectory) (queue, context)
      (.ok queue, context)

/-- Queues the table of classes. -/
def applyIndex (ir : Ir) : Action Output.Queue := fun queue context =>
  (.ok (queue.add
    (sourceFile ir.php.outputDirectory indexPath (indexSource (classEntries ir)))), context)

/-- Queues the loader. -/
def applyLoader (ir : Ir) : Action Output.Queue := fun queue context =>
  match loaderSource ir.php.phpNamespace (controllerNames ir) with
  | .error error => (.error (.tree error), context)
  | .ok source => (.ok (queue.add (sourceFile ir.php.outputDirectory loaderPath source)), context)

/-- Queues the manifest. -/
def applyManifest (ir : Ir) : Action Output.Queue := fun queue context =>
  match composeAll ir with
  | .error failure => (.error failure, context)
  | .ok controllers =>
      let files := relativePaths ir.php.outputDirectory queue
      (.ok (queue.add (manifestFile ir (controllers.map (·.metadata)) files)),
       context.reportBelow reportScope .debug "Queued manifest"
         (some (.obj [("irHash", .str ir.hash), ("files", .nat files.length)])))

/-- The base class. -/
def baseBuilder : Builder where
  key := "php.base-controller"
  kind := .builder
  priority := 10
  origin := some origin
  action := applyBase

/-- The capability checks. -/
def policyBuilder : Builder where
  key := "php.policy"
  kind := .builder
  priority := 10
  origin := some origin
  action := applyPolicy

/-- The controllers. -/
def controllersBuilder : Builder where
  key := "php.controllers"
  kind := .builder
  dependsOn := ["php.base-controller", "php.policy"]
  origin := some origin
  action := applyControllers

/-- The table of classes. -/
def indexBuilder : Builder where
  key := "php.index"
  kind := .builder
  dependsOn := ["php.controllers"]
  origin := some origin
  action := applyIndex

/-- The loader. -/
def loaderBuilder : Builder where
  key := "php.plugin-loader"
  kind := .builder
  dependsOn := ["php.index"]
  origin := some origin
  action := applyLoader

/-- The manifest. -/
def manifestBuilder : Builder where
  key := "php.manifest"
  kind := .builder
  dependsOn := ["php.controllers", "php.plugin-loader"]
  priority := -100
  origin := some origin
  terminal := true
  action := applyManifest

/-- All builders, in registration order. -/
def builders : List Builder :=
  [baseBuilder, policyBuilder, controllersBuilder, indexBuilder, loaderBuilder, manifestBuilder]

/-- Registers the builders. -/
def register (pipeline : Pipeline) : Pipeline := builders.foldl addBuilder pipeline

/-- The pipeline that generates a plugin. -/
def pipeline : Pipeline := register Pipeline.core

end RestPlugin.Plugin
