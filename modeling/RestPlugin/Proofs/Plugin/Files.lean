import RestPlugin.Plugin.Builders
import RestPlugin.Proofs.Output.Write
import RestPlugin.Proofs.Pipeline.Core
import RestPlugin.Proofs.Pipeline.Run
import RestPlugin.Proofs.Plugin.Manifest

/-!
# The files of a plugin

A run of the plugin's pipeline first builds the representation and then queues one file for each
source and the manifest at last.  All of them always replace what is there, lie below the directory
of generated sources, and have different paths; the manifest is one of them and records the hash of
the representation.
-/

namespace RestPlugin.Plugin

open Controller Ir Output Pipeline

/-! ## What the builders queue -/

/-- The sources that a representation comes to. -/
structure Sources (ir : Ir) where
  base : Php.File
  policy : Php.File
  controllers : List Composed
  loader : Php.File
  base_eq : baseSource (restNamespace ir.php) = .ok base
  policy_eq : policySource (policyNamespace ir.php) ir.capabilityMap = .ok policy
  controllers_eq : composeAll ir = .ok controllers
  loader_eq : loaderSource ir.php.phpNamespace (controllerNames ir) = .ok loader

namespace Sources

variable {ir : Ir}

/-- The queue before the manifest. -/
def queued (sources : Sources ir) : Queue :=
  let directory := ir.php.outputDirectory
  ((((Queue.add (sourceFile directory basePath sources.base) []).add
    (sourceFile directory policyPath sources.policy)).addAll
    (sources.controllers.map (controllerFile directory))).add
    (sourceFile directory indexPath (indexSource (classEntries ir)))).add
    (sourceFile directory loaderPath sources.loader)

/-- The manifest of the sources. -/
def manifest (sources : Sources ir) : Output.File :=
  manifestFile ir (sources.controllers.map (·.metadata))
    (relativePaths ir.php.outputDirectory sources.queued)

/-- All files, the manifest last. -/
def files (sources : Sources ir) : Queue := sources.queued.add sources.manifest

end Sources

/-- The controllers are queued one after another. -/
theorem foldl_queueController (directory : String) (controllers : List Composed) (queue : Queue)
    (context : Context) :
    (controllers.foldl (queueController directory) (queue, context)).1 =
      queue.addAll (controllers.map (controllerFile directory)) := by
  induction controllers generalizing queue context with
  | nil => rfl
  | cons controller controllers ih =>
      rw [List.foldl_cons, queueController]
      exact ih _ _

/-- Helpers that succeed one after another, in whatever context. -/
theorem applyAll_cons_ok {ι ω : Type} {stage : Stage} {input : ι} {helper : Helper (ι → Action ω)}
    {rest : List (Helper (ι → Action ω))} {output next final : ω}
    (first : ∀ context, ∃ after, helper.action input output context = (.ok next, after))
    (later : ∀ context, ∃ after, applyAll stage input rest next context = (.ok final, after))
    (context : Context) :
    ∃ after, applyAll stage input (helper :: rest) output context = (.ok final, after) := by
  obtain ⟨between, firstEq⟩ := first (context.start helper.kind helper.key)
  obtain ⟨after, laterEq⟩ := later (between.completed helper.kind helper.key)
  refine ⟨after, ?_⟩
  rw [applyAll, firstEq]
  exact laterEq

/-- The first of helpers that succeed, and those after it. -/
theorem applyAll_cons_eq_ok {ι ω : Type} {stage : Stage} {input : ι}
    {helper : Helper (ι → Action ω)} {rest : List (Helper (ι → Action ω))} {output final : ω}
    {context after : Context}
    (done : applyAll stage input (helper :: rest) output context = (.ok final, after)) :
    ∃ before next between later, helper.action input output before = (.ok next, between) ∧
      applyAll stage input rest next later = (.ok final, after) := by
  rw [applyAll] at done
  split at done
  · cases done
  · rename_i next between applied
    exact ⟨_, next, between, _, applied, done⟩

namespace Sources

variable {ir : Ir} (sources : Sources ir) (queue : Queue) (context : Context)

theorem applyBase_eq : ∃ after, applyBase ir queue context =
    (.ok (queue.add (sourceFile ir.php.outputDirectory basePath sources.base)), after) := by
  rw [applyBase, sources.base_eq]
  exact ⟨_, rfl⟩

theorem applyPolicy_eq : ∃ after, applyPolicy ir queue context =
    (.ok (queue.add (sourceFile ir.php.outputDirectory policyPath sources.policy)), after) := by
  rw [applyPolicy, sources.policy_eq]
  exact ⟨_, rfl⟩

theorem applyControllers_eq : ∃ after, applyControllers ir queue context =
    (.ok (queue.addAll (sources.controllers.map (controllerFile ir.php.outputDirectory))),
      after) := by
  rw [applyControllers, sources.controllers_eq, ← foldl_queueController _ _ _ context]
  exact ⟨_, rfl⟩

theorem applyLoader_eq : ∃ after, applyLoader ir queue context =
    (.ok (queue.add (sourceFile ir.php.outputDirectory loaderPath sources.loader)), after) := by
  rw [applyLoader, sources.loader_eq]
  exact ⟨_, rfl⟩

theorem applyManifest_eq : ∃ after, applyManifest ir queue context =
    (.ok (queue.add (manifestFile ir (sources.controllers.map (·.metadata))
      (relativePaths ir.php.outputDirectory queue))), after) := by
  rw [applyManifest, sources.controllers_eq]
  exact ⟨_, rfl⟩

/-- The builders queue the files of the sources. -/
theorem applyAll_builders :
    ∃ after, applyAll .builder ir builders [] context = (.ok sources.files, after) := by
  apply applyAll_cons_ok (sources.applyBase_eq _)
  apply applyAll_cons_ok (sources.applyPolicy_eq _)
  apply applyAll_cons_ok (sources.applyControllers_eq _)
  apply applyAll_cons_ok (fun context => ⟨context, rfl⟩)
  apply applyAll_cons_ok (sources.applyLoader_eq _)
  apply applyAll_cons_ok (sources.applyManifest_eq _)
  exact fun context => ⟨context, rfl⟩

/-- Whatever the builders come to, it is the files of sources. -/
theorem exists_of_applyAll_builders {files : Queue} {after : Context}
    (done : applyAll .builder ir builders [] context = (.ok files, after)) :
    ∃ sources : Sources ir, files = sources.files := by
  have applied := done
  obtain ⟨_, _, _, _, baseDone, applied⟩ := applyAll_cons_eq_ok applied
  obtain ⟨_, _, _, _, policyDone, applied⟩ := applyAll_cons_eq_ok applied
  obtain ⟨_, _, _, _, controllersDone, applied⟩ := applyAll_cons_eq_ok applied
  obtain ⟨_, _, _, _, -, applied⟩ := applyAll_cons_eq_ok applied
  obtain ⟨_, _, _, _, loaderDone, -⟩ := applyAll_cons_eq_ok applied
  cases base_eq : baseSource (restNamespace ir.php) with
  | error error => simp [baseBuilder, applyBase, base_eq] at baseDone
  | ok base =>
    cases policy_eq : policySource (policyNamespace ir.php) ir.capabilityMap with
    | error error => simp [policyBuilder, applyPolicy, policy_eq] at policyDone
    | ok policy =>
      cases controllers_eq : composeAll ir with
      | error failure =>
        simp [controllersBuilder, applyControllers, controllers_eq] at controllersDone
      | ok controllers =>
        cases loader_eq : loaderSource ir.php.phpNamespace (controllerNames ir) with
        | error error => simp [loaderBuilder, applyLoader, loader_eq] at loaderDone
        | ok loader =>
          let sources : Sources ir :=
            ⟨base, policy, controllers, loader, base_eq, policy_eq, controllers_eq, loader_eq⟩
          obtain ⟨_, queued⟩ := sources.applyAll_builders context
          rw [queued] at done
          cases done
          exact ⟨sources, rfl⟩

end Sources

/-! ## Runs of the pipeline -/

/-- The fragments of the pipeline are those of the core. -/
theorem fragmentSchedule_order : pipeline.fragmentSchedule.order = Core.fragments := rfl

/-- The builders run in the order in which they are registered. -/
theorem builderSchedule_order : pipeline.builderSchedule.order = builders := rfl

/-- A run that succeeds comes to the parts of a representation and to the files of its sources. -/
theorem exists_sources_of_run {loaded : Config.Loaded} {requested : List String}
    {context after : Context} {result : Result}
    (success : pipeline.run loaded requested context = (.ok result, after)) :
    ∃ (parts : Core.Parts loaded) (sources : Sources parts.ir),
      result.ir = parts.ir ∧ result.files = sources.files := by
  obtain ⟨draft, between, last, fragmentsDone, finalised, buildersDone, -⟩ := run_eq_ok success
  rw [fragmentSchedule_order] at fragmentsDone
  obtain ⟨parts, rfl⟩ := Core.exists_parts_of_applyAll_fragments fragmentsDone
  have irEq : result.ir = parts.ir :=
    (Except.ok.inj (parts.finalise_draft.symm.trans finalised)).symm
  rw [irEq, builderSchedule_order] at buildersDone
  obtain ⟨sources, filesEq⟩ := Sources.exists_of_applyAll_builders _ buildersDone
  exact ⟨parts, sources, irEq, filesEq⟩

/-- If the parts and the sources can be built, the run succeeds with their files. -/
theorem run_of_sources {loaded : Config.Loaded} (parts : Core.Parts loaded)
    (sources : Sources parts.ir) (requested : List String) (context : Context) :
    ∃ result after, pipeline.run loaded requested context = (.ok result, after) ∧
      result.ir = parts.ir ∧ result.files = sources.files := by
  obtain ⟨between, fragmentsDone⟩ :=
    Core.applyAll_fragments_of_parts parts (context.setPhase (some .fragment))
  obtain ⟨last, buildersDone⟩ := sources.applyAll_builders (between.setPhase (some .builder))
  rw [run]
  simp only [fragmentSchedule_order, fragmentsDone, parts.finalise_draft, builderSchedule_order,
    buildersDone]
  exact ⟨_, _, rfl, rfl, rfl⟩

/-! ## The files of a run -/

/-- A plain file at a relative path below a directory. -/
def Placed (directory : String) (file : Output.File) : Prop :=
  file.Plain ∧ ∃ path, Path.isAbsolute path = false ∧ file.path = below directory path

/-- A source file stands at its path below the directory. -/
theorem path_sourceFile (directory path : String) (content : Php.File) :
    (sourceFile directory path content).path = below directory path := by
  rw [sourceFile]

theorem placed_sourceFile (directory : String) {path : String} (content : Php.File)
    (relative : Path.isAbsolute path = false) :
    Placed directory (sourceFile directory path content) :=
  ⟨⟨rfl, rfl⟩, path, relative, path_sourceFile directory path content⟩

theorem print_ne_empty (file : Php.File) : file.print ≠ "" := by
  have opening : ∃ rest, file.fragments = .line "<?php" :: rest := ⟨_, rfl⟩
  obtain ⟨rest, fragmentsEq⟩ := opening
  rw [Php.File.print, Php.print, Code.render, fragmentsEq, Code.linesOf, Code.Fragment.lines,
    Code.indented, List.singleton_append, Code.unlines, List.map_cons, String.join_cons]
  simp

theorem isAbsolute_controllerPath (name : String) :
    Path.isAbsolute (controllerPath name) = false := by
  rw [controllerPath, String.append_assoc, Path.isAbsolute_append (by decide)]
  decide

namespace Sources

variable {ir : Ir} (sources : Sources ir)

theorem files_distinct : sources.files.Distinct := by
  have start : Queue.Distinct [] := List.Pairwise.nil
  exact (((((start.add _).add _).addAll _).add _).add _).add _

/-- The base class comes first. -/
theorem files_startsAt :
    Queue.StartsAt (below ir.php.outputDirectory basePath) sources.files := by
  have start := Queue.startsAt_singleton (sourceFile ir.php.outputDirectory basePath sources.base)
  rw [path_sourceFile] at start
  exact ((((start.add _).addAll _).add _).add _).add _

/-- What holds of source files at relative paths holds of all files before the manifest. -/
theorem forall_mem_queued {holds : Output.File → Prop}
    (each : ∀ path content, Path.isAbsolute path = false →
      holds (sourceFile ir.php.outputDirectory path content)) :
    ∀ file ∈ sources.queued, holds file := by
  intro file member
  rw [queued] at member
  rcases Queue.eq_or_mem_of_mem_add member with rfl | member
  · exact each _ _ (by decide)
  rcases Queue.eq_or_mem_of_mem_add member with rfl | member
  · exact each _ _ (by decide)
  rcases Queue.mem_or_mem_of_mem_addAll member with member | member
  · rcases Queue.eq_or_mem_of_mem_add member with rfl | member
    · exact each _ _ (by decide)
    rcases Queue.eq_or_mem_of_mem_add member with rfl | member
    · exact each _ _ (by decide)
    · cases member
  · obtain ⟨controller, -, rfl⟩ := List.mem_map.mp member
    exact each _ _ (isAbsolute_controllerPath controller.className)

/-- The manifest stands at its path below the output directory. -/
theorem path_manifest : sources.manifest.path = below ir.php.outputDirectory manifestPath := by
  rw [manifest, manifestFile]

theorem placed_of_mem_files {file : Output.File} (member : file ∈ sources.files) :
    Placed ir.php.outputDirectory file := by
  rcases Queue.eq_or_mem_of_mem_add member with rfl | member
  · exact ⟨⟨rfl, rfl⟩, manifestPath, by decide, sources.path_manifest⟩
  · apply sources.forall_mem_queued _ file member
    exact fun path content relative => placed_sourceFile _ content relative

theorem content_ne_empty_of_mem_queued {file : Output.File} (member : file ∈ sources.queued) :
    file.content ≠ "" := by
  apply sources.forall_mem_queued _ file member
  exact fun _ content _ => print_ne_empty content

end Sources

/-! ## Below the output directory -/

/-- A path below the output directory is joined to it. -/
theorem below_phpOutputDirectory (path : String) :
    below phpOutputDirectory path = Path.join phpOutputDirectory path := by
  have trimmed : String.ofList (phpOutputDirectory.toList.reverse.dropWhile (· == '/')).reverse =
      phpOutputDirectory := by decide
  rw [below, trimmed]

theorem join_phpOutputDirectory {path : String} (relative : Path.isAbsolute path = false) :
    Path.join phpOutputDirectory path = phpOutputDirectory ++ "/" ++ path := by
  rw [Path.join_eq _ relative, if_neg (by decide), if_neg (by decide)]

theorem nested_below {path : String} (relative : Path.isAbsolute path = false) :
    Path.Nested (below phpOutputDirectory path) := by
  have parts := Path.splitOnChar_slash phpOutputDirectory path
  rw [below_phpOutputDirectory, join_phpOutputDirectory relative]
  exact ⟨".generated", "php" :: Text.splitOnChar '/' path, parts, by decide⟩

/-- A placed file has a nested path. -/
theorem Placed.nested {file : Output.File} (placed : Placed phpOutputDirectory file) :
    Path.Nested file.path := by
  obtain ⟨-, path, relative, pathEq⟩ := placed
  rw [pathEq]
  exact nested_below relative

/-- Different files have different targets, whatever directory they are written to. -/
theorem targets_apart {files : Queue} (distinct : files.Distinct)
    (placed : ∀ file ∈ files, Placed phpOutputDirectory file) (output : String) :
    files.Pairwise fun earlier later =>
      Path.same (Path.join output later.path) (Path.join output earlier.path) = false := by
  apply distinct.imp_of_mem
  intro earlier later earlierMem laterMem differ
  rw [Path.same_join output (placed later laterMem).nested (placed earlier earlierMem).nested,
    Path.same_comm]
  exact differ

/-! ## Complete results -/

/-- The place of the manifest relative to the plugin. -/
def manifestPlace : String := below phpOutputDirectory manifestPath

/-- What writing the files of a run relies on: they can be written in any order without touching one
another, and one of them is a manifest that records the hash of the run. -/
structure Complete (result : Result) : Prop where
  directory : result.ir.php.outputDirectory = phpOutputDirectory
  plain : ∀ file ∈ result.files, file.Plain
  apart : ∀ output, result.files.Pairwise fun earlier later =>
    Path.same (Path.join output later.path) (Path.join output earlier.path) = false
  manifest : ∃ file ∈ result.files, file.path = manifestPlace ∧
    manifestHash file.content = some result.ir.hash

theorem outputDirectory_ir {loaded : Config.Loaded} (parts : Core.Parts loaded) :
    parts.ir.php.outputDirectory = phpOutputDirectory := rfl

/-- The manifest tells the hash of its representation. -/
theorem Sources.manifestHash_manifest {loaded : Config.Loaded} {parts : Core.Parts loaded}
    (configured : loaded.Representable) (sources : Sources parts.ir) :
    manifestHash sources.manifest.content = some parts.ir.hash := by
  apply manifestHash_manifestFile (shallow_of_buildCapabilityMap parts.capabilityMap_eq)
  rw [List.forall_mem_map]
  intro controller member
  obtain ⟨resource, resourceMem, composed⟩ :=
    exists_mem_of_mapM_eq_ok sources.controllers_eq controller member
  apply representable_of_compose _ (mapError_eq_ok_iff.mp composed)
  exact representable_of_buildResources configured parts.resources_eq resource
    (List.mem_mergeSort.mp resourceMem)

/-- A run on a representable configuration that succeeds has a complete result. -/
theorem complete_of_run {loaded : Config.Loaded} (configured : loaded.Representable)
    {requested : List String} {context after : Context} {result : Result}
    (success : pipeline.run loaded requested context = (.ok result, after)) : Complete result := by
  obtain ⟨parts, sources, irEq, filesEq⟩ := exists_sources_of_run success
  have placed : ∀ file ∈ result.files, Placed phpOutputDirectory file := by
    rw [filesEq, ← outputDirectory_ir parts]
    exact fun file member => sources.placed_of_mem_files member
  constructor
  · rw [irEq, outputDirectory_ir]
  · exact fun file member => (placed file member).1
  · apply targets_apart _ placed
    rw [filesEq]
    exact sources.files_distinct
  · refine ⟨sources.manifest, ?_, ?_, ?_⟩
    · rw [filesEq]
      exact Queue.mem_add_self _ _
    · rw [sources.path_manifest, outputDirectory_ir, manifestPlace]
    · rw [irEq]
      exact sources.manifestHash_manifest configured

/-- The first file of a run is not empty and is not the manifest. -/
theorem exists_first_of_run {loaded : Config.Loaded} {requested : List String}
    {context after : Context} {result : Result}
    (success : pipeline.run loaded requested context = (.ok result, after)) :
    ∃ first later, result.files = first :: later ∧ first.content ≠ "" ∧ ∀ output,
      Path.same (Path.join output first.path) (Path.join output manifestPlace) = false := by
  obtain ⟨parts, sources, -, filesEq⟩ := exists_sources_of_run success
  obtain ⟨first, later, startEq, alike⟩ := sources.files_startsAt
  rw [outputDirectory_ir] at alike
  have member : first ∈ sources.files := by
    rw [startEq]
    exact List.mem_cons_self
  have differ : Path.same first.path manifestPlace = false := by
    rw [← Path.same_congr alike]
    decide +kernel
  refine ⟨first, later, filesEq.trans startEq, ?_, ?_⟩
  · rcases Queue.eq_or_mem_of_mem_add member with rfl | queued
    · rw [sources.path_manifest, outputDirectory_ir, ← manifestPlace, Path.same_self] at differ
      cases differ
    · exact sources.content_ne_empty_of_mem_queued queued
  · have nested : Path.Nested manifestPlace := nested_below (by decide)
    intro output
    rw [Path.same_join output (sources.placed_of_mem_files member).nested nested]
    exact differ

end RestPlugin.Plugin
