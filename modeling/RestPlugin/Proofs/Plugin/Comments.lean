import RestPlugin.Proofs.Controller.Notes
import RestPlugin.Proofs.Plugin.Controllers
import RestPlugin.Proofs.Plugin.Sources

/-!
# Text of the configuration in comments

Apart from fixed texts, the comments of a plugin hold the names of resources and the
paths of routes, as they are.  So a comment holds something that would end it
exactly if such a name or path does.
-/

namespace RestPlugin.Plugin

open Controller Ir Output Php Pipeline Text

/-! ## Notes of a plugin -/

namespace Sources

variable {ir : Ir} (sources : Sources ir)

theorem notes_base :
    sources.base.notes = docNotes (some [generatedNote]) ++ docNotes baseClass.doc := by
  obtain ⟨name, -, baseEq⟩ := exists_name_of_baseSource sources.base_eq
  rw [baseEq]
  rfl

theorem notes_policy : sources.policy.notes = docNotes (some [generatedNote]) ++
    docNotes (policyClass ir.capabilityMap).doc ++ docNotes enforceMethod.doc := by
  obtain ⟨name, -, policyEq⟩ := exists_name_of_policySource sources.policy_eq
  rw [policyEq]
  rfl

theorem notes_loader : sources.loader.notes =
    docNotes (some [generatedNote, "", "Include this file from the plugin bootstrap."]) := by
  obtain ⟨name, controllers, -, -, loaderEq⟩ := exists_names_of_loaderSource sources.loader_eq
  have silent : stmtNotes (controllers.map registrationOf) = [] := by
    rw [stmtNotes_eq_flatMap, List.flatMap_eq_nil_iff, List.forall_mem_map]
    exact fun controller _ => notes_expression _
  rw [loaderEq, File.notes]
  simp [loaderOf, loaderHooks, autoloadFunction, Stmt.notes, silent, docNotes]

/-- The comments of the files that every plugin has are plain. -/
theorem plain_of_mem_fixed {tree : Php.File}
    (fixed : tree ∈ [sources.base, sources.policy, indexSource (classEntries ir), sources.loader]) :
    ∀ note ∈ tree.notes, Plain note.text := by
  have docs {doc : Doc} (plain : ∀ line ∈ doc, Plain line) :
      ∀ note ∈ docNotes (some doc), Plain note.text := List.forall_mem_map.mpr plain
  have generated : Plain generatedNote := plain_ofList rfl
  simp only [List.mem_cons, List.not_mem_nil, or_false] at fixed
  rcases fixed with rfl | rfl | rfl | rfl
  · rw [sources.notes_base, List.forall_mem_append]
    exact ⟨docs (List.forall_mem_singleton.mpr generated),
      docs (List.forall_mem_singleton.mpr (plain_ofList rfl))⟩
  · rw [sources.notes_policy, List.forall_mem_append, List.forall_mem_append]
    refine ⟨⟨docs (List.forall_mem_singleton.mpr generated),
      docs (List.forall_mem_singleton.mpr (plain_ofList rfl))⟩, docs ?_⟩
    simp only [List.forall_mem_cons]
    exact ⟨plain_ofList rfl, plain_ofList rfl, plain_ofList rfl, plain_ofList rfl,
      plain_ofList rfl, List.forall_mem_nil _⟩
  · exact docs (List.forall_mem_singleton.mpr generated)
  · rw [sources.notes_loader]
    refine docs ?_
    simp only [List.forall_mem_cons]
    exact ⟨generated, plain_ofList rfl, plain_ofList rfl, List.forall_mem_nil _⟩

/-- A tree is the one of a controller, or fixed. -/
theorem mem_trees {path : String} {tree : Php.File} (member : (path, tree) ∈ sources.trees) :
    (∃ controller ∈ sources.controllers, controller.file = tree) ∨
      tree ∈ [sources.base, sources.policy, indexSource (classEntries ir), sources.loader] := by
  simp only [trees, List.mem_append, List.mem_cons, List.mem_map, Prod.mk.injEq, List.not_mem_nil,
    or_false] at member ⊢
  rcases member with
    ((⟨-, rfl⟩ | ⟨-, rfl⟩) | ⟨controller, controllerMem, -, rfl⟩) | ⟨-, rfl⟩ | ⟨-, rfl⟩
  · simp
  · simp
  · exact .inl ⟨controller, controllerMem, rfl⟩
  · simp
  · simp

/-- The notes of all trees. -/
def notes : List Php.Note := sources.trees.flatMap fun tree => tree.2.notes

/-- The notes of a plugin are fixed or tell about a resource. -/
theorem plain_or_tells {note : Php.Note} (member : note ∈ sources.notes) :
    Plain note.text ∨ ∃ resource ∈ ir.resources, Tells resource note := by
  obtain ⟨⟨path, tree⟩, treeMem, carried⟩ := List.mem_flatMap.mp member
  rcases sources.mem_trees treeMem with ⟨controller, controllerMem, rfl⟩ | fixed
  · obtain ⟨resource, resourceMem, composedEq⟩ :=
      exists_mem_of_mapM_eq_ok sources.controllers_eq controller controllerMem
    rcases plain_or_tells_of_compose (mapError_eq_ok_iff.mp composedEq) note carried with
      plain | tells
    · exact .inl plain
    · exact .inr ⟨resource, resourceMem, tells⟩
  · exact .inl (sources.plain_of_mem_fixed fixed note carried)

/-- What tells about a resource is a comment of the plugin. -/
theorem mem_notes_of_tells {resource : Resource} (member : resource ∈ ir.resources)
    {note : Php.Note} (tells : Tells resource note) : note ∈ sources.notes := by
  obtain ⟨controller, controllerMem, composedEq⟩ :=
    exists_result_of_mapM_eq_ok sources.controllers_eq resource member
  have carried := Controller.mem_notes_of_tells (mapError_eq_ok_iff.mp composedEq) tells
  refine List.mem_flatMap.mpr ⟨(controllerPath controller.className, controller.file), ?_, carried⟩
  rw [trees, List.mem_append, List.mem_append]
  exact .inl (.inr (List.mem_map_of_mem controllerMem))

/-- The sources among the files are prints of the trees. -/
theorem extension_eq_php_iff (directory : ir.php.outputDirectory = phpOutputDirectory)
    {file : Output.File} (member : file ∈ sources.files) :
    file.extension = some "php" ↔
      ∃ tree ∈ sources.trees, file = sourceFile phpOutputDirectory tree.1 tree.2 := by
  constructor
  · intro php
    rw [sources.files_eq] at member
    have inListed : file ∈ sources.listed :=
      (Queue.mem_or_mem_of_mem_addAll member).resolve_left List.not_mem_nil
    rw [listed, List.mem_append, List.mem_map, List.mem_singleton, directory] at inListed
    rcases inListed with ⟨tree, treeMem, rfl⟩ | rfl
    · exact ⟨tree, treeMem, rfl⟩
    · have json : Path.lowerExtension (below phpOutputDirectory manifestPath) = some "json" := by
        decide
      rw [Output.File.extension, sources.path_manifest, directory, json] at php
      exact absurd php (by decide)
  · rintro ⟨tree, treeMem, rfl⟩
    exact sources.extension_of_mem_trees treeMem

/-- If the names of the controllers are apart, every tree is printed to a file. -/
theorem mem_files_of_mem_trees {loaded : Config.Loaded} {parts : Core.Parts loaded}
    (sources : Sources parts.ir) (separate : Separate loaded.config) {tree : String × Php.File}
    (member : tree ∈ sources.trees) :
    sourceFile phpOutputDirectory tree.1 tree.2 ∈ sources.files := by
  rw [sources.files_eq_listed_iff.mpr (sources.separate_iff.mp separate), listed,
    outputDirectory_ir parts]
  exact List.mem_append_left _ (List.mem_map_of_mem member)

end Sources

/-- Builders that succeed on a representation come to the files of its sources, and each of these is
the print of a tree or the manifest. -/
theorem exists_sources_of_builders {loaded : Config.Loaded} {ir : Ir} {context after : Context}
    {files : Queue} (built : Ir.build loaded = .ok ir)
    (done : applyAll .builder ir pipeline.builderSchedule.order [] context = (.ok files, after)) :
    ∃ sources : Sources ir, files = sources.files ∧
      ∀ file ∈ files, file.extension = some "php" →
        ∃ tree ∈ sources.trees, file = sourceFile phpOutputDirectory tree.1 tree.2 := by
  obtain ⟨parts, rfl⟩ := Core.exists_parts_of_build built
  obtain ⟨sources, rfl⟩ := Sources.exists_of_applyAll_builders _ done
  exact ⟨sources, rfl, fun file member php =>
    (sources.extension_eq_php_iff (outputDirectory_ir parts) member).mp php⟩

/-! ## Names and paths -/

/-- A piece stands in the name of a resource or in one of its paths, normalised. -/
def Mentioned (config : Config) (piece : String) : Prop :=
  ∃ entry ∈ config.resources, Within piece entry.2.name ∨
    ∃ declared ∈ entry.2.routes.toList, ∃ path,
      normalisePath declared.2.path = .ok path ∧ Within piece path

/-- A piece stands in the path of an endpoint exactly if it stands in a declared path,
normalised. -/
theorem exists_route_iff {resource : Resource} {declared : Config.Resource}
    (resolved : resource.ResolvedFrom declared) (piece : String) :
    (∃ endpoint ∈ endpoints resource, Within piece endpoint.route.path) ↔
      ∃ entry ∈ declared.routes.toList, ∃ path,
        normalisePath entry.2.path = .ok path ∧ Within piece path := by
  have member (path : String) : (∃ endpoint ∈ endpoints resource, endpoint.route.path = path) ↔
      ∃ entry ∈ declared.routes.toList, normalisePath entry.2.path = .ok path := by
    have arranged := resolved.paths.mem_iff (a := Except.ok path)
    rw [← route_endpoints resource, List.map_map] at arranged
    simpa using arranged
  constructor
  · rintro ⟨endpoint, endpointMem, within⟩
    obtain ⟨entry, entryMem, normal⟩ := (member _).mp ⟨endpoint, endpointMem, rfl⟩
    exact ⟨entry, entryMem, _, normal, within⟩
  · rintro ⟨entry, entryMem, path, normal, within⟩
    obtain ⟨endpoint, endpointMem, rfl⟩ := (member path).mpr ⟨entry, entryMem, normal⟩
    exact ⟨endpoint, endpointMem, within⟩

section Parts

variable {loaded : Config.Loaded} (parts : Core.Parts loaded)

theorem exists_declared_of_parts : ∀ resource ∈ parts.ir.resources,
    ∃ entry ∈ loaded.config.resources, resource.ResolvedFrom entry.2 := by
  intro resource member
  obtain ⟨entry, entryMem, _, _, resolved⟩ := parts.exists_declaration resource member
  exact ⟨entry, entryMem, resolvedFrom_of_buildResource resolved⟩

theorem exists_resolved_of_parts : ∀ entry ∈ loaded.config.resources,
    ∃ resource ∈ parts.ir.resources, resource.ResolvedFrom entry.2 := by
  intro entry member
  obtain ⟨resource, resourceMem, _, _, resolved⟩ := parts.exists_resource entry member
  exact ⟨resource, resourceMem, resolvedFrom_of_buildResource resolved⟩

/-- A piece is mentioned exactly if it stands in the name of a resource of the representation or in
the path of one of its endpoints. -/
theorem mentioned_iff (piece : String) :
    Mentioned loaded.config piece ↔ ∃ resource ∈ parts.ir.resources,
      Within piece resource.name ∨
        ∃ endpoint ∈ endpoints resource, Within piece endpoint.route.path := by
  constructor
  · rintro ⟨entry, entryMem, mentioned⟩
    obtain ⟨resource, resourceMem, resolved⟩ := exists_resolved_of_parts parts entry entryMem
    refine ⟨resource, resourceMem, ?_⟩
    rw [exists_route_iff resolved, resolved.name]
    exact mentioned
  · rintro ⟨resource, resourceMem, mentioned⟩
    obtain ⟨entry, entryMem, resolved⟩ := exists_declared_of_parts parts resource resourceMem
    refine ⟨entry, entryMem, ?_⟩
    rw [exists_route_iff resolved, resolved.name] at mentioned
    exact mentioned

end Parts

namespace Sources

variable {ir : Ir} (sources : Sources ir) {ending : String} (member : ending ∈ endings)
include member

/-- A documentation comment holds an ending exactly if the name of a resource or the path of a route
does. -/
theorem exists_doc_iff :
    (∃ line, .doc line ∈ sources.notes ∧ Within ending line) ↔
      ∃ resource ∈ ir.resources, Within ending resource.name ∨
        ∃ endpoint ∈ endpoints resource, Within ending endpoint.route.path := by
  constructor
  · rintro ⟨line, carried, within⟩
    rcases sources.plain_or_tells carried with plain | ⟨resource, resourceMem, tells⟩
    · exact absurd within (not_within_of_plain member plain)
    · refine ⟨resource, resourceMem, ?_⟩
      cases tells with
      | name => exact .inl ((within_classHeading_iff member resource).mp within)
      | route endpointMem =>
          exact .inr ⟨_, endpointMem, (within_handlerHeading_iff member _).mp within⟩
  · rintro ⟨resource, resourceMem, inName | ⟨endpoint, endpointMem, inPath⟩⟩
    · exact ⟨_, sources.mem_notes_of_tells resourceMem .name,
        (within_classHeading_iff member resource).mpr inName⟩
    · exact ⟨_, sources.mem_notes_of_tells resourceMem (.route endpointMem),
        (within_handlerHeading_iff member _).mpr inPath⟩

/-- A comment of one line holds an ending exactly if the path of a stubbed route does. -/
theorem exists_comment_iff :
    (∃ text, .comment text ∈ sources.notes ∧ Within ending text) ↔
      ∃ resource ∈ ir.resources, ∃ endpoint ∈ endpoints resource,
        Stubbed resource endpoint ∧ Within ending endpoint.route.path := by
  constructor
  · rintro ⟨text, carried, within⟩
    rcases sources.plain_or_tells carried with plain | ⟨resource, resourceMem, tells⟩
    · exact absurd within (not_within_of_plain member plain)
    · cases tells with
      | stub endpointMem stubbed =>
          exact ⟨resource, resourceMem, _, endpointMem, stubbed,
            (within_todo_iff member _).mp within⟩
  · rintro ⟨resource, resourceMem, endpoint, endpointMem, stubbed, inPath⟩
    exact ⟨_, sources.mem_notes_of_tells resourceMem (.stub endpointMem stubbed),
      (within_todo_iff member _).mpr inPath⟩

end Sources

/-- In a plugin that is generated, a documentation comment holds an ending exactly if
a name or a path of the configuration does, and a comment of one line exactly if the
path of a stubbed route does. -/
theorem ending_in_comment_iff {loaded : Config.Loaded} {requested : List String}
    {context after : Context} {result : Result}
    (success : pipeline.run loaded requested context = (.ok result, after)) :
    (∀ resource ∈ result.ir.resources, ∃ entry ∈ loaded.config.resources,
      resource.ResolvedFrom entry.2) ∧
    ∃ sources : Sources result.ir,
      (∀ file ∈ result.files, file.extension = some "php" ↔
        ∃ tree ∈ sources.trees, file = sourceFile phpOutputDirectory tree.1 tree.2) ∧
      (Separate loaded.config → ∀ tree ∈ sources.trees,
        sourceFile phpOutputDirectory tree.1 tree.2 ∈ result.files) ∧
      (∀ tree ∈ sources.trees, ∀ note ∈ tree.2.notes, note.Printed tree.2.fragments) ∧
      ∀ ending ∈ endings,
        ((∃ line, .doc line ∈ sources.notes ∧ Within ending line) ↔
          Mentioned loaded.config ending) ∧
        ((∃ text, .comment text ∈ sources.notes ∧ Within ending text) ↔
          ∃ resource ∈ result.ir.resources, ∃ endpoint ∈ endpoints resource,
            Stubbed resource endpoint ∧ Within ending endpoint.route.path) := by
  obtain ⟨parts, sources, irEq, filesEq⟩ := exists_sources_of_run success
  obtain ⟨ir, files, diagnostics, steps⟩ := result
  simp only at irEq filesEq
  subst irEq filesEq
  refine ⟨exists_declared_of_parts parts, sources, ?_, ?_, ?_, ?_⟩
  · exact fun file member => sources.extension_eq_php_iff (outputDirectory_ir parts) member
  · exact fun separate tree member => sources.mem_files_of_mem_trees separate member
  · exact fun tree _ note carried => File.printed_of_mem_notes carried
  · intro ending member
    rw [mentioned_iff parts]
    exact ⟨sources.exists_doc_iff member, sources.exists_comment_iff member⟩

/-- A text that declares a resource without storage. -/
def soloSource (path : String) : String :=
  "version = 1\nnamespace = \"acme\"\n[resources.job]\nname = \"job\"\nschema = \"auto\"\n" ++
    "routes.list = \x7b path = \"" ++ path ++ "\", method = \"GET\" \x7d\n"

/-- The resource of the text. -/
def solo (path : String) : List (String × Config.Resource) := [("job", unstored "job" path)]

theorem ending_in_comment_iff_solo :
    ∃ (result : Result) (after : Context),
      pipeline.run (acme (solo "/acme/v1/jobs")) [] {} = (.ok result, after) ∧
      ∃ sources : Sources result.ir,
        ¬∃ line, .doc line ∈ sources.notes ∧ Within "*/" line := by
  have literal {l : List Char} : (String.ofList l).toList = l := String.toList_ofList
  have accepted : Config.parse .toml (soloSource "/acme/v1/jobs") =
      .ok ((acme (solo "/acme/v1/jobs")).config, []) :=
    Config.parse_eq_ok_of_toList (toList_append_eq (toList_append_eq (toList_append_eq literal
      literal) literal) literal) (by decide +kernel) (by decide +kernel)
  obtain ⟨-, -, result, after, success, -⟩ := exists_run_acme accepted (List.pairwise_singleton _ _)
    (exists_eq_ok (by decide +kernel)) (exists_eq_ok (by decide +kernel)) (by decide +kernel)
  obtain ⟨-, sources, -, -, -, iffs⟩ := ending_in_comment_iff success
  refine ⟨result, after, success, sources, ?_⟩
  rw [(iffs "*/" (by decide)).1]
  rintro ⟨entry, entryMem, mentioned⟩
  obtain rfl := List.mem_singleton.mp entryMem
  rcases mentioned with inName | ⟨declared, declaredMem, path, normal, inPath⟩
  · exact absurd inName (by decide +kernel)
  · obtain rfl := List.mem_singleton.mp declaredMem
    have isNormal : normalisePath "/acme/v1/jobs" = .ok "/acme/v1/jobs" :=
      eq_ok_of_toOption (by decide +kernel)
    obtain rfl := Except.ok.inj (isNormal.symm.trans normal)
    exact absurd inPath (by decide +kernel)

/-- The path `/acme/v1/*/jobs` ends the comment that documents its handler. -/
theorem comment_ended_by_path :
    ∃ (result : Result) (after : Context),
      Config.parse .toml (soloSource "/acme/v1/*/jobs") =
        .ok ((acme (solo "/acme/v1/*/jobs")).config, []) ∧
      pipeline.run (acme (solo "/acme/v1/*/jobs")) [] {} = (.ok result, after) ∧
      ∃ file ∈ result.files, file.extension = some "php" ∧
        ∃ tree : Php.File, file.content = tree.print ∧
          ∃ line, .doc line ∈ tree.notes ∧ Within "*/" line := by
  have literal {l : List Char} : (String.ofList l).toList = l := String.toList_ofList
  have accepted : Config.parse .toml (soloSource "/acme/v1/*/jobs") =
      .ok ((acme (solo "/acme/v1/*/jobs")).config, []) :=
    Config.parse_eq_ok_of_toList (toList_append_eq (toList_append_eq (toList_append_eq literal
      literal) literal) literal) (by decide +kernel) (by decide +kernel)
  obtain ⟨parts, sources, result, after, success, filesEq⟩ := exists_run_acme accepted
    (List.pairwise_singleton _ _) (exists_eq_ok (by decide +kernel))
    (exists_eq_ok (by decide +kernel)) (by decide +kernel)
  have isNormal : normalisePath "/acme/v1/*/jobs" = .ok "/acme/v1/*/jobs" :=
    eq_ok_of_toOption (by decide +kernel)
  have mentioned : Mentioned (acme (solo "/acme/v1/*/jobs")).config "*/" :=
    ⟨_, List.mem_singleton_self _, .inr ⟨_, List.mem_singleton_self _, _, isNormal,
      by decide +kernel⟩⟩
  obtain ⟨line, carried, within⟩ :=
    (sources.exists_doc_iff (by decide)).mpr ((mentioned_iff parts "*/").mp mentioned)
  obtain ⟨⟨path, tree⟩, treeMem, inTree⟩ := List.mem_flatMap.mp carried
  have separate : Separate (acme (solo "/acme/v1/*/jobs")).config := by
    rw [Separate]
    decide +kernel
  refine ⟨result, after, accepted, success, sourceFile phpOutputDirectory path tree, ?_,
    sources.extension_of_mem_trees treeMem, tree, rfl, line, inTree, within⟩
  have kept := sources.mem_files_of_mem_trees separate treeMem
  rw [filesEq]
  exact kept

end RestPlugin.Plugin
