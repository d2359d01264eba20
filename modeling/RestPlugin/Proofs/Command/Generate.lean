import RestPlugin.Command.Generate
import RestPlugin.Proofs.Plugin.Files

/-!
# Generating into memory

On a file system whose operations succeed, a forced generation leaves every file of the
plugin at its target and touches nothing else.  A generation after it finds the hash that
the first one recorded, so it says that the plugin is up to date and changes nothing.  A
dry run never changes anything.
-/

namespace RestPlugin.Command

open Files Output Pipeline Plugin

/-! ## One generation, step by step -/

section Steps

variable {σ : Type} (system : System (StateM σ)) (options : GenerateOptions) (state : σ)

theorem run_writeResult (result : Pipeline.Result) :
    (writeResult system options result).run state =
      match (system.read (manifestTarget options.output result.ir.php)).run state with
      | (.error fault, after) =>
          ((.error (.manifest (manifestTarget options.output result.ir.php) fault), []), after)
      | (.ok text, after) =>
          if !options.force && text.bind manifestHash == some result.ir.hash then
            ((.ok (.upToDate (manifestTarget options.output result.ir.php)),
              [upToDateEntry result.ir.hash]), after)
          else
            match (writeAll system scope options.output result.files).run after with
            | ((.error error, entries), last) => ((.error (.write error), entries), last)
            | ((.ok summary, entries), last) =>
                ((.ok (.written options.output summary), entries), last) := by
  rw [writeResult, run_bind]
  rcases (system.read (manifestTarget options.output result.ir.php)).run state with ⟨read, after⟩
  cases read with
  | error fault => rfl
  | ok text =>
      dsimp only
      split
      · rfl
      · rw [run_bind]
        rcases (writeAll system scope options.output result.files).run after with
          ⟨⟨written, entries⟩, last⟩
        cases written with
        | error error => rfl
        | ok summary => rfl

variable {loaded : Config.Loaded} {context : Context}

/-- If the pipeline fails, the generation fails with its error and touches nothing. -/
theorem run_generate_of_error {error : Pipeline.Error}
    (failed : Plugin.pipeline.run loaded [] { scope } = (.error error, context)) :
    (generate system loaded options).run state =
      ((.error (.generation error), context.journal), state) := by
  unfold generate
  rw [failed]
  rfl

variable {result : Pipeline.Result}
  (success : Plugin.pipeline.run loaded [] { scope } = (.ok result, context))
include success

theorem run_generate_dry (dry : options.dryRun = true) :
    (generate system loaded options).run state =
      ((.ok (result, .preview result.files), context.journal), state) := by
  unfold generate
  rw [success]
  dsimp only
  rw [if_pos dry]
  rfl

/-- A generation that is not dry writes what the pipeline made. -/
theorem run_generate_of_ok (wet : options.dryRun = false) :
    (generate system loaded options).run state =
      match (writeResult system options result).run state with
      | ((.error error, entries), after) =>
          ((.error error, (context.append entries).journal), after)
      | ((.ok generation, entries), after) =>
          ((.ok (result, generation), (context.append entries).journal), after) := by
  unfold generate
  rw [success]
  dsimp only
  rw [wet, if_neg Bool.false_ne_true, run_bind]
  rcases (writeResult system options result).run state with ⟨⟨outcome, entries⟩, after⟩
  cases outcome with
  | error error => rfl
  | ok generation => rfl

/-- A forced generation writes the files whatever manifest it reads. -/
theorem run_generate_of_forced (wet : options.dryRun = false) (forced : options.force = true)
    {text : Option String} {between : σ}
    (read : (system.read (manifestTarget options.output result.ir.php)).run state =
      (.ok text, between)) :
    ∃ journal, (generate system loaded options).run state =
      match (writeAll system scope options.output result.files).run between with
      | ((.error error, _), after) => ((.error (.write error), journal), after)
      | ((.ok summary, _), after) =>
          ((.ok (result, .written options.output summary), journal), after) := by
  rw [run_generate_of_ok system options state success wet, run_writeResult, read, forced]
  simp only [Bool.not_true, Bool.false_and, Bool.false_eq_true, if_false]
  rcases (writeAll system scope options.output result.files).run between with
    ⟨⟨outcome, entries⟩, after⟩
  cases outcome with
  | error error => exact ⟨_, rfl⟩
  | ok summary => exact ⟨_, rfl⟩

/-- A generation that is not forced leaves the files alone where a manifest records the hash. -/
theorem run_generate_of_recorded (wet : options.dryRun = false) (unforced : options.force = false)
    {text : String} {after : σ}
    (read : (system.read (manifestTarget options.output result.ir.php)).run state =
      (.ok (some text), after)) (recorded : manifestHash text = some result.ir.hash) :
    ∃ journal, (generate system loaded options).run state =
      ((.ok (result, .upToDate (manifestTarget options.output result.ir.php)), journal),
        after) := by
  rw [run_generate_of_ok system options state success wet, run_writeResult, read, unforced]
  simp only [Option.bind_some, recorded, Bool.not_false, Bool.true_and, beq_self_eq_true, if_true]
  exact ⟨_, rfl⟩

end Steps

/-! ## The place of the manifest -/

/-- The manifest is looked for where the writer puts it. -/
theorem manifestTarget_eq {php : Ir.PhpProject}
    (directory : php.outputDirectory = Ir.phpOutputDirectory) (output : String) :
    manifestTarget output php = Path.join output manifestPlace := by
  rw [manifestTarget, directory, manifestPlace, below_phpOutputDirectory]
  apply Path.join_join <;> decide

/-- The manifest is among the files of a complete result and records its hash. -/
theorem exists_manifest {result : Pipeline.Result} (complete : Complete result) :
    ∃ file ∈ result.files,
      (∀ output, manifestTarget output result.ir.php = Path.join output file.path) ∧
      manifestHash file.content = some result.ir.hash := by
  obtain ⟨file, member, pathEq, hashEq⟩ := complete.manifest
  refine ⟨file, member, ?_, hashEq⟩
  intro output
  rw [pathEq, manifestTarget_eq complete.directory]

/-! ## In memory -/

section InMemory

variable {loaded : Config.Loaded} {result : Pipeline.Result} {context : Context}
  (complete : Complete result)
  (success : Plugin.pipeline.run loaded [] { scope } = (.ok result, context))
include complete success

/-- A forced generation writes every file. -/
theorem run_generate_forced (output : String) (memory : Memory) :
    ∃ journal, (generate Memory.system loaded { output, force := true }).run memory =
      ((.ok (result, .written output { written := result.files.map File.path }), journal),
        ((writeAll Memory.system scope output result.files).run memory).2) := by
  have written : ((writeAll Memory.system scope output result.files).run memory).1.1 =
      .ok { written := result.files.map File.path } :=
    InMemory.writeRest_written memory scope output {} complete.plain
  obtain ⟨journal, runEq⟩ :=
    run_generate_of_forced Memory.system { output, force := true } memory success rfl rfl rfl
  rw [runEq]
  refine ⟨journal, ?_⟩
  revert written
  rcases (writeAll Memory.system scope output result.files).run memory with
    ⟨⟨outcome, entries⟩, last⟩
  rintro rfl
  rfl

/-- Where the manifest is in place, a generation changes nothing. -/
theorem run_generate_settled (output : String) {memory : Memory}
    (settled : ∀ file ∈ result.files,
      memory.get? (Path.join output file.path) = some file.content) :
    ∃ journal, (generate Memory.system loaded { output }).run memory =
      ((.ok (result, .upToDate (manifestTarget output result.ir.php)), journal), memory) := by
  obtain ⟨file, member, targetEq, hashEq⟩ := exists_manifest complete
  have read : (Memory.system.read (manifestTarget output result.ir.php)).run memory =
      (.ok (some file.content), memory) := by
    rw [targetEq, ← settled file member]
    rfl
  exact run_generate_of_recorded Memory.system { output } memory success rfl rfl read hashEq

end InMemory

/-- Generating into memory is complete and idempotent, for every configuration on which the pipeline
succeeds, every output directory and every content of the memory.  A forced generation writes all
queued files: afterwards each target holds the content of its file, every other path holds what it
held before, and of directories only those of targets are new.  A generation after it that is not
forced finds the plugin up to date and changes nothing.  A dry run previews exactly the queued files
and changes nothing. -/
theorem generate_complete_and_idempotent {loaded : Config.Loaded}
    (configured : loaded.Representable) {result : Pipeline.Result} {context : Context}
    (success : Plugin.pipeline.run loaded [] { scope } = (.ok result, context))
    (output : String) (memory : Memory) :
    (∃ after journal, (generate Memory.system loaded { output, force := true }).run memory =
        ((.ok (result, .written output { written := result.files.map File.path }), journal),
          after) ∧
      (∀ file ∈ result.files, after.get? (Path.join output file.path) = some file.content) ∧
      (∀ path, (∀ file ∈ result.files, Path.same (Path.join output file.path) path = false) →
        after.get? path = memory.get? path) ∧
      memory.directories ⊆ after.directories ∧
      (∀ directory ∈ after.directories, directory ∈ memory.directories ∨
        ∃ file ∈ result.files, Path.parent (Path.join output file.path) = some directory) ∧
      ∃ journal, (generate Memory.system loaded { output }).run after =
        ((.ok (result, .upToDate (manifestTarget output result.ir.php)), journal), after)) ∧
    ∀ force, (generate Memory.system loaded { output, dryRun := true, force }).run memory =
      ((.ok (result, .preview result.files), context.journal), memory) := by
  have complete := complete_of_run configured success
  obtain ⟨journal, forced⟩ := run_generate_forced complete success output memory
  have written := InMemory.writeRest_written memory scope output {} complete.plain
  have settled := view_writeRest_target Memory.lawful complete.plain (complete.apart output) written
  constructor
  · refine ⟨_, journal, forced, settled, ?_, ?_, ?_, ?_⟩
    · exact fun path other => view_writeRest_other Memory.lawful memory scope output {} other
    · exact InMemory.directories_subset_writeRest memory scope {} complete.plain
    · exact fun directory member => InMemory.mem_directories_writeRest complete.plain member
    · exact run_generate_settled complete success output settled
  · exact fun force => run_generate_dry Memory.system _ memory success rfl

/-! ## A diary -/

section Diary

open Controller Ir

/-- A resource kept as one option, whose cache key has a text with quotes and a line break, a
negative number and an undefined one. -/
def note : Config.Resource where
  name := "note"
  routes := { list := some ⟨"/shop/v1/note", .get, none⟩ }
  identity := none
  storage := some (.option "shop_note")
  schema := none
  cacheKeys := some { list := some [.text "\"note\"\n", .int (-1), .float .nan] }
  queryParams := none
  capabilities := none

/-- A configuration with one resource. -/
def diary : Config.Loaded where
  config :=
    { version := none
      declaredNamespace := "shop"
      schemas := []
      resources := [("n", note)]
      capabilities := none }
  sourcePath := "wpk.config.toml"

theorem diary_representable : diary.Representable := by
  intro entry member
  obtain rfl := List.mem_singleton.mp member
  rintro keys ⟨⟩ operation segments segmentsEq
  cases operation <;> cases segmentsEq
  decide

/-- The origin of the diary. -/
def diaryInfo : Meta where
  version := 1
  declaredNamespace := "shop"
  slug := "shop"
  sourcePath := "wpk.config.toml"
  origin := "wpk.config.toml"

/-- The route of the note. -/
def noteRoute : Ir.Route := .ofConfig "/shop/v1/note" ⟨"/shop/v1/note", .get, none⟩

/-- The note before its hash is taken. -/
def unsealedNote : Ir.Resource where
  name := "note"
  schemaKey := "auto:n"
  schemaProvenance := .auto
  routes := [noteRoute]
  cacheKeys := deriveCacheKeys "note" note.cacheKeys note.routes
  identity := none
  storage := some (.option "shop_note")
  queryParams := none
  hash := ""
  warnings := []

/-- The note as it is resolved. -/
def resolvedNote : Ir.Resource := { unsealedNote with hash := unsealedNote.content.contentHash }

theorem buildRoutes_note :
    ∃ registry, buildRoutes [] "note" note.routes = (.ok [noteRoute], registry) := by
  have listed : note.routes.toList = [(.list, ⟨"/shop/v1/note", .get, none⟩)] := rfl
  have normal : normalisePath "/shop/v1/note" = .ok "/shop/v1/note" := by decide
  refine ⟨[((.get, "/shop/v1/note"), "note")], ?_⟩
  simp only [buildRoutes, listed, claimRoutes, buildRoute, normal, RouteRegistry.owner?,
    List.lookup_nil, Except.map, List.mergeSort_singleton, noteRoute]

theorem buildResource_note :
    ∃ claims, buildResource "shop" { schemas := [] } "n" note = .ok (resolvedNote, claims) := by
  obtain ⟨registry, routesEq⟩ := buildRoutes_note
  have allowed : checkStorageIdentity "note" (some (.option "shop_note")) none none [noteRoute] =
      .ok () := by decide
  have trimmed : Text.trim "shop_note" = "shop_note" := by decide
  rw [buildResource]
  simp only [show note.name = "note" from rfl, routesEq, ok_bind]
  simp only [note, resourceIdentity, allowed, ok_bind, resolveStorage, trimmed,
    PostTypeRegistry.record, resolveSchema, schemaReference, sortWarnings, Option.toList_none,
    List.append_nil, List.mergeSort_nil, Option.map_none, autoKey]
  exact ⟨_, rfl⟩

theorem exists_parts_diary :
    ∃ parts : Core.Parts diary, parts.info = diaryInfo ∧ parts.resources = [resolvedNote] := by
  obtain ⟨claims, resolved⟩ := buildResource_note
  have infoEq : buildMeta diary = .ok diaryInfo := by decide
  have sortedEq : diary.config.resources.mergeSort declarationLe = [("n", note)] :=
    List.mergeSort_singleton _
  have resourcesEq : buildResources diary "shop" [] = .ok ([resolvedNote], claims.schemas) := by
    rw [buildResources, sortedEq]
    simp only [buildResourceList, resolved, ok_bind, List.mergeSort_singleton]
  obtain ⟨map, mapEq⟩ : ∃ map, buildCapabilityMap diary [resolvedNote] = .ok map :=
    exists_eq_ok (by decide)
  exact ⟨⟨diaryInfo, [], [resolvedNote], claims.schemas, map, infoEq, rfl, resourcesEq, mapEq⟩, rfl,
    rfl⟩

theorem compose_resolvedNote {ir : Ir} (info : ir.info = diaryInfo)
    (php : ir.php = buildPhpProject diaryInfo) :
    ∃ controller, compose ir resolvedNote = .ok controller := by
  have space : policyNamespace (buildPhpProject diaryInfo) = "Shop\\Policy" := by decide
  have uses : usedClasses (buildPhpProject diaryInfo) resolvedNote =
      ["Shop\\Policy\\Policy", "WP_Error", "WP_REST_Request"] := by
    rw [usedClasses, space]
    exact List.mergeSort_of_pairwise (by decide)
  apply exists_eq_ok
  unfold compose
  rw [info, php, uses]
  decide

/-- The pipeline succeeds on the diary. -/
theorem exists_run_diary :
    ∃ result context, Plugin.pipeline.run diary [] { scope } = (.ok result, context) := by
  obtain ⟨parts, infoEq, resourcesEq⟩ := exists_parts_diary
  have php : parts.ir.php = buildPhpProject diaryInfo := congrArg buildPhpProject infoEq
  have resources : parts.ir.resources = [resolvedNote] := by
    change parts.resources.mergeSort Resource.le = _
    rw [resourcesEq, List.mergeSort_singleton]
  obtain ⟨base, baseEq⟩ : ∃ base, baseSource (restNamespace parts.ir.php) = .ok base := by
    rw [php]
    exact exists_eq_ok (by decide)
  obtain ⟨policy, policyEq⟩ : ∃ policy,
      policySource (policyNamespace parts.ir.php) parts.ir.capabilityMap = .ok policy := by
    obtain ⟨space, spaceEq⟩ : ∃ space,
        Php.Name.of (policyNamespace (buildPhpProject diaryInfo)) = .ok space :=
      exists_eq_ok (by decide)
    rw [php, policySource, spaceEq]
    exact ⟨_, rfl⟩
  obtain ⟨controllers, controllersEq⟩ : ∃ controllers,
      composeAll parts.ir = .ok controllers := by
    obtain ⟨controller, composed⟩ := compose_resolvedNote infoEq php
    rw [composeAll, resources, List.mapM_cons, List.mapM_nil, composed]
    exact ⟨_, rfl⟩
  obtain ⟨loader, loaderEq⟩ : ∃ loader,
      loaderSource parts.ir.php.phpNamespace (controllerNames parts.ir) = .ok loader := by
    rw [controllerNames, resources, php]
    exact exists_eq_ok (by decide)
  obtain ⟨result, context, success, -⟩ := run_of_sources parts
    ⟨base, policy, controllers, loader, baseEq, policyEq, controllersEq, loaderEq⟩ [] { scope }
  exact ⟨result, context, success⟩

/-- The diary is generated beside a file of its author, and then it is up to date. -/
theorem generate_complete_and_idempotent_diary :
    diary.Representable ∧
      ∃ result context, Plugin.pipeline.run diary [] { scope } = (.ok result, context) ∧
        ∃ after journal,
          (generate Memory.system diary { output := "out", force := true }).run
              { files := [("out/readme.md", "mine")] } =
            ((.ok (result, .written "out" { written := result.files.map File.path }), journal),
              after) ∧
          (∀ file ∈ result.files, after.get? (Path.join "out" file.path) = some file.content) ∧
          ∃ journal, (generate Memory.system diary { output := "out" }).run after =
            ((.ok (result, .upToDate (manifestTarget "out" result.ir.php)), journal), after) := by
  obtain ⟨result, context, success⟩ := exists_run_diary
  obtain ⟨⟨after, journal, forced, targets, -, -, -, again⟩, -⟩ :=
    generate_complete_and_idempotent diary_representable success "out"
      { files := [("out/readme.md", "mine")] }
  exact ⟨diary_representable, result, context, success, after, journal, forced, targets, again⟩

end Diary

end RestPlugin.Command
