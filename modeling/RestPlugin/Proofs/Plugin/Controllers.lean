import RestPlugin.Proofs.Controller.Pieces
import RestPlugin.Proofs.Output.Queue
import RestPlugin.Proofs.Plugin.Misnamed

/-!
# One controller for each resource

The builders queue five fixed files and a controller for each resource.  All of them are kept
exactly if the pascal cases of the resource names differ from one another and from `Base`.
-/

namespace RestPlugin.Plugin

open Controller Ir Output Php Pipeline Text

/-! ## The listed files -/

namespace Sources

variable {ir : Ir} (sources : Sources ir)

/-- The syntax trees of the sources with their paths below the output directory. -/
def trees : List (String × Php.File) :=
  [(basePath, sources.base), (policyPath, sources.policy)] ++
    sources.controllers.map (fun controller =>
      (controllerPath controller.className, controller.file)) ++
    [(indexPath, indexSource (classEntries ir)), (loaderPath, sources.loader)]

/-- The files of the sources, in the order in which they are queued. -/
def listed : List Output.File :=
  (sources.trees.map fun tree => sourceFile ir.php.outputDirectory tree.1 tree.2) ++
    [sources.manifest]

/-- The files are the listed ones, queued one after another. -/
theorem files_eq : sources.files = Queue.addAll [] sources.listed := by
  simp only [files, queued, listed, trees, Queue.addAll, List.map_append, List.map_cons,
    List.map_nil, List.map_map, List.foldl_append, List.foldl_cons, List.foldl_nil]
  rfl

/-- The controllers are named like the classes of the resources. -/
theorem className_controllers :
    sources.controllers.map (·.className) = ir.resources.map className := by
  apply map_eq_of_mapM_eq_ok _ sources.controllers_eq
  intro resource composed done
  obtain ⟨pieces, rfl⟩ := exists_pieces_of_compose (mapError_eq_ok_iff.mp done)
  rfl

theorem stmts_base : sources.base.stmts = [.classDecl baseClass] := by
  obtain ⟨name, -, made⟩ := bind_eq_ok_iff.mp sources.base_eq
  rw [← Except.ok.inj made]

end Sources

/-- The paths of the listed files below the output directory. -/
def listedPaths (classNames : List String) : List String :=
  [basePath, policyPath] ++ classNames.map controllerPath ++ [indexPath, loaderPath, manifestPath]

theorem Sources.path_listed {ir : Ir} (sources : Sources ir) :
    sources.listed.map (·.path) =
      (listedPaths (ir.resources.map className)).map (below ir.php.outputDirectory) := by
  rw [← sources.className_controllers]
  simp [listed, trees, listedPaths, path_sourceFile, path_manifest]

/-! ## Paths of controllers -/

theorem basePath_eq : basePath = controllerPath "BaseController" := by decide

theorem alphanumeric_base : Alphanumeric "BaseController" := by decide

theorem nested_controllerPath (name : String) : Path.Nested (controllerPath name) := by
  have parts : splitOnChar '/' (controllerPath name) =
      splitOnChar '/' "Rest" ++ splitOnChar '/' (name ++ ".php") := by
    rw [← splitOnChar_append, controllerPath, String.append_assoc]
    rfl
  exact ⟨"Rest", splitOnChar '/' (name ++ ".php"), parts, by decide⟩

/-- The path of a controller has two parts. -/
theorem splitOnChar_controllerPath {name : String} (alphanumeric : Alphanumeric name) :
    splitOnChar '/' (controllerPath name) = ["Rest", name ++ ".php"] := by
  have free : '/' ∉ (name ++ ".php").toList := by
    rw [String.toList_append, List.mem_append, not_or]
    exact ⟨fun member => absurd (alphanumeric.alnum '/' member) (by decide), by decide⟩
  have whole : controllerPath name = "Rest" ++ String.singleton '/' ++ (name ++ ".php") := by
    rw [controllerPath, String.append_assoc]
    rfl
  rw [whole, splitOnChar_append, splitOnChar_of_not_mem free]
  rfl

/-- The path of a controller is clean. -/
theorem clean_controllerPath {name : String} (alphanumeric : Alphanumeric name) :
    Path.Clean (controllerPath name) := by
  rw [Path.Clean, splitOnChar_controllerPath alphanumeric, List.forall_mem_cons,
    List.forall_mem_singleton]
  refine ⟨by decide, fun silent => ?_⟩
  have short : ∀ silent ∈ ["", ".", ".."], silent.length < ".php".length := by decide
  have shorter := short _ silent
  rw [String.length_append] at shorter
  omega

theorem components_controllerPath {name : String} (alphanumeric : Alphanumeric name) :
    Path.components (controllerPath name) = [.name "Rest", .name (name ++ ".php")] := by
  rw [(clean_controllerPath alphanumeric).components_eq, splitOnChar_controllerPath alphanumeric]
  rfl

theorem components_controllerPath_injective {name other : String} (first : Alphanumeric name)
    (second : Alphanumeric other)
    (same : Path.components (controllerPath name) = Path.components (controllerPath other)) :
    name = other := by
  simpa [components_controllerPath first, components_controllerPath second] using same

theorem lowerExtension_controllerPath {name : String} (alphanumeric : Alphanumeric name) :
    Path.lowerExtension (controllerPath name) = some "php" := by
  have named : Path.fileName (controllerPath name) = some (name ++ "." ++ "php") := by
    rw [Path.fileName, components_controllerPath alphanumeric, String.append_assoc]
    rfl
  rw [Path.lowerExtension, Path.extension_eq named alphanumeric.nonempty (by decide)]
  rfl

/-- The places of a controller and of the fixed files other than the base class differ. -/
theorem components_controllerPath_ne {name : String} (alphanumeric : Alphanumeric name) :
    ∀ path ∈ [policyPath, indexPath, loaderPath, manifestPath],
      Path.components (controllerPath name) ≠ Path.components path := by
  have others : ∀ path ∈ [policyPath, indexPath, loaderPath, manifestPath],
      (Path.components path).head? ≠ some (.name "Rest") := by decide
  intro path member same
  apply others path member
  rw [← same, components_controllerPath alphanumeric]
  rfl

/-- The listed paths are apart exactly if the names of the controllers are, that of the base class
among them. -/
theorem nodup_components_listedPaths_iff {classNames : List String}
    (alphanumeric : ∀ name ∈ classNames, Alphanumeric name) :
    ((listedPaths classNames).map Path.components).Nodup ↔
      ("BaseController" :: classNames).Nodup := by
  have all : ∀ name ∈ "BaseController" :: classNames, Alphanumeric name :=
    List.forall_mem_cons.mpr ⟨alphanumeric_base, alphanumeric⟩
  -- The base class stands in the directory of the controllers, the other fixed files do not.
  have arranged : (listedPaths classNames).Perm
      ([policyPath, indexPath, loaderPath, manifestPath] ++
        ("BaseController" :: classNames).map controllerPath) := by
    rw [listedPaths, basePath_eq]
    apply (List.Perm.swap policyPath _ _).trans
    apply List.Perm.cons policyPath
    change (controllerPath "BaseController" :: classNames.map controllerPath ++
      [indexPath, loaderPath, manifestPath]).Perm _
    exact List.perm_append_comm
  rw [(arranged.map _).nodup_iff, List.map_append, List.nodup_append]
  constructor
  · rintro ⟨-, kept, -⟩
    exact (kept.of_map _).of_map _
  · intro distinct
    refine ⟨by decide, ?_, ?_⟩
    · rw [List.map_map]
      apply distinct.map_on
      exact fun name member other otherMem same =>
        components_controllerPath_injective (all name member) (all other otherMem) same
    · simp only [List.forall_mem_map]
      exact fun path fixed name member same =>
        components_controllerPath_ne (all name member) path fixed same.symm

/-! ## Which files are kept -/

/-- Every listed path is nested. -/
theorem nested_of_mem_listedPaths {classNames : List String} {path : String}
    (member : path ∈ listedPaths classNames) : Path.Nested path := by
  simp only [listedPaths, List.mem_append, List.mem_cons, List.mem_map, List.not_mem_nil, or_false]
    at member
  rcases member with ((rfl | rfl) | ⟨name, -, rfl⟩) | rfl | rfl | rfl
  · exact ⟨_, _, rfl, by decide⟩
  · exact ⟨_, _, rfl, by decide⟩
  · exact nested_controllerPath name
  · exact ⟨_, _, rfl, by decide⟩
  · exact ⟨_, _, rfl, by decide⟩
  · exact ⟨_, _, rfl, by decide⟩

/-- Nested paths are the same below the output directory exactly if they are by themselves. -/
theorem same_below {path other : String} (first : Path.Nested path) (second : Path.Nested other) :
    Path.same (below phpOutputDirectory path) (below phpOutputDirectory other) =
      Path.same path other := by
  rw [below_phpOutputDirectory, below_phpOutputDirectory, Path.same_join _ first second]

/-- The files of the trees are the sources among the listed files. -/
theorem Sources.extension_of_mem_trees {ir : Ir} (sources : Sources ir) {path : String}
    {tree : Php.File} (member : (path, tree) ∈ sources.trees) :
    (sourceFile phpOutputDirectory path tree).extension = some "php" := by
  have classNames := sources.className_controllers
  simp only [trees, List.mem_append, List.mem_cons, List.mem_map, Prod.mk.injEq, List.not_mem_nil,
    or_false] at member
  have ofPath (nested : Path.Nested path) (php : Path.lowerExtension path = some "php") :
      (sourceFile phpOutputDirectory path tree).extension = some "php" := by
    rw [Output.File.extension, path_sourceFile, below_phpOutputDirectory, Path.lowerExtension,
      Path.extension_join _ nested]
    exact php
  rcases member with ((⟨rfl, -⟩ | ⟨rfl, -⟩) | ⟨controller, member, rfl, -⟩) | ⟨rfl, -⟩ | ⟨rfl, -⟩
  · exact ofPath ⟨_, _, rfl, by decide⟩ (by decide)
  · exact ofPath ⟨_, _, rfl, by decide⟩ (by decide)
  · obtain ⟨resource, -, nameEq⟩ := List.mem_map.mp
      (classNames ▸ List.mem_map_of_mem (f := Composed.className) member)
    apply ofPath (nested_controllerPath _) (lowerExtension_controllerPath _)
    rw [← nameEq]
    exact alphanumeric_className resource
  · exact ofPath ⟨_, _, rfl, by decide⟩ (by decide)
  · exact ofPath ⟨_, _, rfl, by decide⟩ (by decide)

/-- The listed files are distinct exactly if the names of the controllers are. -/
theorem Sources.distinct_listed_iff {ir : Ir} (sources : Sources ir)
    (directory : ir.php.outputDirectory = phpOutputDirectory) :
    Queue.Distinct sources.listed ↔ ("BaseController" :: ir.resources.map className).Nodup := by
  have alphanumeric : ∀ name ∈ ir.resources.map className, Alphanumeric name :=
    List.forall_mem_map.mpr fun resource _ => alphanumeric_className resource
  rw [← nodup_components_listedPaths_iff alphanumeric, Queue.Distinct,
    ← List.pairwise_map (R := fun path other => Path.same path other = false), sources.path_listed,
    directory, List.pairwise_map, List.Nodup, List.pairwise_map]
  apply List.Pairwise.iff_of_mem
  intro path other member otherMem
  rw [same_below (nested_of_mem_listedPaths member) (nested_of_mem_listedPaths otherMem),
    Ne, ← Path.same_iff, Bool.not_eq_true]

/-- The pascal cases of the resource names differ from one another and from `Base`. -/
def Separate (config : Config) : Prop :=
  ("Base" :: config.resources.map fun entry => pascalCase entry.2.name).Nodup

section Parts

variable {loaded : Config.Loaded} (parts : Core.Parts loaded)

theorem className_of_parts :
    (parts.ir.resources.map className).Perm
      (loaded.config.resources.map fun entry => pascalCase entry.2.name ++ "Controller") := by
  have names := parts.map_name_resources.map fun name => pascalCase name ++ "Controller"
  rw [List.map_map, List.map_map] at names
  exact names

/-- The names of the controllers are distinct exactly if those of the
configuration are separate. -/
theorem nodup_classNames_iff :
    ("BaseController" :: parts.ir.resources.map className).Nodup ↔ Separate loaded.config := by
  have written :
      "BaseController" :: loaded.config.resources.map
        (fun entry => pascalCase entry.2.name ++ "Controller") =
      ("Base" :: loaded.config.resources.map fun entry => pascalCase entry.2.name).map
        (· ++ "Controller") := by
    rw [List.map_cons, List.map_map]
    rfl
  rw [((className_of_parts parts).cons _).nodup_iff, written, Separate]
  constructor
  · exact List.Nodup.of_map _
  · intro distinct
    exact distinct.map fun name other same => (String.append_left_inj _).mp same

theorem base_of_mem_classNames (taken : "BaseController" ∈ parts.ir.resources.map className) :
    "Base" ∈ loaded.config.resources.map fun entry => pascalCase entry.2.name := by
  obtain ⟨entry, member, nameEq⟩ := List.mem_map.mp ((className_of_parts parts).mem_iff.mp taken)
  have written : pascalCase entry.2.name ++ "Controller" = "Base" ++ "Controller" := nameEq
  exact List.mem_map.mpr ⟨entry, member, (String.append_left_inj _).mp written⟩

end Parts

theorem Sources.length_listed {ir : Ir} (sources : Sources ir) :
    sources.listed.length = ir.resources.length + 5 := by
  have paths := congrArg List.length sources.path_listed
  simpa [listedPaths] using paths

/-- No other file has the path of the base class, unless a resource is named like it. -/
theorem components_ne_of_mem_tail_listedPaths {classNames : List String}
    (alphanumeric : ∀ name ∈ classNames, Alphanumeric name)
    (notBase : "BaseController" ∉ classNames) {path : String}
    (member : path ∈ (listedPaths classNames).tail) :
    Path.components path ≠ Path.components basePath := by
  rw [listedPaths, List.cons_append, List.cons_append, List.tail_cons, List.mem_append,
    List.mem_append, List.mem_map] at member
  rw [basePath_eq]
  rcases member with (fixed | ⟨name, named, rfl⟩) | fixed
  · exact (components_controllerPath_ne alphanumeric_base path (by simp_all)).symm
  · intro same
    rw [components_controllerPath_injective (alphanumeric name named) alphanumeric_base same]
      at named
    exact notBase named
  · exact (components_controllerPath_ne alphanumeric_base path (List.mem_cons_of_mem _ fixed)).symm

/-- The base class stays in its place unless a controller has its name. -/
theorem Sources.get?_basePath {ir : Ir} (sources : Sources ir)
    (directory : ir.php.outputDirectory = phpOutputDirectory)
    (notBase : "BaseController" ∉ ir.resources.map className) :
    sources.files.get? (below phpOutputDirectory basePath) =
      some (sourceFile phpOutputDirectory basePath sources.base) := by
  have alphanumeric : ∀ name ∈ ir.resources.map className, Alphanumeric name :=
    List.forall_mem_map.mpr fun resource _ => alphanumeric_className resource
  obtain ⟨later, listedEq⟩ : ∃ later,
      sources.listed = sourceFile phpOutputDirectory basePath sources.base :: later := by
    rw [← directory]
    exact ⟨_, rfl⟩
  have laterPaths : later.map (·.path) =
      ((listedPaths (ir.resources.map className)).tail).map (below phpOutputDirectory) := by
    have paths := congrArg List.tail sources.path_listed
    rwa [listedEq, directory, List.map_cons, List.tail_cons, ← List.map_tail] at paths
  have apart : ∀ file ∈ later, Path.same file.path (below phpOutputDirectory basePath) = false := by
    rw [← List.forall_mem_map (f := Output.File.path)
      (P := fun path => Path.same path (below phpOutputDirectory basePath) = false), laterPaths,
      List.forall_mem_map]
    intro path member
    have nested : Path.Nested basePath := ⟨_, _, rfl, by decide⟩
    rw [same_below (nested_of_mem_listedPaths (List.mem_of_mem_tail member)) nested,
      Bool.eq_false_iff, Ne, Path.same_iff]
    exact components_ne_of_mem_tail_listedPaths alphanumeric notBase member
  have gone : later.reverse.find?
      (fun file => Path.same file.path (below phpOutputDirectory basePath)) = none := by
    rw [List.find?_eq_none]
    intro file member
    simpa using apart file (List.mem_reverse.mp member)
  rw [sources.files_eq, Queue.get?_addAll, listedEq, List.reverse_cons, List.find?_append, gone,
    List.find?_singleton, path_sourceFile, Path.same_self]
  rfl

/-- All listed files are kept exactly if they are distinct. -/
theorem Sources.files_eq_listed_iff {ir : Ir} (sources : Sources ir) :
    sources.files = sources.listed ↔ Queue.Distinct sources.listed := by
  constructor
  · intro same
    have distinct := sources.files_distinct
    rwa [same] at distinct
  · intro distinct
    have start : Queue.Distinct ([] ++ sources.listed) := distinct
    rw [sources.files_eq, Queue.addAll_eq_append start, List.nil_append]

/-- The names of a configuration are separate exactly if the listed files are distinct. -/
theorem Sources.separate_iff {loaded : Config.Loaded} {parts : Core.Parts loaded}
    (sources : Sources parts.ir) :
    Separate loaded.config ↔ Queue.Distinct sources.listed := by
  rw [sources.distinct_listed_iff (outputDirectory_ir parts), nodup_classNames_iff parts]

/-- No file is lost exactly if the names of the controllers are apart. -/
theorem Sources.length_files_iff {loaded : Config.Loaded} {parts : Core.Parts loaded}
    (sources : Sources parts.ir) :
    Separate loaded.config ↔ sources.files.length = loaded.config.resources.length + 5 := by
  have count : sources.listed.length = loaded.config.resources.length + 5 := by
    have resources := parts.map_name_resources.length_eq
    rw [List.length_map, List.length_map] at resources
    rw [sources.length_listed, resources]
  rw [sources.separate_iff, ← Queue.length_addAll_iff, count, sources.files_eq]

/-- A run keeps the files of its sources, five of them fixed and one for each resource, exactly if
the pascal cases of the resource names are apart.  Under each path stays the file that was queued
last, which is the base class for the path of the base class unless a resource takes it. -/
theorem controllers_kept_iff_separate {loaded : Config.Loaded} {requested : List String}
    {context after : Context} {result : Result}
    (success : pipeline.run loaded requested context = (.ok result, after)) :
    (result.ir.resources.map Resource.name).Perm (loaded.config.resources.map (·.2.name)) ∧
    ∃ sources : Sources result.ir,
      sources.listed.map (·.path) =
        (listedPaths (result.ir.resources.map className)).map (below phpOutputDirectory) ∧
      sources.base.stmts = [.classDecl baseClass] ∧
      result.files.Distinct ∧
      (∀ path, result.files.get? path =
        sources.listed.reverse.find? fun file => Path.same file.path path) ∧
      ("Base" ∉ (loaded.config.resources.map fun entry => pascalCase entry.2.name) →
        result.files.get? (below phpOutputDirectory basePath) =
          some (sourceFile phpOutputDirectory basePath sources.base)) ∧
      (Separate loaded.config ↔ result.files = sources.listed) ∧
      (Separate loaded.config ↔ result.files.length = loaded.config.resources.length + 5) := by
  obtain ⟨parts, sources, irEq, filesEq⟩ := exists_sources_of_run success
  obtain ⟨ir, files, diagnostics, steps⟩ := result
  simp only at irEq filesEq
  subst irEq filesEq
  have directory := outputDirectory_ir parts
  have names := parts.map_name_resources
  refine ⟨names, sources, sources.path_listed, sources.stmts_base, sources.files_distinct, ?_, ?_,
    ?_, ?_⟩
  · intro path
    rw [sources.files_eq, Queue.get?_addAll]
    exact Option.or_none
  · intro notBase
    apply sources.get?_basePath directory
    exact fun taken => notBase (base_of_mem_classNames parts taken)
  · rw [sources.separate_iff, sources.files_eq_listed_iff]
  · exact sources.length_files_iff

/-- A resource without storage, with one listing. -/
def unstored (name path : String) : Config.Resource where
  name := name
  routes := { list := some ⟨path, .get, none⟩ }
  identity := none
  storage := none
  schema := some .auto
  cacheKeys := none
  queryParams := none
  capabilities := none

/-- A text that declares two resources. -/
def pairSource (first second : String) : String :=
  "version = 1\nnamespace = \"acme\"\n[resources.first]\nname = \"" ++ first ++
    "\"\nschema = \"auto\"\nroutes.list = \x7b path = \"/acme/v1/runs\", method = \"GET\" \x7d\n" ++
    "[resources.second]\nname = \"" ++ second ++
    "\"\nschema = \"auto\"\nroutes.list = \x7b path = \"/acme/v1/tasks\", method = \"GET\" \x7d\n"

/-- The resources of the text. -/
def pair (first second : String) : List (String × Config.Resource) :=
  [("first", unstored first "/acme/v1/runs"), ("second", unstored second "/acme/v1/tasks")]

/-- The sources can be generated from a checked configuration if no word of it is misnamed. -/
theorem exists_sources_acme {resources : List (String × Config.Resource)}
    (checked : (acme resources).config.Checked)
    (sorted : resources.Pairwise fun first second => declarationLe first second = true)
    (resolved : Succeeds (buildResourceList "acme" { schemas := [] } resources))
    (capabilities : Succeeds (declarations (acme resources).config))
    (named : ¬Misnamed "acme" (acme resources).config) :
    ∃ parts : Core.Parts (acme resources), Nonempty (Sources parts.ir) := by
  obtain ⟨parts, slugEq⟩ := exists_parts_acme resources sorted resolved capabilities
  have composed := nonempty_sources_iff_of_parts checked parts
  rw [slugEq] at composed
  exact ⟨parts, composed.mpr named⟩

/-- A run on an accepted configuration succeeds if no word of it is misnamed. -/
theorem exists_run_acme {resources : List (String × Config.Resource)} {format : Config.Format}
    {source : String} {warnings : List Config.Warning}
    (accepted : Config.parse format source = .ok ((acme resources).config, warnings))
    (sorted : resources.Pairwise fun first second => declarationLe first second = true)
    (resolved : Succeeds (buildResourceList "acme" { schemas := [] } resources))
    (capabilities : Succeeds (declarations (acme resources).config))
    (named : ¬Misnamed "acme" (acme resources).config) :
    ∃ (parts : Core.Parts (acme resources)) (sources : Sources parts.ir) (result : Result)
      (after : Context), pipeline.run (acme resources) [] {} = (.ok result, after) ∧
        result.files = sources.files := by
  obtain ⟨parts, ⟨sources⟩⟩ :=
    exists_sources_acme (Config.checked_of_parse accepted) sorted resolved capabilities named
  obtain ⟨result, after, success, -, filesEq⟩ := run_of_sources parts sources [] {}
  exact ⟨parts, sources, result, after, success, filesEq⟩

theorem controllers_kept_iff_separate_runs :
    ∃ result after,
      Config.parse .toml (pairSource "job-run" "task-run") =
        .ok ((acme (pair "job-run" "task-run")).config, []) ∧
      pipeline.run (acme (pair "job-run" "task-run")) [] {} = (.ok result, after) ∧
      result.files.length = 7 := by
  have literal {l : List Char} : (String.ofList l).toList = l := String.toList_ofList
  have accepted : Config.parse .toml (pairSource "job-run" "task-run") =
      .ok ((acme (pair "job-run" "task-run")).config, []) :=
    Config.parse_eq_ok_of_toList (toList_append_eq (toList_append_eq (toList_append_eq
      (toList_append_eq (toList_append_eq literal literal) literal) literal) literal) literal)
      (by decide +kernel) (by decide +kernel)
  obtain ⟨-, -, result, after, success, -⟩ := exists_run_acme accepted (by decide +kernel)
    (exists_eq_ok (by decide +kernel)) (exists_eq_ok (by decide +kernel)) (by decide +kernel)
  obtain ⟨-, sources, -, -, -, -, -, -, counted⟩ := controllers_kept_iff_separate success
  have separate : Separate (acme (pair "job-run" "task-run")).config := by
    rw [Separate]
    decide +kernel
  exact ⟨result, after, accepted, success, counted.mp separate⟩

/-- The names `job-run` and `job_run` are different, but have one pascal case. -/
theorem controller_lost_of_alike_names :
    ∃ result after,
      Config.parse .toml (pairSource "job-run" "job_run") =
        .ok ((acme (pair "job-run" "job_run")).config, []) ∧
      pipeline.run (acme (pair "job-run" "job_run")) [] {} = (.ok result, after) ∧
      result.files.length ≠ (acme (pair "job-run" "job_run")).config.resources.length + 5 := by
  have literal {l : List Char} : (String.ofList l).toList = l := String.toList_ofList
  have accepted : Config.parse .toml (pairSource "job-run" "job_run") =
      .ok ((acme (pair "job-run" "job_run")).config, []) :=
    Config.parse_eq_ok_of_toList (toList_append_eq (toList_append_eq (toList_append_eq
      (toList_append_eq (toList_append_eq literal literal) literal) literal) literal) literal)
      (by decide +kernel) (by decide +kernel)
  obtain ⟨parts, sources, result, after, success, filesEq⟩ := exists_run_acme accepted
    (by decide +kernel) (exists_eq_ok (by decide +kernel)) (exists_eq_ok (by decide +kernel))
    (by decide +kernel)
  refine ⟨result, after, accepted, success, ?_⟩
  have together : ¬Separate (acme (pair "job-run" "job_run")).config := by
    rw [Separate]
    decide +kernel
  rw [filesEq]
  exact (sources.length_files_iff).not.mp together

end RestPlugin.Plugin
