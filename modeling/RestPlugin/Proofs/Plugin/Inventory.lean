import RestPlugin.Proofs.Plugin.Classes
import RestPlugin.Proofs.Plugin.Variables

/-!
# The inventory of a plugin

The table of classes, the loader and the manifest are put together apart from the files that they
speak of, from names and paths made up anew.  Still the table has every class with the file that
declares it, the loader registers the controllers of the resources by names of the table, and the
manifest lists the files before it.
-/

namespace RestPlugin

open Controller Ir Output Php Pipeline Plugin Text

/-! ## New objects -/

namespace Php

/-- An expression that makes a new object only of one of these classes. -/
def Expr.Creates (classes : List Name) (node : Expr) : Prop :=
  ∀ name args, node = .new name args → name ∈ classes

/-- A file with a function that registers the routes of these controllers one after another, which
makes no other objects. -/
structure File.Registers (file : File) (controllers : List Name) : Prop where
  registers : .function { name := "register_routes", body := controllers.map registrationOf } ∈
    file.stmts
  creates : file.Everywhere (Expr.Creates controllers)

namespace Expr

variable {classes : List Name}

/-- An expression that makes no object creates only some classes exactly if its parts do. -/
theorem everywhere_creates_iff {expr : Expr} (other : ∀ name args, expr ≠ .new name args) :
    expr.Everywhere (Creates classes) ↔ ∀ part ∈ expr.parts, part.Everywhere (Creates classes) :=
  everywhere_iff.trans (and_iff_right fun name args same => absurd same (other name args))

@[simp]
theorem everywhere_creates_var (name : String) : (var name).Everywhere (Creates classes) :=
  (everywhere_creates_iff (by simp)).mpr nofun

@[simp]
theorem everywhere_creates_string (value : String) : (string value).Everywhere (Creates classes) :=
  (everywhere_creates_iff (by simp)).mpr nofun

@[simp]
theorem everywhere_creates_constant (name : Name) : (constant name).Everywhere (Creates classes) :=
  (everywhere_creates_iff (by simp)).mpr nofun

@[simp]
theorem everywhere_creates_fn {name : String} {args : List Expr} :
    (fn name args).Everywhere (Creates classes) ↔ ∀ arg ∈ args, arg.Everywhere (Creates classes) :=
  everywhere_creates_iff nofun

@[simp]
theorem everywhere_creates_isset {args : List Expr} :
    (isset args).Everywhere (Creates classes) ↔ ∀ arg ∈ args, arg.Everywhere (Creates classes) :=
  everywhere_creates_iff nofun

@[simp]
theorem everywhere_creates_dim {base key : Expr} : (base.dim key).Everywhere (Creates classes) ↔
    base.Everywhere (Creates classes) ∧ key.Everywhere (Creates classes) :=
  (everywhere_creates_iff (by simp [dim])).trans (by simp [dim, parts])

@[simp]
theorem everywhere_creates_assign {target value : Expr} :
    (assign target value).Everywhere (Creates classes) ↔
      target.Everywhere (Creates classes) ∧ value.Everywhere (Creates classes) :=
  (everywhere_creates_iff (by simp)).trans (by simp [parts])

@[simp]
theorem everywhere_creates_binary {op : BinaryOp} {left right : Expr} :
    (binary op left right).Everywhere (Creates classes) ↔
      left.Everywhere (Creates classes) ∧ right.Everywhere (Creates classes) :=
  (everywhere_creates_iff (by simp)).trans (by simp [parts])

end Expr

/-- The loader makes objects of its controllers and no others. -/
theorem registers_loaderOf (space : Name) (controllers : List Name) :
    (loaderOf space (controllers.map registrationOf)).Registers controllers := by
  have registrations : ∀ stmt ∈ controllers.map registrationOf,
      stmt.Everywhere (Expr.Creates controllers) := by
    rw [List.forall_mem_map]
    intro controller member
    have created : (Expr.new controller []).Everywhere (Expr.Creates controllers) := by
      refine .node ?_ (List.forall_mem_nil _)
      rintro name args ⟨⟩
      exact member
    exact Stmt.everywhere_expression.mpr
      ((Expr.everywhere_creates_iff (by simp [Expr.send])).mpr
        (List.forall_mem_singleton.mpr created))
  have autoload : autoloadFunction.Everywhere (Expr.Creates controllers) :=
    Stmt.everywhere_function.mpr ⟨List.forall_mem_nil _, by simp [Stmt.setVar, Stmt.set]⟩
  have register : (Stmt.function
      { name := "register_routes", body := controllers.map registrationOf }).Everywhere
        (Expr.Creates controllers) :=
    Stmt.everywhere_function.mpr ⟨List.forall_mem_nil _, registrations⟩
  have hooks : ∀ stmt ∈ loaderHooks, stmt.Everywhere (Expr.Creates controllers) := by
    simp [loaderHooks, ownFunction]
  refine ⟨by simp [loaderOf], List.forall_mem_append.mpr ⟨?_, hooks⟩⟩
  simp only [List.forall_mem_cons]
  exact ⟨autoload, Stmt.everywhere_blank, register, Stmt.everywhere_blank, List.forall_mem_nil _⟩

end Php

/-! ## What the files of a plugin say about it -/

namespace Plugin

/-- A document tells the hash of a representation, has an entry for the controller of each resource,
and lists the files by their paths in the output directory. -/
structure Describes (document : Json) (ir : Ir) (files : Queue) : Prop where
  hash : document.field? "irHash" = some (.str ir.hash)
  controllers : ∃ entries, document.field? "controllers" = some (.arr entries) ∧
    entries.map (·.field? "name") = ir.resources.map fun resource => some (.str resource.name)
  files : ∃ paths, document.field? "files" = some (.strings paths) ∧ paths.Pairwise (· ≤ ·) ∧
    (paths.map fun path => phpOutputDirectory ++ "/" ++ path).Perm (files.map (·.path))

namespace Sources

variable {ir : Ir} (sources : Sources ir) (php : ir.php = buildPhpProject ir.info)
  (slugChars : ∀ c ∈ ir.info.slug.toList, isSlugChar c = true)

/-! ## Paths of the trees -/

theorem slash_not_mem_controllerPath {name : String} (alphanumeric : Alphanumeric name) :
    '\\' ∉ (controllerPath name).toList := by
  rw [controllerPath, String.toList_append, String.toList_append]
  simp only [List.mem_append, not_or]
  exact ⟨⟨by decide, slash_not_mem_alphanumeric alphanumeric⟩, by decide⟩

/-- The files around the classes do not stand in their directories. -/
theorem ne_of_inner {path inner : String} (fixed : path ∈ [indexPath, loaderPath, manifestPath])
    (listed : inner ∈ ["Rest", "Policy"]) (rest : String) : path ≠ inner ++ "/" ++ rest := by
  have others : ∀ path ∈ [indexPath, loaderPath, manifestPath], ∀ inner ∈ ["Rest", "Policy"],
      path.toList.take inner.toList.length ≠ inner.toList := by decide
  rintro rfl
  apply others _ fixed _ listed
  rw [String.append_assoc, String.toList_append, List.take_left']
  rfl

/-- The paths of a plugin consist of names, without a backslash. -/
theorem clean_of_mem_listedPaths {classNames : List String}
    (alphanumeric : ∀ name ∈ classNames, Alphanumeric name) :
    ∀ path ∈ listedPaths classNames, Path.Clean path ∧ '\\' ∉ path.toList := by
  have before : ∀ path ∈ [basePath, policyPath], Path.Clean path ∧ '\\' ∉ path.toList := by decide
  have after : ∀ path ∈ [indexPath, loaderPath, manifestPath],
      Path.Clean path ∧ '\\' ∉ path.toList := by decide
  simp only [listedPaths, List.forall_mem_append, List.forall_mem_map]
  exact ⟨⟨before, fun name member => ⟨clean_controllerPath (alphanumeric name member),
    slash_not_mem_controllerPath (alphanumeric name member)⟩⟩, after⟩

theorem below_of_clean {path : String} (clean : Path.Clean path) :
    below phpOutputDirectory path = phpOutputDirectory ++ "/" ++ path := by
  rw [below_phpOutputDirectory, join_phpOutputDirectory clean.nested.isAbsolute_eq]

theorem clean_phpOutputDirectory : Path.Clean phpOutputDirectory := by decide

/-- Clean paths stay apart below the output directory. -/
theorem eq_of_same_below {path other : String} (first : Path.Clean path) (second : Path.Clean other)
    (alike : Path.same (below phpOutputDirectory path) (below phpOutputDirectory other) = true) :
    path = other := by
  rw [same_below first.nested second.nested] at alike
  exact first.eq_of_same second alike

theorem paths_trees :
    sources.trees.map (·.1) ++ [manifestPath] = listedPaths (ir.resources.map className) := by
  rw [← sources.className_controllers]
  simp [trees, listedPaths]

theorem clean_of_mem_trees {tree : String × Php.File} (member : tree ∈ sources.trees) :
    Path.Clean tree.1 ∧ '\\' ∉ tree.1.toList := by
  have alphanumeric : ∀ name ∈ ir.resources.map className, Alphanumeric name :=
    List.forall_mem_map.mpr fun resource _ => alphanumeric_className resource
  apply clean_of_mem_listedPaths alphanumeric
  rw [← sources.paths_trees]
  exact List.mem_append_left _ (List.mem_map_of_mem member)

/-! ## Queued files -/

section Queued

variable (directory : ir.php.outputDirectory = phpOutputDirectory)
include directory

theorem queued_eq : sources.queued = Queue.addAll []
    (sources.trees.map fun tree => sourceFile phpOutputDirectory tree.1 tree.2) := by
  rw [← directory]
  simp only [queued, trees, Queue.addAll, List.map_append, List.map_cons, List.map_nil,
    List.map_map, List.foldl_append, List.foldl_cons, List.foldl_nil]
  rfl

theorem exists_tree_of_mem_queued {file : Output.File} (member : file ∈ sources.queued) :
    ∃ tree ∈ sources.trees, file = sourceFile phpOutputDirectory tree.1 tree.2 := by
  rw [sources.queued_eq directory] at member
  have printed := (Queue.mem_or_mem_of_mem_addAll member).resolve_left List.not_mem_nil
  obtain ⟨tree, treeMem, rfl⟩ := List.mem_map.mp printed
  exact ⟨tree, treeMem, rfl⟩

theorem path_of_mem_queued {file : Output.File} (member : file ∈ sources.queued) :
    ∃ tree ∈ sources.trees, file.path = phpOutputDirectory ++ "/" ++ tree.1 := by
  obtain ⟨tree, treeMem, rfl⟩ := sources.exists_tree_of_mem_queued directory member
  exact ⟨tree, treeMem, (path_sourceFile _ _ _).trans
    (below_of_clean (sources.clean_of_mem_trees treeMem).1)⟩

/-- Under the path of each tree a tree is queued. -/
theorem exists_kept {path : String} {tree : Php.File} (member : (path, tree) ∈ sources.trees) :
    ∃ kept, (path, kept) ∈ sources.trees ∧
      sourceFile phpOutputDirectory path kept ∈ sources.queued := by
  obtain ⟨file, fileMem, queuedMem, alike⟩ := Queue.exists_same_of_mem
    (List.mem_map_of_mem (f := fun tree => sourceFile phpOutputDirectory tree.1 tree.2) member)
  rw [← sources.queued_eq directory] at queuedMem
  obtain ⟨⟨other, kept⟩, keptMem, rfl⟩ := List.mem_map.mp fileMem
  rw [path_sourceFile, path_sourceFile] at alike
  obtain rfl := eq_of_same_below (sources.clean_of_mem_trees keptMem).1
    (sources.clean_of_mem_trees member).1 alike
  exact ⟨kept, keptMem, queuedMem⟩

end Queued

/-! ## The table of classes -/

section Table

include php in
theorem directory_of_php : ir.php.outputDirectory = phpOutputDirectory := by
  rw [php]
  rfl

include php slugChars

/-- The manifest is the last file. -/
theorem files_eq_append : sources.files = sources.queued ++ [sources.manifest] := by
  have directory := directory_of_php php
  apply Queue.add_eq_append
  intro file member
  obtain ⟨tree, treeMem, rfl⟩ := sources.exists_tree_of_mem_queued directory member
  rw [Bool.eq_false_iff]
  intro alike
  rw [path_sourceFile, sources.path_manifest, directory] at alike
  have pathEq : tree.1 = manifestPath :=
    eq_of_same_below (sources.clean_of_mem_trees treeMem).1 (by decide) alike
  rcases sources.cases_of_mem_trees php slugChars treeMem with ⟨name, -, samePath, -⟩ | rest
  · exact controllerPath_ne (by simp) name (samePath.symm.trans pathEq)
  · rw [pathEq] at rest
    rcases rest with ⟨same, -⟩ | ⟨same, -⟩ | ⟨same, -⟩ <;> exact absurd same (by decide)

/-- Every file in a directory of classes has an entry in the table. -/
theorem exists_entry {file : Output.File} (member : file ∈ sources.files) {inner rest : String}
    (listed : inner ∈ ["Rest", "Policy"])
    (pathEq : file.path = phpOutputDirectory ++ "/" ++ (inner ++ "/" ++ rest)) :
    ∃ fullName, (fullName, inner ++ "/" ++ rest) ∈ classEntries ir := by
  have directory := directory_of_php php
  have apart : ∀ path ∈ [indexPath, loaderPath, manifestPath], path ≠ inner ++ "/" ++ rest :=
    fun path fixed => ne_of_inner fixed listed rest
  rw [sources.files_eq_append php slugChars, List.mem_append, List.mem_singleton] at member
  rcases member with inQueue | rfl
  · obtain ⟨⟨path, tree⟩, treeMem, samePath⟩ := sources.path_of_mem_queued directory inQueue
    rw [pathEq, String.append_right_inj] at samePath
    rcases sources.cases_of_mem_trees php slugChars treeMem with ⟨name, named, same, -⟩ |
      ⟨same, -⟩ | ⟨same, -⟩ | ⟨same, -⟩
    · exact ⟨_, mem_classEntries_iff.mpr (.inl ⟨name, named, samePath.trans same, rfl⟩)⟩
    · exact ⟨_, mem_classEntries_iff.mpr (.inr ⟨samePath.trans same, rfl⟩)⟩
    · exact absurd (same.symm.trans samePath.symm) (apart _ (by simp))
    · exact absurd (same.symm.trans samePath.symm) (apart _ (by simp))
  · rw [sources.path_manifest, directory, below_of_clean (by decide), String.append_right_inj]
      at pathEq
    exact absurd pathEq (apart _ (by simp))

/-- The table of classes tells the file of every class. -/
theorem maps : Maps ((classEntries ir).mergeSort entryLe) sources.files := by
  constructor
  · intro fullName path entry
    rw [List.mem_mergeSort] at entry
    obtain ⟨tree, treeMem⟩ := sources.exists_tree_of_mem_classEntries entry
    obtain ⟨kept, keptMem, queuedMem⟩ := sources.exists_kept (directory_of_php php) treeMem
    rw [sources.files_eq_append php slugChars]
    exact ⟨kept, List.mem_append_left _ queuedMem,
      sources.declares_of_mem_classEntries php slugChars entry keptMem⟩
  · intro file member inner listed rest pathEq
    obtain ⟨fullName, entry⟩ := sources.exists_entry php slugChars member listed pathEq
    exact ⟨fullName, List.mem_mergeSort.mpr entry⟩

end Table

/-! ## The loader -/

section Loader

include php slugChars

/-- The loader registers the controllers of the resources by their full names. -/
theorem exists_registered : ∃ controllers, sources.loader.Registers controllers ∧
    controllers.map sources.loader.fullName =
      ir.resources.map fun resource => restNamespace ir.php ++ "\\" ++ className resource := by
  obtain ⟨space, controllers, spaceEq, controllersEq, loaderEq⟩ :=
    exists_names_of_loaderSource sources.loader_eq
  rw [← text_projectName php] at spaceEq
  obtain rfl := eq_projectName slugChars (by simp) spaceEq
  have named :
      controllers.map id = ir.resources.map fun resource => ⟨["Rest", className resource]⟩ := by
    rw [controllerNames, List.mapM_map] at controllersEq
    refine map_eq_of_mapM_eq_ok (fun resource name nameEq => ?_) controllersEq
    have joined : "Rest\\" ++ className resource = join "\\" ["Rest", className resource] := rfl
    rw [Function.comp_apply, joined] at nameEq
    exact eq_of_name_of_join (List.cons_ne_nil _ _)
      (by simp [alphanumeric_rest, alphanumeric_className]) nameEq
  refine ⟨controllers, by rw [loaderEq]; exact registers_loaderOf _ _, ?_⟩
  rw [List.map_id] at named
  rw [loaderEq, named, List.map_map]
  apply List.map_congr_left
  intro resource member
  rw [← text_rest php, ← text_projectName_concat]
  simp [Php.File.fullName, loaderOf, projectName]

theorem mem_queued_loader :
    sourceFile phpOutputDirectory loaderPath sources.loader ∈ sources.queued := by
  have listed : (loaderPath, sources.loader) ∈ sources.trees := by simp [trees]
  obtain ⟨kept, keptMem, queuedMem⟩ := sources.exists_kept (directory_of_php php) listed
  rcases sources.cases_of_mem_trees php slugChars keptMem with ⟨name, -, same, -⟩ | ⟨same, -⟩ |
    ⟨same, -⟩ | ⟨-, rfl⟩
  · exact absurd same.symm (controllerPath_ne (by simp) name)
  · exact absurd same (by decide)
  · exact absurd same (by decide)
  · exact queuedMem

theorem mem_queued_index :
    sourceFile phpOutputDirectory indexPath (indexSource (classEntries ir)) ∈ sources.queued := by
  have listed : (indexPath, indexSource (classEntries ir)) ∈ sources.trees := by simp [trees]
  obtain ⟨kept, keptMem, queuedMem⟩ := sources.exists_kept (directory_of_php php) listed
  rcases sources.cases_of_mem_trees php slugChars keptMem with ⟨name, -, same, -⟩ | ⟨same, -⟩ |
    ⟨-, rfl⟩ | ⟨same, -⟩
  · exact absurd same.symm (controllerPath_ne (by simp) name)
  · exact absurd same (by decide)
  · exact queuedMem
  · exact absurd same (by decide)

end Loader

/-! ## The manifest -/

theorem names_metadata :
    sources.controllers.map (·.metadata.name) = ir.resources.map Resource.name := by
  refine map_eq_of_mapM_eq_ok (fun resource composed composedEq => ?_) sources.controllers_eq
  obtain ⟨pieces, rfl⟩ := exists_pieces_of_compose (mapError_eq_ok_iff.mp composedEq)
  rfl

theorem relativeTo_of_mem_queued (directory : ir.php.outputDirectory = phpOutputDirectory)
    {file : Output.File} (member : file ∈ sources.queued) :
    phpOutputDirectory ++ "/" ++
      replaceChar '\\' "/" (Path.relativeTo phpOutputDirectory file.path) = file.path := by
  obtain ⟨tree, treeMem, pathEq⟩ := sources.path_of_mem_queued directory member
  obtain ⟨clean, free⟩ := sources.clean_of_mem_trees treeMem
  rw [pathEq, Path.relativeTo_append clean_phpOutputDirectory clean, replaceChar_of_not_mem _ free]

theorem pairwise_relativePaths (directory : String) (files : Queue) :
    (relativePaths directory files).Pairwise (· ≤ ·) := by
  have trans (a b c : String) (first : (!decide (b < a)) = true)
      (second : (!decide (c < b)) = true) : (!decide (c < a)) = true := by
    simp only [Bool.not_eq_true', decide_eq_false_iff_not, not_lt] at *
    exact le_trans first second
  have total (a b : String) : (!decide (b < a) || !decide (a < b)) = true := by
    simp only [Bool.or_eq_true, Bool.not_eq_true', decide_eq_false_iff_not, not_lt]
    exact le_total a b
  refine (List.pairwise_mergeSort trans total _).imp fun ordered => ?_
  simpa only [Bool.not_eq_true', decide_eq_false_iff_not, not_lt] using ordered

/-- The manifest describes the representation and the files. -/
theorem describes_manifest (directory : ir.php.outputDirectory = phpOutputDirectory) :
    Describes (Plugin.manifest ir (sources.controllers.map (·.metadata))
      (relativePaths ir.php.outputDirectory sources.queued)) ir sources.queued where
  hash := rfl
  controllers := by
    refine ⟨_, rfl, ?_⟩
    have names := congrArg (List.map fun name => some (Json.str name)) sources.names_metadata
    rw [List.map_map, List.map_map] at names
    rw [List.map_map, List.map_map]
    exact names
  files := by
    refine ⟨_, rfl, pairwise_relativePaths _ _, ?_⟩
    rw [directory, relativePaths]
    refine ((List.mergeSort_perm _ _).map _).trans (List.Perm.of_eq ?_)
    rw [List.map_map]
    exact List.map_congr_left fun file member => sources.relativeTo_of_mem_queued directory member

end Sources

/-- Whenever a run succeeds, the table of classes maps the full name of each class to the file that
declares it, the loader registers the controllers of the resources, which are in the table, and the
manifest comes last and describes the files before it. -/
theorem inventory_of_run {loaded : Config.Loaded} {requested : List String}
    {context after : Context} {result : Result}
    (success : pipeline.run loaded requested context = (.ok result, after)) :
    ∃ (index loader : Php.File) (entries : List (String × String)) (controllers : List Php.Name)
      (others : Queue) (last : Output.File) (document : Json),
      result.files = others ++ [last] ∧
      sourceFile phpOutputDirectory indexPath index ∈ others ∧ index.IsClassTable entries ∧
      Maps entries result.files ∧
      sourceFile phpOutputDirectory loaderPath loader ∈ others ∧ loader.Registers controllers ∧
      controllers.map loader.fullName = result.ir.resources.map (fun resource =>
        restNamespace result.ir.php ++ "\\" ++ className resource) ∧
      (∀ controller ∈ controllers, ∃ path, (loader.fullName controller, path) ∈ entries) ∧
      last.path = phpOutputDirectory ++ "/" ++ manifestPath ∧
      last.content = document.pretty ++ "\n" ∧ Describes document result.ir others := by
  obtain ⟨parts, sources, irEq, filesEq⟩ := exists_sources_of_run success
  obtain ⟨ir, files, diagnostics, steps⟩ := result
  simp only at irEq filesEq
  subst irEq filesEq
  have php : parts.ir.php = buildPhpProject parts.ir.info := rfl
  have slugChars := isSlugChar_of_sanitizeNamespace (slug_of_parts parts)
  obtain ⟨controllers, registers, names⟩ := sources.exists_registered php slugChars
  refine ⟨indexSource (classEntries parts.ir), sources.loader,
    (classEntries parts.ir).mergeSort entryLe, controllers, sources.queued, sources.manifest, _,
    sources.files_eq_append php slugChars, sources.mem_queued_index php slugChars, rfl,
    sources.maps php slugChars, sources.mem_queued_loader php slugChars, registers, names, ?_, ?_,
    rfl, sources.describes_manifest (Sources.directory_of_php php)⟩
  · intro controller member
    have named : sources.loader.fullName controller ∈ controllers.map sources.loader.fullName :=
      List.mem_map_of_mem member
    rw [names] at named
    obtain ⟨resource, resourceMem, nameEq⟩ := List.mem_map.mp named
    refine ⟨controllerPath (className resource), List.mem_mergeSort.mpr ?_⟩
    exact Sources.mem_classEntries_iff.mpr (.inl ⟨className resource,
      List.mem_cons_of_mem _ (List.mem_map_of_mem resourceMem), rfl, nameEq.symm⟩)
  · rw [sources.path_manifest, Sources.directory_of_php php, Sources.below_of_clean (by decide)]

theorem inventory_of_run_articles :
    ∃ (result : Result) (after : Context) (index loader : Php.File)
      (entries : List (String × String)) (controllers : List Php.Name) (others : Queue)
      (last : Output.File) (document : Json),
      pipeline.run (acme articles) [] {} = (.ok result, after) ∧ result.files = others ++ [last] ∧
      index.IsClassTable entries ∧ Maps entries result.files ∧ loader.Registers controllers ∧
      last.content = document.pretty ++ "\n" ∧ Describes document result.ir others := by
  obtain ⟨parts, ⟨sources⟩⟩ := exists_sources_articles
  obtain ⟨result, after, success, -⟩ := run_of_sources parts sources [] {}
  obtain ⟨index, loader, entries, controllers, others, last, document, filesEq, -, table, maps, -,
    registers, -, -, -, content, describes⟩ := inventory_of_run success
  exact ⟨result, after, index, loader, entries, controllers, others, last, document, success,
    filesEq, table, maps, registers, content, describes⟩

end Plugin

end RestPlugin
