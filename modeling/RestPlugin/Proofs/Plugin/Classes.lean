import RestPlugin.Proofs.Controller.Pieces
import RestPlugin.Proofs.Plugin.Controllers
import RestPlugin.Proofs.Plugin.Sources

/-!
# Classes of a plugin

The base class, the capability checks and the controllers stand in the namespaces below
that of the project, and their full names there are those of the table of classes,
which is where they are looked up.
-/

namespace RestPlugin

open Controller Ir Output Php Pipeline Plugin Text

namespace Php.File

/-- A file that declares one class, with a given full name. -/
def Declares (file : File) (fullName : String) : Prop :=
  ∃ space decl, file.space = some space ∧ file.stmts = [.classDecl decl] ∧
    fullName = (Name.mk (space.parts ++ [decl.name])).text

/-- The full name of a class that is named in a file.  The first part of the name may stand for a
name that the file uses, and otherwise the name is relative to the namespace of the file. -/
def fullName (file : File) (name : Name) : String :=
  match file.uses.find? fun used => used.parts.getLast? == name.parts.head? with
  | some used => (Name.mk (used.parts ++ name.parts.tail)).text
  | none => (Name.mk ((file.space.map Name.parts).getD [] ++ name.parts)).text

/-- A file that answers with a table of classes and the paths of their files, relative to its own
directory. -/
def IsClassTable (file : File) (entries : List (String × String)) : Prop :=
  file.stmts = [.returning (.record (entries.map fun (fullName, path) =>
    (fullName, .binary .concat (.constant ⟨["__DIR__"]⟩) (.string ("/" ++ path)))))]

end Php.File

namespace Plugin

/-- Every class of a table is declared in the file that the table has for it, and the table
has every file with a class. -/
structure Maps (entries : List (String × String)) (files : Queue) : Prop where
  declared : ∀ fullName path, (fullName, path) ∈ entries →
    ∃ tree : Php.File, sourceFile phpOutputDirectory path tree ∈ files ∧ tree.Declares fullName
  mapped : ∀ file ∈ files, ∀ directory ∈ ["Rest", "Policy"], ∀ rest,
    file.path = phpOutputDirectory ++ "/" ++ (directory ++ "/" ++ rest) →
      ∃ fullName, (fullName, directory ++ "/" ++ rest) ∈ entries

/-! ## Names -/

section Names

variable {ir : Ir} (php : ir.php = buildPhpProject ir.info)
  (slugChars : ∀ c ∈ ir.info.slug.toList, isSlugChar c = true)

/-- A name below the namespace of a project. -/
def projectName (ir : Ir) (later : List String) : Name := ⟨namespaceParts ir.info.slug ++ later⟩

include php in
theorem text_projectName : (projectName ir []).text = ir.php.phpNamespace := by
  rw [projectName, Name.text, List.append_nil, ← phpNamespace_eq, php]
  rfl

/-- A name one level deeper is the name, a separator and the last part. -/
theorem text_projectName_concat (later : List String) (last : String) :
    (projectName ir (later ++ [last])).text = (projectName ir later).text ++ "\\" ++ last := by
  rw [projectName, Name.text, ← List.append_assoc, join_concat _
    (List.append_ne_nil_of_left_ne_nil (namespaceParts_ne_nil _) later)]
  rfl

include slugChars in
/-- A name that is read from the text of a project name is this name. -/
theorem eq_projectName {later : List String} (alphanumeric : ∀ part ∈ later, Alphanumeric part)
    {name : Name} (made : Name.of (projectName ir later).text = .ok name) :
    name = projectName ir later := by
  apply eq_of_name_of_join _ _ made
  · exact List.append_ne_nil_of_left_ne_nil (namespaceParts_ne_nil _) later
  · exact List.forall_mem_append.mpr ⟨alphanumeric_of_mem_namespaceParts slugChars, alphanumeric⟩

include php in
/-- The namespace of the controllers is one level below the project. -/
theorem text_rest : (projectName ir ["Rest"]).text = restNamespace ir.php := by
  rw [← List.nil_append ["Rest"], text_projectName_concat, text_projectName php, restNamespace,
    String.append_assoc]
  rfl

include php in
theorem text_policy : (projectName ir ["Policy"]).text = policyNamespace ir.php := by
  rw [← List.nil_append ["Policy"], text_projectName_concat, text_projectName php, policyNamespace,
    String.append_assoc]
  rfl

theorem declares_of_space {later : List String} {file : Php.File} (decl : Php.Class)
    (spaceEq : file.space = some (projectName ir later)) (stmts : file.stmts = [.classDecl decl]) :
    file.Declares ((projectName ir later).text ++ "\\" ++ decl.name) := by
  refine ⟨_, decl, spaceEq, stmts, ?_⟩
  rw [← text_projectName_concat, projectName, projectName, List.append_assoc]

end Names

/-! ## Classes of the trees -/

theorem controllerPath_injective {name other : String}
    (same : controllerPath name = controllerPath other) : name = other := by
  rw [controllerPath, controllerPath, String.append_left_inj, String.append_right_inj] at same
  exact same

/-- No controller has the path of a file that every plugin has. -/
theorem controllerPath_ne {path : String}
    (fixed : path ∈ [policyPath, indexPath, loaderPath, manifestPath]) (name : String) :
    controllerPath name ≠ path := by
  have others : ∀ path ∈ [policyPath, indexPath, loaderPath, manifestPath],
      path.toList.head? ≠ some 'R' := by decide
  rintro rfl
  apply others _ fixed
  rw [controllerPath, String.append_assoc, String.toList_append]
  rfl

namespace Sources

variable {ir : Ir} (sources : Sources ir) (php : ir.php = buildPhpProject ir.info)
  (slugChars : ∀ c ∈ ir.info.slug.toList, isSlugChar c = true)

section Declared

include php slugChars

theorem declares_base :
    sources.base.Declares (restNamespace ir.php ++ "\\" ++ "BaseController") := by
  obtain ⟨name, nameEq, baseEq⟩ := exists_name_of_baseSource sources.base_eq
  rw [← text_rest php] at nameEq ⊢
  rw [baseEq]
  obtain rfl := eq_projectName slugChars (List.forall_mem_singleton.mpr alphanumeric_rest) nameEq
  exact declares_of_space baseClass rfl rfl

theorem declares_policy : sources.policy.Declares (policyNamespace ir.php ++ "\\" ++ "Policy") := by
  obtain ⟨name, nameEq, policyEq⟩ := exists_name_of_policySource sources.policy_eq
  rw [← text_policy php] at nameEq ⊢
  rw [policyEq]
  obtain rfl := eq_projectName slugChars (List.forall_mem_singleton.mpr alphanumeric_policy) nameEq
  exact declares_of_space (policyClass ir.capabilityMap) rfl rfl

/-- The file of a controller declares the class of its resource. -/
theorem declares_controller {controller : Composed} (member : controller ∈ sources.controllers) :
    controller.className ∈ ir.resources.map className ∧
      controller.file.Declares (restNamespace ir.php ++ "\\" ++ controller.className) := by
  obtain ⟨resource, resourceMem, composedEq⟩ :=
    exists_mem_of_mapM_eq_ok sources.controllers_eq controller member
  obtain ⟨pieces, rfl⟩ := exists_pieces_of_compose (mapError_eq_ok_iff.mp composedEq)
  refine ⟨List.mem_map_of_mem resourceMem, ?_⟩
  have nameEq := pieces.space_eq
  rw [← text_rest php] at nameEq ⊢
  have spaceEq := eq_projectName slugChars (List.forall_mem_singleton.mpr alphanumeric_rest) nameEq
  exact declares_of_space pieces.decl (pieces.space_composed.trans (congrArg some spaceEq))
    pieces.stmts_composed

/-- What the tree under a path is. -/
theorem cases_of_mem_trees {path : String} {tree : Php.File}
    (member : (path, tree) ∈ sources.trees) :
    (∃ name ∈ "BaseController" :: ir.resources.map className, path = controllerPath name ∧
      tree.Declares (restNamespace ir.php ++ "\\" ++ name)) ∨
    (path = policyPath ∧ tree.Declares (policyNamespace ir.php ++ "\\" ++ "Policy")) ∨
    (path = indexPath ∧ tree = indexSource (classEntries ir)) ∨
    (path = loaderPath ∧ tree = sources.loader) := by
  simp only [trees, List.mem_append, List.mem_cons, List.mem_map, Prod.mk.injEq, List.not_mem_nil,
    or_false] at member
  rcases member with ((⟨rfl, rfl⟩ | ⟨rfl, rfl⟩) | ⟨controller, controllerMem, rfl, rfl⟩) |
    ⟨rfl, rfl⟩ | ⟨rfl, rfl⟩
  · exact .inl ⟨_, List.mem_cons_self, basePath_eq, sources.declares_base php slugChars⟩
  · exact .inr (.inl ⟨rfl, sources.declares_policy php slugChars⟩)
  · obtain ⟨named, declares⟩ := sources.declares_controller php slugChars controllerMem
    exact .inl ⟨_, List.mem_cons_of_mem _ named, rfl, declares⟩
  · exact .inr (.inr (.inl ⟨rfl, rfl⟩))
  · exact .inr (.inr (.inr ⟨rfl, rfl⟩))

end Declared

/-! ## Entries of the table -/

/-- The table of classes has an entry for the base class, for every controller and for
the policy. -/
theorem mem_classEntries_iff {fullName path : String} : (fullName, path) ∈ classEntries ir ↔
    (∃ name ∈ "BaseController" :: ir.resources.map className, path = controllerPath name ∧
      fullName = restNamespace ir.php ++ "\\" ++ name) ∨
    (path = policyPath ∧ fullName = policyNamespace ir.php ++ "\\" ++ "Policy") := by
  have base : restNamespace ir.php ++ "\\BaseController" =
      restNamespace ir.php ++ "\\" ++ "BaseController" := by
    rw [String.append_assoc]
    rfl
  have policy : policyNamespace ir.php ++ "\\Policy" =
      policyNamespace ir.php ++ "\\" ++ "Policy" := by
    rw [String.append_assoc]
    rfl
  rw [classEntries, base, policy, basePath_eq]
  simp only [List.mem_append, List.mem_cons, List.mem_map, Prod.mk.injEq, List.not_mem_nil,
    or_false, exists_eq_or_imp, exists_exists_and_eq_and]
  constructor
  · rintro ((⟨rfl, rfl⟩ | ⟨rfl, rfl⟩) | ⟨resource, member, rfl, rfl⟩)
    · exact .inl (.inl ⟨rfl, rfl⟩)
    · exact .inr ⟨rfl, rfl⟩
    · exact .inl (.inr ⟨resource, member, rfl, rfl⟩)
  · rintro ((⟨rfl, rfl⟩ | ⟨resource, member, rfl, rfl⟩) | ⟨rfl, rfl⟩)
    · exact .inl (.inl ⟨rfl, rfl⟩)
    · exact .inr ⟨resource, member, rfl, rfl⟩
    · exact .inl (.inr ⟨rfl, rfl⟩)

/-- Every class of the table has a tree. -/
theorem exists_tree_of_mem_classEntries {fullName path : String}
    (entry : (fullName, path) ∈ classEntries ir) : ∃ tree, (path, tree) ∈ sources.trees := by
  rcases mem_classEntries_iff.mp entry with ⟨name, named, rfl, -⟩ | ⟨rfl, -⟩
  · rcases List.mem_cons.mp named with rfl | inClasses
    · exact ⟨sources.base, by simp [trees, basePath_eq]⟩
    · rw [← sources.className_controllers] at inClasses
      obtain ⟨controller, controllerMem, rfl⟩ := List.mem_map.mp inClasses
      refine ⟨controller.file, List.mem_append_left _ (List.mem_append_right _ ?_)⟩
      exact List.mem_map.mpr ⟨controller, controllerMem, rfl⟩
  · exact ⟨sources.policy, by simp [trees]⟩

include php slugChars in
/-- The tree under the path of a class declares it. -/
theorem declares_of_mem_classEntries {fullName path : String}
    (entry : (fullName, path) ∈ classEntries ir) {tree : Php.File}
    (member : (path, tree) ∈ sources.trees) : tree.Declares fullName := by
  rcases mem_classEntries_iff.mp entry with ⟨name, -, rfl, rfl⟩ | ⟨rfl, rfl⟩
  · rcases sources.cases_of_mem_trees php slugChars member with ⟨other, -, same, declares⟩ |
      ⟨same, -⟩ | ⟨same, -⟩ | ⟨same, -⟩
    · rw [controllerPath_injective same]
      exact declares
    all_goals exact absurd same (controllerPath_ne (by simp) name)
  · rcases sources.cases_of_mem_trees php slugChars member with ⟨other, -, same, -⟩ |
      ⟨-, declares⟩ | ⟨same, -⟩ | ⟨same, -⟩
    · exact absurd same.symm (controllerPath_ne (by simp) other)
    · exact declares
    all_goals exact absurd same (by decide)

end Sources

end Plugin

end RestPlugin
