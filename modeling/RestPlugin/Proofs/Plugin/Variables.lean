import RestPlugin.Proofs.Controller.Handlers
import RestPlugin.Proofs.Handler.Variables
import RestPlugin.Proofs.Plugin.Capabilities
import RestPlugin.Proofs.Plugin.Comments
import RestPlugin.Proofs.Plugin.Sources

/-!
# Variables of a plugin

Every function of every generated source finds the variables it reads, on whatever
path it is left: the handlers and private methods of controllers, the capability
check, the base class and the loader.
-/

namespace RestPlugin

open Controller Ir Output Php Pipeline Plugin Text

/-! ## Controllers -/

namespace Controller

theorem uses_requestArgs (resource : Resource) {given : List String} :
    ∀ field ∈ requestArgs resource, field.2.Uses given :=
  forall_mem_requestArgs Expr.uses_string Expr.uses_bool Expr.uses_stringList
    (fun _ => Expr.uses_record.mpr) resource

theorem settled_answering {name type : String} {value : Expr} (uses : value.Uses ["this"]) :
    (answering name type value).Settled :=
  ⟨rfl, by simpa [answering, FunctionOf.given] using uses⟩

theorem settled_selfDescription (resource : Resource) :
    ∀ method ∈ selfDescription resource, method.Settled := by
  have entry (endpoint : Endpoint) : (endpoint.entry resource.identity).Uses ["this"] := by
    simp [Endpoint.entry]
  have table : (Expr.array ((endpoints resource).map fun endpoint =>
      .plain (endpoint.entry resource.identity))).Uses ["this"] :=
    Expr.uses_array.mpr (Expr.forall_mem_parts_plain.mpr fun endpoint _ => entry endpoint)
  simp only [selfDescription, List.forall_mem_cons]
  exact ⟨settled_answering (by simp), settled_answering (by simp),
    settled_answering (Expr.uses_record.mpr (uses_requestArgs resource)), settled_answering table,
    List.forall_mem_nil _⟩

theorem allSettled_checks (endpoint : Endpoint) : AllSettled ["request"] endpoint.checks := by
  rw [Endpoint.checks]
  split
  · exact allSettled_nil
  · exact (Snippet.allSettled_capabilityGuard _).append (by simp : AllSettled [] [.blank])
      (List.nil_subset _)

theorem settled_handlers {ir : Ir} {resource : Resource} (pieces : Pieces ir resource) :
    ∀ pair ∈ pieces.handlers, pair.1.Settled := by
  intro pair member
  obtain ⟨endpoint, -, methodEq⟩ := exists_mem_of_mapM_eq_ok pieces.handlers_eq pair member
  obtain ⟨handler, handlerEq, formEq⟩ := exists_body_of_method methodEq
  rw [formEq]
  refine ⟨rfl, ?_⟩
  refine AllSettled.append ((allSettled_checks endpoint).mono (List.subset_append_left _ ["this"]))
    (Handler.settled_ofRoute _ _ handler handlerEq) (List.subset_append_left _ _)

theorem settled_methods {ir : Ir} {resource : Resource} (pieces : Pieces ir resource) :
    ∀ method ∈ pieces.decl.methods, method.Settled := by
  rw [Pieces.decl, List.forall_mem_append, List.forall_mem_append, List.forall_mem_map]
  exact ⟨⟨settled_selfDescription resource, settled_handlers pieces⟩,
    Handler.settled_methods _ pieces.helpers pieces.helpers_eq⟩

theorem readsAssigned_composed {ir : Ir} {resource : Resource} {composed : Composed}
    (done : compose ir resource = .ok composed) : composed.file.ReadsAssigned := by
  obtain ⟨pieces, rfl⟩ := exists_pieces_of_compose done
  rw [File.ReadsAssigned, pieces.stmts_composed, List.forall_mem_singleton]
  exact Stmt.readsAssigned_classDecl (settled_methods pieces)

end Controller

/-! ## The sources around the controllers -/

namespace Plugin

theorem settled_enforceMethod : enforceMethod.Settled := by
  refine ⟨rfl, ?_⟩
  simp [enforceMethod, enforceBody, forbidden, FunctionOf.given, Expr.notNull, Expr.send]

theorem settled_registerRoute : registerRoute.Settled ["this", "route"] := by
  have callback : (Expr.array
      [.plain .this, .plain ((Expr.var "route").entry "callback")]).Uses ["this", "route"] := by
    simp [Expr.uses_array, Expr.parts, ArrayItem.parts, ArrayItem.plain]
  simp [registerRoute, Expr.send, callback]

theorem settled_baseClass : ∀ method ∈ baseClass.methods, method.Settled := by
  have body : AllSettled ["this"]
      [.foreach (Expr.this.send "get_routes" []) none (.var "route") [registerRoute]] := by
    simp [Expr.send, settled_registerRoute]
  simp only [baseClass, List.forall_mem_cons]
  exact ⟨settled_answering (by simp), settled_answering (by simp), ⟨rfl, body⟩,
    List.forall_mem_nil _⟩

/-- The table of classes is settled. -/
theorem settled_indexSource (entries : List (String × String)) :
    AllSettled [] (indexSource entries).stmts := by
  have uses : (Expr.record ((entries.mergeSort entryLe).map fun entry =>
      (entry.1,
        .binary .concat (.constant ⟨["__DIR__"]⟩) (.string ("/" ++ entry.2))))).Uses [] := by
    rw [Expr.uses_record, List.forall_mem_map]
    simp
  exact allSettled_cons.mpr ⟨settled_returning.mpr uses, allSettled_nil⟩

theorem readsAssigned_autoloadFunction : autoloadFunction.ReadsAssigned :=
  Stmt.readsAssigned_function rfl (by simp)

/-- The registrations of controllers are settled. -/
theorem settled_registrations (controllers : List Name) :
    AllSettled [] (controllers.map registrationOf) := by
  have each (controller : Name) : (registrationOf controller).Settled [] := by
    have created : (Expr.new controller []).Uses [] := .node trivial nofun
    simp [registrationOf, Expr.send, created]
  induction controllers with
  | nil => exact allSettled_nil
  | cons controller controllers ih =>
      rw [List.map_cons, allSettled_cons]
      exact ⟨each controller, ih.mono (List.subset_append_left _ _)⟩

theorem settled_loaderHooks : AllSettled [] loaderHooks := by
  simp [loaderHooks, ownFunction]

theorem readsAssigned_loaderOf (name : Name) (controllers : List Name) :
    (loaderOf name (controllers.map registrationOf)).ReadsAssigned := by
  have blank : Stmt.blank.ReadsAssigned :=
    Stmt.readsAssigned_of_mem (by simp : AllSettled [] [.blank]) _ List.mem_cons_self
  simp only [File.ReadsAssigned, loaderOf, List.forall_mem_append, List.forall_mem_cons]
  exact ⟨⟨readsAssigned_autoloadFunction, blank,
    Stmt.readsAssigned_function rfl (settled_registrations controllers), blank,
    List.forall_mem_nil _⟩,
    Stmt.readsAssigned_of_mem settled_loaderHooks⟩

namespace Sources

variable {ir : Ir} (sources : Sources ir)

theorem readsAssigned_of_mem_trees {tree : String × Php.File} (member : tree ∈ sources.trees) :
    tree.2.ReadsAssigned := by
  rcases sources.mem_trees member with ⟨controller, controllerMem, sameFile⟩ | fixed
  · obtain ⟨resource, -, composedEq⟩ :=
      exists_mem_of_mapM_eq_ok sources.controllers_eq controller controllerMem
    rw [← sameFile]
    exact readsAssigned_composed (mapError_eq_ok_iff.mp composedEq)
  · simp only [List.mem_cons, List.not_mem_nil, or_false] at fixed
    have ofClass {tree : Php.File} {decl : Php.Class} (stmts : tree.stmts = [.classDecl decl])
        (settled : ∀ method ∈ decl.methods, method.Settled) : tree.ReadsAssigned := by
      rw [File.ReadsAssigned, stmts, List.forall_mem_singleton]
      exact Stmt.readsAssigned_classDecl settled
    rcases fixed with same | same | same | same <;> rw [same]
    · exact ofClass sources.stmts_base settled_baseClass
    · exact ofClass (stmts_policySource sources.policy_eq)
        (List.forall_mem_singleton.mpr settled_enforceMethod)
    · exact Stmt.readsAssigned_of_mem (settled_indexSource _)
    · obtain ⟨name, controllers, -, -, loaderEq⟩ := exists_names_of_loaderSource sources.loader_eq
      rw [loaderEq]
      exact readsAssigned_loaderOf name controllers

end Sources

/-- Whenever the builders succeed, every function of every generated source assigns to each variable
that it reads before it reads it, on every path, unless the variable is given. -/
theorem variables_assigned_of_builders {loaded : Config.Loaded} {ir : Ir} {context after : Context}
    {files : Queue} (built : Ir.build loaded = .ok ir)
    (done : applyAll .builder ir pipeline.builderSchedule.order [] context = (.ok files, after)) :
    ∃ sources : Sources ir, files = sources.files ∧
      (∀ file ∈ files, file.extension = some "php" →
        ∃ tree ∈ sources.trees, file = sourceFile phpOutputDirectory tree.1 tree.2) ∧
      ∀ tree ∈ sources.trees, tree.2.ReadsAssigned := by
  obtain ⟨sources, filesEq, printed⟩ := exists_sources_of_builders built done
  exact ⟨sources, filesEq, printed, fun tree member => sources.readsAssigned_of_mem_trees member⟩

/-- Articles are posts that are addressed by their names. -/
def articles : List (String × Config.Resource) :=
  [("article",
    { name := "article"
      routes :=
        { list := some ⟨"/acme/v1/articles", .get, none⟩
          get := some ⟨"/acme/v1/articles/:slug", .get, none⟩
          create := some ⟨"/acme/v1/articles", .post, some "article.write"⟩
          update := some ⟨"/acme/v1/articles/:slug", .put, some "article.write"⟩
          remove := some ⟨"/acme/v1/articles/:slug", .delete, some "article.write"⟩ }
      identity := some ⟨.string, some "slug"⟩
      storage := some (.post
        { postType := none
          statuses := ["draft", "publish"]
          supports := [.title, .editor]
          metaFields := [("authors", ⟨.string, some false⟩), ("read-time", ⟨.integer, none⟩)]
          taxonomies := [("topics", ⟨"topic", false, none⟩)] })
      schema := some .auto
      cacheKeys := none
      queryParams := none
      capabilities := none })]

/-- The example comes to sources. -/
theorem exists_sources_articles :
    ∃ parts : Core.Parts (acme articles), Nonempty (Sources parts.ir) := by
  have accepted : ∃ warnings, Config.check (acme articles).config = .ok warnings :=
    exists_eq_ok (by decide)
  obtain ⟨warnings, accepted⟩ := accepted
  exact exists_sources_acme (Config.checked_of_check accepted) (List.pairwise_singleton _ _)
    (exists_eq_ok (by decide)) (exists_eq_ok (by decide)) (by decide)

theorem variables_assigned_of_builders_articles :
    ∃ (ir : Ir) (files : Queue) (after : Context) (sources : Sources ir),
      Ir.build (acme articles) = .ok ir ∧
      applyAll .builder ir pipeline.builderSchedule.order [] {} = (.ok files, after) ∧
      files = sources.files ∧ ∀ tree ∈ sources.trees, tree.2.ReadsAssigned := by
  obtain ⟨parts, ⟨queued⟩⟩ := exists_sources_articles
  obtain ⟨after, done⟩ := queued.applyAll_builders {}
  obtain ⟨sources, filesEq, -, each⟩ := variables_assigned_of_builders parts.build_eq done
  exact ⟨parts.ir, queued.files, after, sources, parts.build_eq, done, filesEq, each⟩

end Plugin

end RestPlugin
