import RestPlugin.Proofs.Controller.Checks
import RestPlugin.Proofs.Controller.Total
import RestPlugin.Proofs.Php.WellFormed
import RestPlugin.Proofs.Plugin.Variables

/-!
# Well-formed plugins

The names in a plugin are fixed, or they come from the configuration and were checked when the tree
was built.  Either way each of them is an identifier, in every source.
-/

namespace RestPlugin

open Controller Ir Output Php Pipeline Plugin Text

/-! ## Private methods -/

namespace Snippet

theorem wellNamed_statusMethod (pascal : String) (statuses : List String) :
    Ensures FunctionOf.WellNamed (statusMethod pascal statuses) :=
  ensures_method_bind fun checked => ensures_ok (by simp +decide [checked])

theorem isIdentifier_syncParams : ∀ param ∈ syncParams, isIdentifier param.name = true := by
  simp +decide

theorem wellNamed_metaMethod (pascal : String) (fields : List (String × MetaField)) :
    Ensures FunctionOf.WellNamed (metaMethod pascal fields) :=
  ensures_bind fun _ => ensures_method_bind fun checked =>
    ensures_ok (wellNamed_iff.mpr ⟨checked, isIdentifier_syncParams⟩)

theorem wellNamed_taxonomiesMethod (pascal : String) (taxonomies : List (String × Taxonomy)) :
    Ensures FunctionOf.WellNamed (taxonomiesMethod pascal taxonomies) :=
  ensures_bind fun _ => ensures_method_bind fun checked =>
    ensures_ok (wellNamed_iff.mpr ⟨checked, isIdentifier_syncParams⟩)

end Snippet

namespace Handler

open Snippet

variable {resource : Resource} {pascal : String}

namespace Post

theorem isIdentifier_lookup (identity : Option Identity) :
    Ensures (fun found => isIdentifier found.1.name = true) (lookup pascal identity) := by
  refine ensures_bind fun value => ?_
  cases (identity.getD ⟨.number, "id"⟩).kind with
  | string =>
      exact ensures_bind fun _ => (ensures_isIdentifier_typed _ _).bind fun _ named =>
        ensures_ok named
  | number => exact (ensures_isIdentifier_typed _ _).bind fun _ named => ensures_ok named

theorem wellNamed_resolveMethod (identity : Option Identity) :
    Ensures FunctionOf.WellNamed (resolveMethod pascal identity) := by
  refine (isIdentifier_lookup identity).bind fun ⟨param, found⟩ named => ?_
  refine ensures_bind fun type => ensures_method_bind fun checked => ?_
  exact ensures_ok (wellNamed_iff.mpr ⟨checked, List.forall_mem_singleton.mpr named⟩)

/-- The methods of a resource with posts are well-named. -/
theorem wellNamed_methods :
    Ensures (fun made => ∀ method ∈ made, method.WellNamed) (methods resource pascal) := by
  have typeMethod (storage : PostStorage) :
      Ensures FunctionOf.WellNamed (postTypeMethod pascal storage) :=
    ensures_method_bind fun checked => ensures_ok (by simp [checked])
  have prepareMethod (storage : PostStorage) :
      Ensures FunctionOf.WellNamed (prepareMethod pascal storage) :=
    ensures_method_bind fun checked => ensures_ok (by simp +decide [checked])
  rw [methods]
  split
  · exact ensures_ok (List.forall_mem_nil _)
  · refine (typeMethod _).bind fun _ first => (wellNamed_resolveMethod _).bind fun _ second => ?_
    refine (prepareMethod _).bind fun _ third => ?_
    refine (wellNamed_statusMethod _ _).bind fun _ status => ?_
    refine (wellNamed_metaMethod _ _).bind fun _ storeMeta => ?_
    refine (wellNamed_taxonomiesMethod _ _).bind fun _ storeTerms => ensures_ok ?_
    simp only [List.forall_mem_cons]
    exact ⟨first, second, third, status, storeMeta, storeTerms, List.forall_mem_nil _⟩

end Post

theorem wellNamed_single (option : String) :
    Ensures (fun made => ∀ method ∈ made, method.WellNamed) (Single.methods pascal option) :=
  ensures_method_bind fun checked => ensures_ok (by simp [checked])

theorem wellNamed_term (taxonomy : String) :
    Ensures (fun made => ∀ method ∈ made, method.WellNamed) (Term.methods pascal taxonomy) :=
  ensures_method_bind fun named => ensures_method_bind fun prepared =>
    ensures_ok (by simp +decide [named, prepared])

theorem wellNamed_transient (identity : Option Identity) (beginning : String) :
    Ensures (fun made => ∀ method ∈ made, method.WellNamed)
      (Transient.methods pascal identity beginning) := by
  refine ensures_method_bind fun checked => ?_
  cases identity with
  | none => exact ensures_ok (by simp [checked])
  | some identity =>
      refine (ensures_isIdentifier_typed _ _).bind fun param named => ensures_bind fun value => ?_
      exact ensures_ok (by simp [checked, named])

/-- The private methods of a resource have identifiers for names, whatever its storage. -/
theorem wellNamed_methods (beginning : String) :
    Ensures (fun made => ∀ method ∈ made, method.WellNamed)
      (methods resource pascal beginning) := by
  rw [methods]
  split
  · exact ensures_ok (List.forall_mem_nil _)
  · exact Post.wellNamed_methods
  · exact wellNamed_transient _ _
  · exact wellNamed_single _
  · exact wellNamed_term _

end Handler

/-! ## Controllers -/

namespace Controller

theorem wellNamed_selfDescription (resource : Resource) :
    ∀ method ∈ selfDescription resource, method.WellNamed := by
  simp +decide [selfDescription, answering]

namespace Pieces

variable {ir : Ir} {resource : Resource} (pieces : Pieces ir resource)

theorem wellNamed_handlers : ∀ pair ∈ pieces.handlers, pair.1.WellNamed := by
  intro pair member
  obtain ⟨endpoint, endpointMem, methodEq⟩ :=
    exists_mem_of_mapM_eq_ok pieces.handlers_eq pair member
  obtain ⟨handler, -, formEq⟩ := exists_body_of_method methodEq
  rw [formEq, wellNamed_iff]
  exact ⟨isIdentifier_handler endpointMem, by simp +decide⟩

theorem isIdentifier_words : ∀ word ∈ pieces.decl.words, isIdentifier word = true := by
  have methods : ∀ method ∈ pieces.decl.methods, method.WellNamed := by
    rw [decl, List.forall_mem_append, List.forall_mem_append, List.forall_mem_map]
    exact ⟨⟨wellNamed_selfDescription resource, pieces.wellNamed_handlers⟩,
      Handler.wellNamed_methods _ pieces.helpers pieces.helpers_eq⟩
  simp only [ClassOf.words, List.forall_mem_append, List.forall_mem_cons, List.forall_mem_flatMap]
  exact ⟨⟨⟨pieces.named, by simp +decide [decl]⟩, List.forall_mem_nil _⟩, methods⟩

theorem isIdentifier_names :
    ∀ name ∈ pieces.composed.file.space.toList ++ pieces.composed.file.uses,
      ∀ part ∈ name.parts, isIdentifier part = true := by
  rw [List.forall_mem_append, pieces.space_composed, Option.toList_some, List.forall_mem_singleton]
  refine ⟨(parts_of_name_eq_ok pieces.space_eq).2, fun name member => ?_⟩
  obtain ⟨used, -, nameEq⟩ :=
    exists_mem_of_mapM_eq_ok pieces.uses_eq name (pieces.mem_uses_composed member)
  exact (parts_of_name_eq_ok nameEq).2

end Pieces

theorem wellFormed_of_compose {ir : Ir} {resource : Resource} {composed : Composed}
    (done : compose ir resource = .ok composed) : composed.file.WellFormed := by
  have exprs : composed.file.Everywhere Expr.WellFormed := by
    apply everywhere_of_compose done
    · exact fun node closed => closed.1.wellFormed
    · exact fun _ _ _ _ => ⟨by simp +decide [Expr.words], nofun⟩
  obtain ⟨pieces, rfl⟩ := exists_pieces_of_compose done
  exact File.wellFormed_of_class pieces.isIdentifier_names pieces.stmts_composed exprs
    pieces.isIdentifier_words (settled_methods pieces)

end Controller

/-! ## The sources around the controllers -/

namespace Plugin

section Closed

variable {methods : List Signature}

theorem closed_registerRoute (listed : ("get_rest_args", 0) ∈ methods) :
    registerRoute.Closed methods := by
  have callback : (Expr.array
      [.plain .this, .plain ((Expr.var "route").entry "callback")]).Closed methods := by
    rw [Expr.closed_array]
    simp +decide [Expr.parts, ArrayItem.parts, ArrayItem.plain]
  have args : (Expr.this.send "get_rest_args" []).Closed methods :=
    Expr.closed_methodCall.mpr ⟨by decide, fun _ => listed, Expr.closed_this, List.forall_mem_nil _⟩
  simp +decide [registerRoute, callback, args]

theorem closed_baseClass :
    (Stmt.classDecl baseClass).Closed [("get_routes", 0), ("get_rest_args", 0)] := by
  have routes : (Expr.this.send "get_routes" []).Closed
      [("get_routes", 0), ("get_rest_args", 0)] :=
    Expr.closed_methodCall.mpr ⟨by decide, fun _ => by simp, Expr.closed_this, nofun⟩
  refine closed_classDecl nofun ?_
  simp +decide [baseClass, answering, FunctionOf.defaults, routes, closed_registerRoute]

theorem closed_capabilityEntry (capability : String) (appliesTo : AppliesTo)
    (binding : Option String) : (capabilityEntry capability appliesTo binding).Closed methods := by
  cases binding <;> simp [capabilityEntry]

theorem closed_enforceBody : AllClosed methods enforceBody := by
  have asked : (Snippet.request.send "get_param" [.var "binding"]).Closed methods :=
    Expr.closed_methodCall.mpr ⟨by decide, by simp [Snippet.request, Expr.this], by simp +decide⟩
  simp +decide [enforceBody, forbidden, Expr.notNull, asked]

theorem closed_policyClass (map : CapabilityMap) :
    (Stmt.classDecl (policyClass map)).Closed methods := by
  refine closed_classDecl ?_ (List.forall_mem_singleton.mpr ⟨rfl, closed_enforceBody⟩)
  rw [policyClass, List.forall_mem_cons, List.forall_mem_singleton]
  exact ⟨Expr.closed_record.mpr (List.forall_mem_map.mpr fun _ _ => closed_capabilityEntry _ _ _),
    closed_capabilityEntry _ _ _⟩

theorem closed_indexSource (entries : List (String × String)) :
    AllClosed methods (indexSource entries).stmts := by
  have directory : (Expr.constant ⟨["__DIR__"]⟩).Closed methods := Expr.closed_constant (by decide)
  rw [indexSource, allClosed_cons, closed_returning, Expr.closed_record, List.forall_mem_map]
  simp [directory]

theorem closed_autoloadFunction : autoloadFunction.Closed methods := by
  have directory : (Expr.constant ⟨["__DIR__"]⟩).Closed methods := Expr.closed_constant (by decide)
  exact closed_function rfl (by simp +decide [directory])

theorem closed_registrationOf {controller : Name} (nonempty : controller.parts ≠ [])
    (checked : ∀ part ∈ controller.parts, isIdentifier part = true) :
    (registrationOf controller).Closed methods := by
  have created : (Expr.new controller []).Closed methods := by
    rw [Expr.closed_iff]
    exact ⟨⟨⟨checked, nonempty⟩, trivial⟩, nofun⟩
  exact closed_expression.mpr (Expr.closed_methodCall.mpr ⟨by decide, nofun, created, nofun⟩)

theorem closed_loaderHooks : AllClosed methods loaderHooks := by
  have space : (Expr.constant ⟨["__NAMESPACE__"]⟩).Closed methods :=
    Expr.closed_constant (by decide)
  simp +decide [loaderHooks, ownFunction, space]

theorem closed_loaderOf (space : Name) {names : List Name}
    (checked : ∀ name ∈ names, name.parts ≠ [] ∧ ∀ part ∈ name.parts, isIdentifier part = true) :
    AllClosed methods (loaderOf space (names.map registrationOf)).stmts := by
  have registrations : AllClosed methods (names.map registrationOf) :=
    List.forall_mem_map.mpr fun name member =>
      closed_registrationOf (checked name member).1 (checked name member).2
  rw [loaderOf, allClosed_append]
  refine ⟨?_, closed_loaderHooks⟩
  simp only [allClosed_cons]
  exact ⟨closed_autoloadFunction, closed_blank, closed_function rfl registrations, closed_blank,
    allClosed_nil⟩

end Closed

theorem everywhere_of_closed {methods : List Signature} {file : Php.File}
    (closed : AllClosed methods file.stmts) : file.Everywhere Expr.WellFormed :=
  everywhere_of_allClosed (fun _ holds => holds.1.wellFormed) closed

theorem wellFormed_indexSource (entries : List (String × String)) :
    (indexSource entries).WellFormed where
  names := nofun
  exprs := everywhere_of_closed (@closed_indexSource [] entries)
  stmts :=
    fun _ member _ _ inside => wellFormed_of_inside (settled_indexSource entries) member inside

/-- The loader is well-formed if its names are valid. -/
theorem wellFormed_loaderOf {space : Name} {names : List Name}
    (spaceChecked : ∀ part ∈ space.parts, isIdentifier part = true)
    (checked : ∀ name ∈ names, name.parts ≠ [] ∧ ∀ part ∈ name.parts, isIdentifier part = true) :
    (loaderOf space (names.map registrationOf)).WellFormed where
  names := List.forall_mem_singleton.mpr spaceChecked
  exprs := everywhere_of_closed (@closed_loaderOf [] space names checked)
  stmts := by
    have blank : ∀ inner depth, Stmt.Inside inner depth .blank → inner.WellFormed :=
      fun _ _ inside => wellFormed_of_inside (by simp : AllSettled [] [.blank]) List.mem_cons_self
        inside
    simp only [loaderOf, List.forall_mem_append, List.forall_mem_cons]
    refine ⟨⟨?_, blank, ?_, blank, List.forall_mem_nil _⟩, ?_⟩
    · exact fun _ _ inside => wellFormed_of_inside_function (by decide)
        (by simp : AllSettled ["class"] _) inside
    · exact fun _ _ inside => wellFormed_of_inside_function (by simp +decide [FunctionOf.words])
        (settled_registrations names) inside
    · exact fun _ member _ _ inside => wellFormed_of_inside settled_loaderHooks member inside

namespace Sources

variable {ir : Ir} (sources : Sources ir)

/-- Every tree of a plugin is well-formed. -/
theorem wellFormed_of_mem_trees {tree : String × Php.File} (member : tree ∈ sources.trees) :
    tree.2.WellFormed := by
  rcases sources.mem_trees member with ⟨controller, controllerMem, sameFile⟩ | fixed
  · obtain ⟨resource, -, composedEq⟩ :=
      exists_mem_of_mapM_eq_ok sources.controllers_eq controller controllerMem
    rw [← sameFile]
    exact wellFormed_of_compose (mapError_eq_ok_iff.mp composedEq)
  · simp only [List.mem_cons, List.not_mem_nil, or_false] at fixed
    rcases fixed with same | same | same | same <;> rw [same]
    · obtain ⟨name, nameEq, baseEq⟩ := exists_name_of_baseSource sources.base_eq
      rw [baseEq]
      exact File.wellFormed_of_class (List.forall_mem_singleton.mpr (parts_of_name_eq_ok nameEq).2)
        rfl (everywhere_of_closed (allClosed_cons.mpr ⟨closed_baseClass, allClosed_nil⟩))
        (by decide) settled_baseClass
    · obtain ⟨name, nameEq, policyEq⟩ := exists_name_of_policySource sources.policy_eq
      rw [policyEq]
      refine File.wellFormed_of_class ?_ rfl (everywhere_of_closed
        (allClosed_cons.mpr ⟨@closed_policyClass [] _, allClosed_nil⟩)) ?_
        (List.forall_mem_singleton.mpr settled_enforceMethod)
      · rw [Option.toList_some, List.singleton_append, List.forall_mem_cons]
        exact ⟨(parts_of_name_eq_ok nameEq).2, by simp +decide⟩
      · simp +decide [ClassOf.words, policyClass]
    · exact wellFormed_indexSource _
    · obtain ⟨name, names, nameEq, namesEq, loaderEq⟩ :=
        exists_names_of_loaderSource sources.loader_eq
      rw [loaderEq]
      refine wellFormed_loaderOf (parts_of_name_eq_ok nameEq).2 fun controller controllerMem => ?_
      obtain ⟨value, -, valueEq⟩ := exists_mem_of_mapM_eq_ok namesEq controller controllerMem
      exact parts_of_name_eq_ok valueEq

end Sources

/-- Whenever the builders succeed, every generated source has identifiers for names and assigns only
to variables, elements of arrays and properties. -/
theorem sources_wellFormed_of_builders {loaded : Config.Loaded} {ir : Ir} {context after : Context}
    {files : Queue} (built : Ir.build loaded = .ok ir)
    (done : applyAll .builder ir pipeline.builderSchedule.order [] context = (.ok files, after)) :
    ∃ sources : Sources ir, files = sources.files ∧
      (∀ file ∈ files, file.extension = some "php" →
        ∃ tree ∈ sources.trees, file = sourceFile phpOutputDirectory tree.1 tree.2) ∧
      ∀ tree ∈ sources.trees, tree.2.WellFormed := by
  obtain ⟨sources, filesEq, printed⟩ := exists_sources_of_builders built done
  exact ⟨sources, filesEq, printed, fun tree member => sources.wellFormed_of_mem_trees member⟩

theorem sources_wellFormed_of_builders_articles :
    ∃ (ir : Ir) (files : Queue) (after : Context) (sources : Sources ir),
      Ir.build (acme articles) = .ok ir ∧
      applyAll .builder ir pipeline.builderSchedule.order [] {} = (.ok files, after) ∧
      files = sources.files ∧ ∀ tree ∈ sources.trees, tree.2.WellFormed := by
  obtain ⟨parts, ⟨queued⟩⟩ := exists_sources_articles
  obtain ⟨after, done⟩ := queued.applyAll_builders {}
  obtain ⟨sources, filesEq, -, each⟩ := sources_wellFormed_of_builders parts.build_eq done
  exact ⟨parts.ir, queued.files, after, sources, parts.build_eq, done, filesEq, each⟩

end Plugin

end RestPlugin
