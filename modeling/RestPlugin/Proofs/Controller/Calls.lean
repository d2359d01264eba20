import RestPlugin.Proofs.Controller.Checks

/-!
# Calls within controllers

The handlers of a controller and the private methods behind them are composed apart from each other,
and their names are put together in both places.  They fit: whatever a controller calls on itself is
one of its methods and gets as many arguments as it has parameters.
-/

namespace RestPlugin

open Ir Php Text

/-- A class has a method with a given name and number of parameters. -/
def Php.ClassOf.Declares (decl : Php.Class) (signature : Signature) : Prop :=
  ∃ method, decl.method? signature.1 = some method ∧ method.params.length = signature.2

/-- Everything that the current object is asked to do in a file is a method of a class, and gets as
many arguments as the method has parameters. -/
def Php.File.CallsDeclared (file : Php.File) (decl : Php.Class) : Prop :=
  file.Everywhere fun node => ∀ name args, node = .methodCall .this name args →
    decl.Declares (name, args.length)

namespace Controller

theorem declares_of_mem {decl : Php.Class} (nodup : (decl.methods.map (·.name)).Nodup)
    {method : Php.Method} (member : method ∈ decl.methods) : decl.Declares method.signature :=
  ⟨method, find?_name_eq_some nodup member, rfl⟩

namespace Pieces

variable {ir : Ir} {resource : Resource} (pieces : Pieces ir resource)

/-- The methods of a controller have different names. -/
theorem nodup_name_methods : (pieces.decl.methods.map (·.name)).Nodup := by
  have names : pieces.decl.methods.map (·.name) =
      selfNames ++ (endpoints resource).map (·.handler) ++
        (Handler.signatures resource (pascalCase resource.name)).map (·.1) := by
    rw [decl, List.map_append, List.map_append, name_selfDescription,
      map_name_handlers pieces.handlers_eq, map_name_helpers pieces.answered]
  apply List.Nodup.of_map lowerString
  rw [names]
  exact nodup_lowerString_names (isPascal_pascalCase resource.name)

/-- The private methods that may be called are there. -/
theorem declares_of_mem_signatures {signature : Signature}
    (listed : signature ∈ Handler.signatures resource (pascalCase resource.name)) :
    pieces.decl.Declares signature := by
  rw [← map_signature_of_answers pieces.answered] at listed
  obtain ⟨method, member, rfl⟩ := List.mem_map.mp listed
  exact declares_of_mem pieces.nodup_name_methods (List.mem_append_right _ member)

/-- The handlers of the route table are there. -/
theorem declares_handler {endpoint : Endpoint} (listed : endpoint ∈ endpoints resource) :
    pieces.decl.Declares (endpoint.handler, 1) := by
  obtain ⟨pair, pairMem, methodEq⟩ := exists_result_of_mapM_eq_ok pieces.handlers_eq endpoint listed
  obtain ⟨handler, -, formEq⟩ := exists_body_of_method methodEq
  have member : pair.1 ∈ pieces.decl.methods :=
    List.mem_append_left _ (List.mem_append_right _ (List.mem_map_of_mem pairMem))
  have declared := declares_of_mem pieces.nodup_name_methods member
  rw [formEq] at declared
  exact declared

theorem body_get_routes : (pieces.decl.method? "get_routes").map (·.body) =
    some [.returning (.array ((endpoints resource).map fun endpoint =>
      .plain (endpoint.entry resource.identity)))] := by
  have listed : answering "get_routes" "array" (.array ((endpoints resource).map fun endpoint =>
      .plain (endpoint.entry resource.identity))) ∈ selfDescription resource := by
    simp [selfDescription]
  have member := List.mem_append_left pieces.helpers
    (List.mem_append_left (pieces.handlers.map (·.1)) listed)
  exact congrArg (Option.map (·.body)) (find?_name_eq_some pieces.nodup_name_methods member)

end Pieces

/-- A controller calls only its own methods, each with as many arguments as it has parameters, and
the callbacks of its route table are its own methods of one parameter. -/
theorem calls_declared_of_compose {ir : Ir} {resource : Resource} {composed : Composed}
    (done : compose ir resource = .ok composed) :
    ∃ (decl : Php.Class) (entries : List (List (String × Expr))),
      composed.file.stmts = [.classDecl decl] ∧ composed.file.CallsDeclared decl ∧
      (decl.method? "get_routes").map (·.body) =
        some [.returning (.array (entries.map fun fields => .plain (.record fields)))] ∧
      ∀ fields ∈ entries, ∃ name, Keyed.get? "callback" fields = some (.string name) ∧
        decl.Declares (name, 1) := by
  obtain ⟨pieces, rfl⟩ := exists_pieces_of_compose done
  have calls : pieces.composed.file.CallsDeclared pieces.decl := by
    apply everywhere_of_compose done
    · rintro node ⟨-, called⟩ name args rfl
      exact pieces.declares_of_mem_signatures (called rfl)
    · exact fun _ _ _ _ _ _ => nofun
  refine ⟨pieces.decl, (endpoints resource).map fun endpoint =>
    [("namespace", .string (restRoute endpoint.route.path resource.identity).1),
     ("route", .string (restRoute endpoint.route.path resource.identity).2),
     ("methods", .string endpoint.route.method.text), ("callback", .string endpoint.handler)],
    pieces.stmts_composed, calls, ?_, ?_⟩
  · rw [pieces.body_get_routes, List.map_map]
    rfl
  · rw [List.forall_mem_map]
    exact fun endpoint listed => ⟨endpoint.handler, rfl, pieces.declares_handler listed⟩

/-- A resource that is stored as posts, whose items are addressed by their names. -/
def article : Resource :=
  { task with
    name := "article"
    routes :=
      [⟨.get, "/acme/v1/articles", none, ""⟩, ⟨.post, "/acme/v1/articles", none, ""⟩,
       ⟨.get, "/acme/v1/articles/:slug", none, ""⟩, ⟨.put, "/acme/v1/articles/:slug", none, ""⟩]
    identity := some ⟨.string, "slug"⟩
    storage := some (.post
      { postType := "article"
        statuses := ["draft", "publish"]
        supports := [.title, .editor]
        metaFields := [("read-time", ⟨.integer, true⟩), ("authors", ⟨.string, false⟩)]
        taxonomies := [("topics", ⟨"topic", false, false⟩)] }) }

theorem calls_declared_article :
    ∃ (composed : Composed) (decl : Php.Class), compose tasks article = .ok composed ∧
      composed.file.stmts = [.classDecl decl] ∧ composed.file.CallsDeclared decl := by
  have named : article.WellNamed :=
    ⟨by rintro identity ⟨⟩; decide, by rintro storage ⟨⟩; decide,
      by rintro storage ⟨⟩; decide⟩
  obtain ⟨composed, done⟩ : Succeeds (compose tasks article) :=
    (succeeds_compose_iff named (exists_eq_ok (by decide))
      (exists_eq_ok (by decide))).mpr (by decide)
  obtain ⟨decl, entries, stmts, calls, -⟩ := calls_declared_of_compose done
  exact ⟨composed, decl, done, stmts, calls⟩

end Controller

end RestPlugin
