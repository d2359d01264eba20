import RestPlugin.Proofs.Controller.Handlers

/-!
# Capability checks of controllers

The only static calls in a controller are the capability checks of its handlers, and each of them
checks the capability of a route.
-/

namespace RestPlugin.Controller

open Ir Php Text

/-! ## Static calls -/

/-- A static call is the capability check of a route. -/
def Checks (resource : Resource) (node : Expr) : Prop :=
  ∀ className name args, node = .staticCall className name args →
    className = ⟨["Policy"]⟩ ∧ name = "enforce" ∧
      ∃ route ∈ resource.routes, ∃ key, route.capability = some key ∧
        args = [.string key, Snippet.request]

theorem checks_of_answered {resource : Resource} {methods : List Signature} (node : Expr)
    (holds : node.IsChecked ∧ node.Answered methods) : Checks resource node := by
  rintro className name args rfl
  exact holds.2.elim

section Closed

variable {methods : List Signature} {holds : Expr → Prop}
  (plain : ∀ node : Expr, node.IsChecked ∧ node.Answered methods → holds node)
include plain

theorem everywhere_of_allClosed {stmts : List Stmt} (closed : AllClosed methods stmts) :
    ∀ stmt ∈ stmts, stmt.Everywhere holds :=
  fun stmt member => (closed stmt member).mono plain

/-- A capability check is closed but for its static call. -/
theorem everywhere_capabilityGuard {key : String}
    (call : holds (.staticCall ⟨["Policy"]⟩ "enforce" [.string key, Snippet.request])) :
    ∀ stmt ∈ Snippet.capabilityGuard key, stmt.Everywhere holds := by
  have leaf (node : Expr) (closed : node.Closed methods) : node.Everywhere holds :=
    closed.mono plain
  have called : (Expr.staticCall ⟨["Policy"]⟩ "enforce" [.string key, Snippet.request]).Everywhere
      holds := by
    refine .node call ?_
    rw [Expr.parts, List.forall_mem_cons, List.forall_mem_singleton]
    exact ⟨leaf _ (Expr.closed_string key), leaf _ Snippet.closed_request⟩
  have guarded : (Stmt.setVar "permission"
      (.staticCall ⟨["Policy"]⟩ "enforce" [.string key, Snippet.request])).Everywhere holds := by
    rw [Stmt.setVar, Stmt.set, Stmt.everywhere_expression]
    refine .node (plain _ ⟨⟨List.forall_mem_nil _, rfl⟩, trivial⟩) ?_
    rw [Expr.parts, List.forall_mem_cons, List.forall_mem_singleton]
    exact ⟨leaf _ (Expr.closed_var.mpr (by decide)), called⟩
  have returned : AllClosed methods [Snippet.returnIfError (.var "permission")] := by simp +decide
  rw [Snippet.capabilityGuard, List.forall_mem_cons]
  exact ⟨guarded, everywhere_of_allClosed plain returned⟩

end Closed

theorem closed_requestArgs (resource : Resource) (methods : List Signature) :
    ∀ field ∈ requestArgs resource, field.2.Closed methods :=
  forall_mem_requestArgs Expr.closed_string Expr.closed_bool Expr.closed_stringList
    (fun _ => Expr.closed_record.mpr) resource

theorem closed_selfDescription (resource : Resource) (methods : List Signature) :
    ∀ method ∈ selfDescription resource, method.defaults = [] ∧ AllClosed methods method.body := by
  have entry (endpoint : Endpoint) : (endpoint.entry resource.identity).Closed methods := by
    simp [Endpoint.entry]
  have table : (Expr.array ((endpoints resource).map fun endpoint =>
      .plain (endpoint.entry resource.identity))).Closed methods :=
    Expr.closed_array.mpr (Expr.forall_mem_parts_plain.mpr fun endpoint _ => entry endpoint)
  have args := closed_requestArgs resource methods
  simp only [selfDescription, List.forall_mem_cons, answering, allClosed_cons, closed_returning,
    Expr.closed_string, Expr.closed_record, allClosed_nil, and_true]
  exact ⟨rfl, rfl, ⟨rfl, args⟩, ⟨rfl, table⟩, by simp⟩

/-- What holds of all closed expressions and of the capability checks of the routes holds everywhere
in a controller. -/
theorem everywhere_of_compose {ir : Ir} {resource : Resource} {composed : Composed}
    (done : compose ir resource = .ok composed) {holds : Expr → Prop}
    (plain : ∀ node : Expr, node.IsChecked ∧
      node.Answered (Handler.signatures resource (pascalCase resource.name)) → holds node)
    (call : ∀ route ∈ resource.routes, ∀ key, route.capability = some key →
      holds (.staticCall ⟨["Policy"]⟩ "enforce" [.string key, Snippet.request])) :
    composed.file.Everywhere holds := by
  obtain ⟨pieces, rfl⟩ := exists_pieces_of_compose done
  have each : ∀ method ∈ pieces.decl.methods, method.defaults = [] ∧
      ∀ stmt ∈ method.body, stmt.Everywhere holds := by
    rw [Pieces.decl, List.forall_mem_append, List.forall_mem_append, List.forall_mem_map]
    refine ⟨⟨fun method member => ?_, fun pair member => ?_⟩, fun method member => ?_⟩
    · obtain ⟨defaults, body⟩ := closed_selfDescription resource _ method member
      exact ⟨defaults, everywhere_of_allClosed plain body⟩
    · obtain ⟨endpoint, endpointMem, methodEq⟩ :=
        exists_mem_of_mapM_eq_ok pieces.handlers_eq pair member
      obtain ⟨handler, handlerEq, formEq⟩ := exists_body_of_method methodEq
      have closed := Handler.closed_ofRoute _ _ handler handlerEq
      rw [formEq]
      refine ⟨rfl, List.forall_mem_append.mpr ⟨?_, everywhere_of_allClosed plain closed⟩⟩
      rw [Endpoint.checks]
      cases asked : endpoint.route.capability with
      | none => simp
      | some key =>
          have called := call endpoint.route (route_mem_routes endpointMem) key asked
          exact List.forall_mem_append.mpr ⟨everywhere_capabilityGuard plain called, by simp⟩
    · obtain ⟨signature, -, answers⟩ := exists_answers_of_mem pieces.answered method member
      exact ⟨answers.defaults, everywhere_of_allClosed plain answers.body⟩
  rw [File.Everywhere, pieces.stmts_composed, List.forall_mem_singleton, Stmt.everywhere_classDecl]
  refine ⟨List.forall_mem_nil _, fun method member => ?_⟩
  rw [(each method member).1]
  exact ⟨List.forall_mem_nil _, (each method member).2⟩

/-- The only static calls in a controller are the capability checks of its routes. -/
theorem everywhere_checks_of_compose {ir : Ir} {resource : Resource} {composed : Composed}
    (done : compose ir resource = .ok composed) :
    composed.file.Everywhere (Checks resource) := by
  apply everywhere_of_compose done checks_of_answered
  rintro route member key asked className name args ⟨⟩
  exact ⟨rfl, rfl, route, member, key, asked, rfl⟩

end RestPlugin.Controller
