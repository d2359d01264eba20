import RestPlugin.Proofs.Controller.Endpoints
import RestPlugin.Proofs.Controller.Pieces
import RestPlugin.Proofs.Handler.Notes

/-!
# Comments of controllers

A controller is documented under the name of its resource, and each handler under
the path of its route, which a stub repeats.  All other comments are fixed texts
without anything that ends a comment.
-/

namespace RestPlugin.Controller

open Ir Php Text

/-! ## Headings -/

/-- The heading of a controller. -/
def classHeading (resource : Resource) : String :=
  "REST controller for the `" ++ resource.name ++ "` resource."

/-- The heading of a handler. -/
def handlerHeading (route : Route) : String :=
  "Handle [" ++ route.method.text ++ "] " ++ route.path ++ "."

section Headings

variable {ending : String} (member : ending ∈ endings)
include member

/-- Nothing that ends a comment comes into the heading of a class but by the name of
its resource. -/
theorem within_classHeading_iff (resource : Resource) :
    Within ending (classHeading resource) ↔ Within ending resource.name := by
  have opening :
      "REST controller for the `" = "REST controller for the " ++ String.singleton '`' := by
    decide
  have closing : "` resource." = String.singleton '`' ++ " resource." := by decide
  have framed : classHeading resource = "REST controller for the " ++ String.singleton '`' ++
      resource.name ++ String.singleton '`' ++ " resource." :=
    (congrArg₂ (fun opening closing => opening ++ resource.name ++ closing) opening closing).trans
      String.append_assoc.symm
  rw [framed]
  exact within_framed_iff member (by decide) (by decide) (by decide) _

/-- A route is told by its method in brackets, its path and a full stop. -/
theorem within_told_iff {beginning : String} (plain : Plain beginning) (route : Route) :
    Within ending (beginning ++ route.method.text ++ "] " ++ route.path ++ ".") ↔
      Within ending route.path := by
  have between : "] " = "]" ++ String.singleton ' ' := by decide
  have closing : "." = String.singleton '.' ++ "" := by decide
  have methods : Plain route.method.text := by cases route.method <;> decide
  have plainBefore : Plain (beginning ++ route.method.text ++ "]") :=
    plain_append.mpr ⟨plain_append.mpr ⟨plain, methods⟩, by decide⟩
  rw [between, closing, ← String.append_assoc, ← String.append_assoc]
  exact within_framed_iff member (by decide) plainBefore (by decide) _

/-- Nothing that ends a comment comes into the heading of a handler but by the
path of its route. -/
theorem within_handlerHeading_iff (route : Route) :
    Within ending (handlerHeading route) ↔ Within ending route.path :=
  within_told_iff member (by decide) route

/-- Nothing that ends a comment comes into the note of a stub but by the path of its route. -/
theorem within_todo_iff (route : Route) :
    Within ending (Handler.todo route) ↔ Within ending route.path :=
  within_told_iff member (by decide) route

end Headings

/-! ## Notes of controllers -/

/-- The storage of a resource does not support the route of an endpoint. -/
def Stubbed (resource : Resource) (endpoint : Endpoint) : Prop :=
  Handler.supported resource (pascalCase resource.name) endpoint.route endpoint.kind
    (Metadata.ofResource resource) = .ok none

/-- The notes that hold text of a resource. -/
inductive Tells (resource : Resource) : Note → Prop
  | name : Tells resource (.doc (classHeading resource))
  | route {endpoint : Endpoint} (member : endpoint ∈ endpoints resource) :
      Tells resource (.doc (handlerHeading endpoint.route))
  | stub {endpoint : Endpoint} (member : endpoint ∈ endpoints resource)
      (stubbed : Stubbed resource endpoint) :
      Tells resource (.comment (Handler.todo endpoint.route))

theorem plain_of_mem_auditNotes : ∀ note ∈ Snippet.auditNotes, Plain note.text := by
  have values : ∀ audit ∈ Snippet.audits, Plain audit.2 := by decide +kernel
  rw [Snippet.auditNotes, stmtNotes_eq_flatMap, List.flatMap_map]
  intro note member
  obtain ⟨⟨audit, value⟩, listed, member⟩ := List.mem_flatMap.mp member
  obtain rfl := List.mem_singleton.mp member
  have key : Plain audit.key := by cases audit <;> decide +kernel
  have marked : Plain (markerStart ++ " " ++ audit.key ++ " " ++ value) := by
    simp only [plain_append, key, values _ listed, and_true]
    decide +kernel
  exact marked

/-- The documentation of a handler consists of its heading and of plain lines. -/
theorem plain_or_heading_of_mem_doc {resource : Resource} {endpoint : Endpoint}
    (member : endpoint ∈ endpoints resource) :
    ∀ line ∈ endpoint.doc (Metadata.ofResource resource),
      Plain line ∨ line = handlerHeading endpoint.route := by
  have kinds : ∀ kind : RouteKind, Plain ("@wp-kernel route-kind " ++ kind.text) := by
    intro kind
    rw [plain_append]
    refine ⟨by decide +kernel, ?_⟩
    cases kind <;> decide +kernel
  have tags : ∀ tag ∈ (Metadata.ofResource resource).tagsFor endpoint.route,
      Plain ("@wp-kernel " ++ tag.1 ++ " " ++ tag.2) := by
    rw [tagsFor_endpoint member, routeTags]
    split
    · cases endpoint.kind <;> simp [RouteKind.mutation] <;> decide +kernel
    · simp
  have endings : ∀ line ∈ ["@param WP_REST_Request $request Request instance.", "@return mixed"],
      Plain line := by decide +kernel
  intro line lineMem
  rcases List.mem_append.mp lineMem with beforeLast | last
  · rcases List.mem_append.mp beforeLast with first | inTags
    · rcases List.mem_cons.mp first with heading | first
      · exact .inr heading
      · rcases List.mem_pair.mp first with rfl | rfl
        · exact .inl (by decide)
        · exact .inl (kinds endpoint.kind)
    · obtain ⟨tag, tagMem, rfl⟩ := List.mem_map.mp inTags
      exact .inl (tags tag tagMem)
  · exact .inl (endings line last)

section Method

variable {resource : Resource} {endpoint : Endpoint} {made : Php.Method × List CacheEvent}
  (done : endpoint.method resource (Metadata.ofResource resource) = .ok made)
include done

/-- A handler is documented under its heading and has the notes of its body. -/
theorem exists_handler_of_method : ∃ handler : Handler,
    Handler.ofRoute resource (pascalCase resource.name) endpoint.route endpoint.kind
      (Metadata.ofResource resource) = .ok handler ∧
    made.1.notes = docNotes (some (endpoint.doc (Metadata.ofResource resource))) ++
      stmtNotes handler.body := by
  obtain ⟨handler, handlerEq, rest⟩ := bind_eq_ok_iff.mp done
  obtain ⟨method, -, result⟩ := bind_eq_ok_iff.mp rest
  cases result
  have checks : stmtNotes endpoint.checks = [] := by
    rw [Endpoint.checks]
    split <;> simp [Snippet.capabilityGuard, Snippet.returnIfError]
  refine ⟨handler, handlerEq, ?_⟩
  rw [FunctionOf.notes, stmtNotes_append, checks, List.nil_append]

/-- The comments of a handler are plain, or they are its heading or, in a stub, its note. -/
theorem notes_of_method (member : endpoint ∈ endpoints resource) {note : Note}
    (carried : note ∈ made.1.notes) :
    Plain note.text ∨ note = .doc (handlerHeading endpoint.route) ∨
      (Stubbed resource endpoint ∧ note = .comment (Handler.todo endpoint.route)) := by
  obtain ⟨handler, handlerEq, notesEq⟩ := exists_handler_of_method done
  rw [notesEq] at carried
  rcases List.mem_append.mp carried with inDoc | inBody
  · obtain ⟨line, lineMem, rfl⟩ := List.mem_map.mp inDoc
    rcases plain_or_heading_of_mem_doc member line lineMem with plain | rfl
    · exact .inl plain
    · exact .inr (.inl rfl)
  · obtain ⟨composed, supportedEq, made⟩ := bind_eq_ok_iff.mp handlerEq
    cases made
    cases composed with
    | none =>
        rw [Option.getD_none, Handler.notes_stub] at inBody
        exact .inr (.inr ⟨supportedEq, List.mem_singleton.mp inBody⟩)
    | some found =>
        have quiet := Handler.quiet_supported _ _ (some found) supportedEq
        exact .inl (plain_of_mem_auditNotes note (quiet found rfl inBody))

theorem heading_mem_notes : .doc (handlerHeading endpoint.route) ∈ made.1.notes := by
  obtain ⟨handler, -, notesEq⟩ := exists_handler_of_method done
  rw [notesEq]
  exact List.mem_append_left _ List.mem_cons_self

theorem todo_mem_notes (stubbed : Stubbed resource endpoint) :
    .comment (Handler.todo endpoint.route) ∈ made.1.notes := by
  obtain ⟨handler, handlerEq, notesEq⟩ := exists_handler_of_method done
  rw [Handler.ofRoute, stubbed] at handlerEq
  cases handlerEq
  rw [notesEq]
  exact List.mem_append_right _ List.mem_cons_self

end Method

theorem notes_selfDescription (resource : Resource) :
    methodNotes (selfDescription resource) = [] := rfl

/-- A controller has the notes of its handlers, its heading, and beyond these nothing that
comes from the configuration. -/
theorem exists_handlers_of_compose {ir : Ir} {resource : Resource} {composed : Composed}
    (done : compose ir resource = .ok composed) :
    ∃ handlers helpers,
      (endpoints resource).mapM (Endpoint.method resource (Metadata.ofResource resource)) =
        .ok handlers ∧
      (∀ helper ∈ helpers, Snippet.Undocumented helper) ∧
      composed.file.notes = .doc generatedNote :: .doc (classHeading resource) ::
        methodNotes (handlers.map (·.1) ++ helpers) := by
  obtain ⟨pieces, rfl⟩ := exists_pieces_of_compose done
  refine ⟨pieces.handlers, pieces.helpers, pieces.handlers_eq,
    Handler.undocumented_methods _ pieces.helpers pieces.helpers_eq, ?_⟩
  have methods : methodNotes pieces.decl.methods =
      methodNotes (pieces.handlers.map (·.1) ++ pieces.helpers) := by
    rw [Pieces.decl, List.append_assoc, methodNotes_append, notes_selfDescription, List.nil_append]
  rw [Pieces.composed, foldl_addUse, ← methods, ← List.append_nil (methodNotes _)]
  rfl

/-- The notes of a controller are fixed or tell about its resource. -/
theorem plain_or_tells_of_compose {ir : Ir} {resource : Resource} {composed : Composed}
    (done : compose ir resource = .ok composed) :
    ∀ note ∈ composed.file.notes, Plain note.text ∨ Tells resource note := by
  obtain ⟨handlers, helpers, handlersEq, undocumented, notesEq⟩ := exists_handlers_of_compose done
  intro note member
  rw [notesEq] at member
  rcases List.mem_cons.mp member with rfl | member
  · exact .inl (by decide +kernel)
  rcases List.mem_cons.mp member with rfl | member
  · exact .inr .name
  rw [methodNotes_eq_flatMap, List.flatMap_append] at member
  rcases List.mem_append.mp member with inHandlers | inHelpers
  · rw [List.flatMap_map] at inHandlers
    obtain ⟨handler, handlerMem, carried⟩ := List.mem_flatMap.mp inHandlers
    obtain ⟨endpoint, endpointMem, methodEq⟩ :=
      exists_mem_of_mapM_eq_ok handlersEq handler handlerMem
    rcases notes_of_method methodEq endpointMem carried with plain | rfl | ⟨stubbed, rfl⟩
    · exact .inl plain
    · exact .inr (.route endpointMem)
    · exact .inr (.stub endpointMem stubbed)
  · obtain ⟨helper, helperMem, carried⟩ := List.mem_flatMap.mp inHelpers
    have plain := undocumented helper helperMem
    rw [FunctionOf.notes, plain.doc] at carried
    exact .inl (plain_of_mem_auditNotes note (plain.body carried))

/-- Whatever tells about a resource is a note of its controller. -/
theorem mem_notes_of_tells {ir : Ir} {resource : Resource} {composed : Composed}
    (done : compose ir resource = .ok composed) {note : Note} (tells : Tells resource note) :
    note ∈ composed.file.notes := by
  obtain ⟨handlers, helpers, handlersEq, -, notesEq⟩ := exists_handlers_of_compose done
  have ofHandler {endpoint : Endpoint} (member : endpoint ∈ endpoints resource)
      (carried : ∀ made : Php.Method × List CacheEvent,
        endpoint.method resource (Metadata.ofResource resource) = .ok made → note ∈ made.1.notes) :
      note ∈ methodNotes (handlers.map (·.1) ++ helpers) := by
    obtain ⟨handler, handlerMem, methodEq⟩ := exists_result_of_mapM_eq_ok handlersEq endpoint member
    rw [methodNotes_eq_flatMap, List.flatMap_append, List.flatMap_map]
    exact List.mem_append_left _ (List.mem_flatMap.mpr ⟨handler, handlerMem, carried _ methodEq⟩)
  rw [notesEq]
  apply List.mem_cons_of_mem
  cases tells with
  | name => exact List.mem_cons_self
  | route member =>
      exact List.mem_cons_of_mem _ (ofHandler member fun _ done => heading_mem_notes done)
  | stub member stubbed =>
      exact List.mem_cons_of_mem _ (ofHandler member fun _ done => todo_mem_notes done stubbed)

end RestPlugin.Controller
