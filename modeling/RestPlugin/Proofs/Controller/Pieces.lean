import RestPlugin.Controller.Class
import RestPlugin.Proofs.Php.Regular

/-!
# The pieces of a controller

A controller is composed of its handlers, its private methods and some names.  Each of them may be
refused; the rest is the same for every resource.
-/

namespace RestPlugin

open Ir Php

namespace Php

variable (uses : List Name) (file : File)

/-- Adding use clauses changes nothing else of a file. -/
theorem foldl_addUse :
    uses.foldl File.addUse file = { file with uses := (uses.foldl File.addUse file).uses } := by
  induction uses generalizing file with
  | nil => rfl
  | cons name uses ih =>
      have step : ∃ later, file.addUse name = { file with uses := later } := by
        rw [File.addUse]
        split
        · exact ⟨file.uses, rfl⟩
        · exact ⟨_, rfl⟩
      obtain ⟨later, stepEq⟩ := step
      rw [List.foldl_cons, stepEq, ih]

/-- What a file imports was imported before or is among what is added. -/
theorem mem_uses_foldl_addUse {name : Name}
    (member : name ∈ (uses.foldl File.addUse file).uses) : name ∈ file.uses ∨ name ∈ uses := by
  induction uses generalizing file with
  | nil => exact .inl member
  | cons first uses ih =>
      rw [List.foldl_cons] at member
      rcases ih _ member with inFile | later
      · rw [File.addUse] at inFile
        split at inFile
        · exact .inl inFile
        · rcases List.mem_append.mp inFile with inFile | isFirst
          · exact .inl inFile
          · exact .inr (List.mem_singleton.mp isFirst ▸ List.mem_cons_self)
      · exact .inr (List.mem_cons_of_mem _ later)

end Php

namespace Controller

/-- What holds of texts, truth values and lists of texts, and of the records of what it holds of,
holds of the arguments that the routes of a resource accept. -/
theorem forall_mem_requestArgs {holds : Expr → Prop} (text : ∀ value, holds (.string value))
    (truth : ∀ value, holds (.bool value)) (texts : ∀ values, holds (.stringList values))
    (record : ∀ fields, (∀ field ∈ fields, holds field.2) → holds (.record fields))
    (resource : Resource) : ∀ field ∈ requestArgs resource, holds field.2 := by
  rw [requestArgs, List.forall_mem_append]
  constructor
  · intro field member
    obtain ⟨identity, -, rfl⟩ := Option.map_eq_some_iff.mp (Option.mem_toList.mp member)
    exact record _ (List.forall_mem_singleton.mpr (text _))
  · rw [List.forall_mem_map]
    rintro ⟨name, param⟩ -
    apply record
    rw [List.forall_mem_append, List.forall_mem_append]
    refine ⟨⟨?_, ?_⟩, ?_⟩
    · rw [List.forall_mem_cons, List.forall_mem_singleton]
      exact ⟨text _, truth _⟩
    · cases param.values with
      | none => exact List.forall_mem_nil _
      | some values => exact List.forall_mem_singleton.mpr (texts values)
    · cases param.description with
      | none => exact List.forall_mem_nil _
      | some description => exact List.forall_mem_singleton.mpr (text description)

/-- What the controller of a resource is composed of. -/
structure Pieces (ir : Ir) (resource : Resource) where
  handlers : List (Php.Method × List CacheEvent)
  helpers : List Php.Method
  space : Name
  uses : List Name
  handlers_eq : (endpoints resource).mapM
    (Endpoint.method resource (Metadata.ofResource resource)) = .ok handlers
  helpers_eq : Handler.methods resource (Text.pascalCase resource.name)
    (transientKey ir.info.slug resource) = .ok helpers
  named : isIdentifier (className resource) = true
  space_eq : Name.of (restNamespace ir.php) = .ok space
  uses_eq : (usedClasses ir.php resource).mapM Name.of = .ok uses

namespace Pieces

variable {ir : Ir} {resource : Resource} (pieces : Pieces ir resource)

/-- The class of the controller. -/
def decl : Php.Class where
  name := className resource
  isFinal := true
  parent := some ⟨["BaseController"]⟩
  doc := some ["REST controller for the `" ++ resource.name ++ "` resource."]
  methods := selfDescription resource ++ pieces.handlers.map (·.1) ++ pieces.helpers

/-- The controller. -/
def composed : Composed where
  className := className resource
  file := pieces.uses.foldl File.addUse
    { strictTypes := true
      doc := some [generatedNote]
      space := some pieces.space
      stmts := [.classDecl pieces.decl] }
  metadata := (Metadata.ofResource resource).note (pieces.handlers.flatMap (·.2))

/-- The file of a controller consists of its class. -/
theorem stmts_composed : pieces.composed.file.stmts = [.classDecl pieces.decl] :=
  congrArg File.stmts (foldl_addUse _ _)

theorem space_composed : pieces.composed.file.space = some pieces.space :=
  congrArg File.space (foldl_addUse _ _)

theorem mem_uses_composed {name : Name} (member : name ∈ pieces.composed.file.uses) :
    name ∈ pieces.uses :=
  (mem_uses_foldl_addUse _ _ member).resolve_left List.not_mem_nil

end Pieces

/-- Whatever is composed is put together from pieces. -/
theorem exists_pieces_of_compose {ir : Ir} {resource : Resource} {composed : Composed}
    (done : compose ir resource = .ok composed) :
    ∃ pieces : Pieces ir resource, composed = pieces.composed := by
  simp only [compose, bind_eq_ok_iff] at done
  obtain ⟨handlers, handlersEq, decl, declEq, helpers, helpersEq, space, spaceEq, uses, usesEq,
    made⟩ := done
  obtain ⟨name, nameEq, rfl⟩ := map_eq_ok_iff.mp declEq
  obtain ⟨rfl, named⟩ := eq_of_identifier_eq_ok nameEq
  exact ⟨⟨handlers, helpers, space, uses, handlersEq, helpersEq, named, spaceEq, usesEq⟩,
    (Except.ok.inj made).symm⟩

end Controller

end RestPlugin
