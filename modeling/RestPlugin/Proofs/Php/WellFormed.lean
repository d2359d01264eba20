import RestPlugin.Proofs.Php.Closed
import RestPlugin.Proofs.Php.Settled

/-!
# Well-formed files

Whatever a file uses as a name is an identifier, in expressions and in declarations alike, and a
value is assigned only to a variable, to an element of an array or to a property.
-/

namespace RestPlugin.Php

/-! ## What is well formed -/

/-- An expression whose own names are identifiers and which assigns only to what takes a value. -/
structure Expr.WellFormed (expr : Expr) : Prop where
  words : ∀ word ∈ expr.words, isIdentifier word = true
  target : ∀ target value, expr = .assign target value → target.isAssignable = true

theorem Expr.IsChecked.wellFormed {expr : Expr} (checked : expr.IsChecked) : expr.WellFormed := by
  refine ⟨checked.words, ?_⟩
  rintro target value rfl
  exact checked.shaped

/-- The names that a function declares: its own and those of its parameters. -/
def FunctionOf.words {σ : Type} (decl : FunctionOf σ) : List String :=
  decl.name :: decl.params.map Param.name

/-- The names that a class declares or derives from. -/
def ClassOf.words {σ : Type} (decl : ClassOf σ) : List String :=
  decl.name :: decl.parent.toList.flatMap Name.parts ++ decl.consts.map ClassConst.name ++
    decl.methods.flatMap FunctionOf.words

namespace Stmt

/-- The names of a statement itself. -/
def words : Stmt → List String
  | .function decl => decl.words
  | .classDecl decl => decl.words
  | _ => []

/-- What a loop assigns to. -/
def targets : Stmt → List Expr
  | .foreach _ key value _ => value :: key.toList
  | _ => []

/-- A statement whose own names are identifiers and which, if it is a loop, assigns
only to what takes a value. -/
structure WellFormed (stmt : Stmt) : Prop where
  words : ∀ word ∈ stmt.words, isIdentifier word = true
  targets : ∀ target ∈ stmt.targets, target.isAssignable = true

end Stmt

/-- A file with identifiers for names, which assigns only to what takes a value. -/
structure File.WellFormed (file : File) : Prop where
  names : ∀ name ∈ file.space.toList ++ file.uses, ∀ part ∈ name.parts, isIdentifier part = true
  exprs : file.Everywhere Expr.WellFormed
  stmts : ∀ outer ∈ file.stmts, ∀ inner depth, Stmt.Inside inner depth outer → inner.WellFormed

/-! ## Settled code -/

theorem wellFormed_of_settled {stmt : Stmt} {given : List String} (settled : stmt.Settled given) :
    stmt.WellFormed := by
  cases stmt with
  | function | classDecl =>
      rw [Stmt.Settled] at settled
      exact settled.elim
  | foreach subject key value body =>
      rw [Stmt.Settled] at settled
      refine ⟨nofun, ?_⟩
      rw [Stmt.targets, List.forall_mem_cons]
      exact ⟨settled.2.1.assignable, fun target member =>
        (settled.2.2.1 target (Option.mem_toList.mp member)).assignable⟩
  | _ => exact ⟨nofun, nofun⟩

theorem wellFormed_of_inside {given : List String} {stmts : List Stmt}
    (settled : AllSettled given stmts) {outer inner : Stmt} {depth : Nat} (member : outer ∈ stmts)
    (inside : Stmt.Inside inner depth outer) : inner.WellFormed := by
  obtain ⟨known, outerSettled⟩ := exists_settled_of_mem settled outer member
  obtain ⟨found, innerSettled⟩ := exists_settled_of_inside inside outerSettled
  exact wellFormed_of_settled innerSettled

/-- Every statement in a function with checked words and a settled body is well-formed. -/
theorem wellFormed_of_inside_function {decl : FunctionOf Stmt} {given : List String}
    (words : ∀ word ∈ decl.words, isIdentifier word = true) (settled : AllSettled given decl.body)
    {inner : Stmt} {depth : Nat} (inside : Stmt.Inside inner depth (.function decl)) :
    inner.WellFormed := by
  cases inside with
  | here => exact ⟨words, nofun⟩
  | inChild member inside =>
      obtain ⟨stmt, inBody, pairEq⟩ := List.mem_map.mp member
      cases pairEq
      exact wellFormed_of_inside settled inBody inside

theorem wellFormed_of_inside_classDecl {decl : Class}
    (words : ∀ word ∈ decl.words, isIdentifier word = true)
    (settled : ∀ method ∈ decl.methods, method.Settled) {inner : Stmt} {depth : Nat}
    (inside : Stmt.Inside inner depth (.classDecl decl)) : inner.WellFormed := by
  cases inside with
  | here => exact ⟨words, nofun⟩
  | inChild member inside =>
      obtain ⟨method, methodMem, inMethod⟩ := List.mem_flatMap.mp member
      obtain ⟨stmt, inBody, pairEq⟩ := List.mem_map.mp inMethod
      cases pairEq
      exact wellFormed_of_inside (settled method methodMem).body inBody inside

/-- A file that consists of a class. -/
theorem File.wellFormed_of_class {file : File} {decl : Class}
    (names : ∀ name ∈ file.space.toList ++ file.uses, ∀ part ∈ name.parts, isIdentifier part = true)
    (stmts : file.stmts = [.classDecl decl]) (exprs : file.Everywhere Expr.WellFormed)
    (words : ∀ word ∈ decl.words, isIdentifier word = true)
    (settled : ∀ method ∈ decl.methods, method.Settled) : file.WellFormed := by
  refine ⟨names, exprs, ?_⟩
  rw [stmts, List.forall_mem_singleton]
  exact fun inner depth inside => wellFormed_of_inside_classDecl words settled inside

/-! ## Methods -/

/-- A method with identifiers for names. -/
def FunctionOf.WellNamed (method : Method) : Prop :=
  ∀ word ∈ method.words, isIdentifier word = true

@[simp]
theorem wellNamed_iff {method : Method} : method.WellNamed ↔
    isIdentifier method.name = true ∧ ∀ param ∈ method.params, isIdentifier param.name = true := by
  rw [FunctionOf.WellNamed, FunctionOf.words, List.forall_mem_cons, List.forall_mem_map]

/-- What is made of a method under a name may use that the name is an identifier. -/
theorem ensures_method_bind {α : Type} {ensured : α → Prop} {value : String}
    {next : Method → Build α}
    (later : isIdentifier value = true → Ensures ensured (next { name := value })) :
    Ensures ensured (Method.of value >>= next) := by
  intro result done
  obtain ⟨method, made, nextEq⟩ := bind_eq_ok_iff.mp done
  obtain ⟨name, nameEq, rfl⟩ := map_eq_ok_iff.mp made
  obtain ⟨rfl, checked⟩ := eq_of_identifier_eq_ok nameEq
  exact later checked result nextEq

theorem ensures_isIdentifier_typed (type value : String) :
    Ensures (fun param => isIdentifier param.name = true) (Param.typed type value) := by
  intro param made
  obtain ⟨name, nameEq, rfl⟩ := map_eq_ok_iff.mp made
  exact (eq_of_identifier_eq_ok nameEq).2

end RestPlugin.Php
