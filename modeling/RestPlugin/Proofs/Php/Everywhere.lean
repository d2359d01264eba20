import RestPlugin.Php.Printer
import RestPlugin.Php.Shape
import RestPlugin.Proofs.Php.Regular

/-!
# Properties of all expressions

The expressions of a statement itself, the statements directly below it, and the statements anywhere
inside of it are each taken with the number of blocks in between, which is the number of levels by
which it is indented more than the statement.

A property holds everywhere in an expression if it holds of the expression itself and everywhere in
its parts, and everywhere in a statement if it holds everywhere in the expressions of the statement
and of all statements inside of it.
-/

namespace RestPlugin.Php

/-! ## Statements inside of statements -/

theorem mem_map_pair {α : Type} {blocks depth : Nat} {part : α} {parts : List α} :
    (depth, part) ∈ parts.map (blocks, ·) ↔ blocks = depth ∧ part ∈ parts := by
  simp [and_comm]

/-- The defaults of the parameters of a function. -/
def FunctionOf.defaults {σ : Type} (decl : FunctionOf σ) : List Expr :=
  decl.params.flatMap Param.parts

namespace Stmt

/-- The expressions of a statement itself. -/
def exprs : Stmt → List (Nat × Expr)
  | .expression value => [(0, value)]
  | .ret value => value.toList.map (0, ·)
  | .cond condition _ _ => [(0, condition)]
  | .foreach subject key value _ => (subject :: value :: key.toList).map (0, ·)
  | .next | .nop _ => []
  | .function decl => decl.defaults.map (0, ·)
  | .classDecl decl =>
      (decl.consts.map ClassConst.value ++ decl.methods.flatMap FunctionOf.defaults).map (1, ·)

/-- The statements of an alternative.  A condition on its own continues the chain and stands at the
same depth. -/
def alternatives : List Stmt → List (Nat × Stmt)
  | [] => []
  | stmt :: rest =>
      if stmt.isCond && rest.isEmpty then [(0, stmt)] else (stmt :: rest).map (1, ·)

/-- The statements directly below a statement. -/
def children : Stmt → List (Nat × Stmt)
  | .cond _ yes no => yes.map (1, ·) ++ (no.map alternatives).getD []
  | .foreach _ _ _ body => body.map (1, ·)
  | .function decl => decl.body.map (1, ·)
  | .classDecl decl => decl.methods.flatMap fun method => method.body.map (2, ·)
  | .expression _ | .ret _ | .next | .nop _ => []

/-- A statement is inside of itself and of every statement above it. -/
inductive Inside (inner : Stmt) : Nat → Stmt → Prop
  | here : Inside inner 0 inner
  | inChild {blocks depth : Nat} {part outer : Stmt} (member : (blocks, part) ∈ outer.children)
      (inside : Inside inner depth part) : Inside inner (blocks + depth) outer

end Stmt

/-! ## Expressions -/

namespace Expr

variable {p q : Expr → Prop}

/-- A property holds everywhere in an expression exactly if it holds of it and
everywhere in its parts. -/
theorem everywhere_iff {expr : Expr} :
    expr.Everywhere p ↔ p expr ∧ ∀ part ∈ expr.parts, part.Everywhere p :=
  ⟨fun ⟨here, below⟩ => ⟨here, below⟩, fun ⟨here, below⟩ => .node here below⟩

theorem Everywhere.mono {expr : Expr} (weaker : ∀ node, p node → q node)
    (holds : expr.Everywhere p) : expr.Everywhere q := by
  induction holds with
  | node here _ ih => exact .node (weaker _ here) ih

/-- The value of every field of a record is part of it. -/
theorem forall_mem_parts_record {fields : List (String × Expr)} :
    (∀ part ∈ (record fields).parts, p part) ↔
      ∀ field ∈ fields, p (.string field.1) ∧ p field.2 := by
  simp only [record, parts, List.flatMap_map, List.mem_flatMap, ArrayItem.keyed, ArrayItem.parts,
    Option.toList_some, List.mem_pair]
  constructor
  · intro each field member
    exact ⟨each _ ⟨field, member, .inr rfl⟩, each _ ⟨field, member, .inl rfl⟩⟩
  · rintro each part ⟨field, member, rfl | rfl⟩
    · exact (each field member).2
    · exact (each field member).1

/-- The value of every item without a key is part of an array. -/
theorem forall_mem_parts_plain {α : Type} {value : α → Expr} {items : List α} :
    (∀ part ∈ (array (items.map fun item => .plain (value item))).parts, p part) ↔
      ∀ item ∈ items, p (value item) := by
  have parts_eq :
      (array (items.map fun item => .plain (value item))).parts = items.map value := by
    rw [parts, List.flatMap_map]
    exact List.map_eq_flatMap.symm
  rw [parts_eq, List.forall_mem_map]

end Expr

/-! ## Statements -/

namespace Stmt

/-- A property of all expressions in a statement. -/
def Everywhere (p : Expr → Prop) (stmt : Stmt) : Prop :=
  ∀ inner depth, Inside inner depth stmt → ∀ located ∈ inner.exprs, located.2.Everywhere p

variable {p q : Expr → Prop}

/-- A property holds everywhere in a statement exactly if it does in its expressions
and its children. -/
theorem everywhere_iff {stmt : Stmt} : stmt.Everywhere p ↔
    (∀ located ∈ stmt.exprs, located.2.Everywhere p) ∧
      ∀ child ∈ stmt.children, child.2.Everywhere p := by
  constructor
  · intro holds
    exact ⟨holds stmt 0 .here, fun child member inner depth inside =>
      holds inner _ (.inChild member inside)⟩
  · rintro ⟨here, below⟩ inner depth inside
    cases inside with
    | here => exact here
    | inChild member inside => exact below _ member inner _ inside

theorem Everywhere.mono {stmt : Stmt} (weaker : ∀ node, p node → q node)
    (holds : stmt.Everywhere p) : stmt.Everywhere q :=
  fun inner depth inside located member => (holds inner depth inside located member).mono weaker

theorem forall_mem_alternatives {stmts : List Stmt} {holds : Stmt → Prop} :
    (∀ child ∈ alternatives stmts, holds child.2) ↔ ∀ stmt ∈ stmts, holds stmt := by
  cases stmts with
  | nil => simp [alternatives]
  | cons stmt rest =>
      rw [alternatives]
      split
      · rename_i alone
        obtain rfl := List.isEmpty_iff.mp (Bool.and_eq_true_iff.mp alone).2
        simp
      · simp

@[simp]
theorem everywhere_expression {value : Expr} :
    (expression value).Everywhere p ↔ value.Everywhere p := by
  rw [everywhere_iff]
  simp [exprs, children]

@[simp]
theorem everywhere_returning {value : Expr} :
    (returning value).Everywhere p ↔ value.Everywhere p := by
  rw [returning, everywhere_iff]
  simp [exprs, children]

@[simp]
theorem everywhere_when {condition : Expr} {body : List Stmt} : (when condition body).Everywhere p ↔
    condition.Everywhere p ∧ ∀ stmt ∈ body, stmt.Everywhere p := by
  rw [Stmt.when, everywhere_iff]
  simp [exprs, children]

@[simp]
theorem everywhere_cond {condition : Expr} {yes no : List Stmt} :
    (cond condition yes (some no)).Everywhere p ↔ condition.Everywhere p ∧
      (∀ stmt ∈ yes, stmt.Everywhere p) ∧ ∀ stmt ∈ no, stmt.Everywhere p := by
  rw [everywhere_iff, ← @forall_mem_alternatives no (Everywhere p)]
  simp only [exprs, children, Option.map_some, Option.getD_some, List.forall_mem_append,
    List.forall_mem_map, List.forall_mem_singleton]

@[simp]
theorem everywhere_foreach {subject value : Expr} {body : List Stmt} :
    (foreach subject none value body).Everywhere p ↔
      subject.Everywhere p ∧ value.Everywhere p ∧ ∀ stmt ∈ body, stmt.Everywhere p := by
  rw [everywhere_iff]
  simp [exprs, children, and_assoc]

@[simp]
theorem everywhere_next : next.Everywhere p := by
  rw [everywhere_iff]
  simp [exprs, children]

@[simp]
theorem everywhere_nop (comments : List String) : (nop comments).Everywhere p := by
  rw [everywhere_iff]
  simp [exprs, children]

@[simp]
theorem everywhere_blank : blank.Everywhere p := everywhere_nop []

/-- A property holds everywhere in a function exactly if it does in its defaults and its body. -/
theorem everywhere_function {decl : FunctionOf Stmt} : (function decl).Everywhere p ↔
    (∀ expr ∈ decl.defaults, expr.Everywhere p) ∧ ∀ stmt ∈ decl.body, stmt.Everywhere p := by
  rw [everywhere_iff, exprs, children, List.forall_mem_map, List.forall_mem_map]

/-- A property holds everywhere in a class exactly if it does in its constants and its methods. -/
theorem everywhere_classDecl {decl : Class} : (classDecl decl).Everywhere p ↔
    (∀ constant ∈ decl.consts, constant.value.Everywhere p) ∧
      ∀ method ∈ decl.methods, (∀ expr ∈ method.defaults, expr.Everywhere p) ∧
        ∀ stmt ∈ method.body, stmt.Everywhere p := by
  rw [everywhere_iff]
  simp only [exprs, children, List.mem_map, List.mem_append, List.mem_flatMap]
  constructor
  · rintro ⟨roots, bodies⟩
    constructor
    · intro constant member
      exact roots (1, _) ⟨_, .inl ⟨constant, member, rfl⟩, rfl⟩
    · intro method member
      exact ⟨fun expr default => roots (1, _) ⟨_, .inr ⟨method, member, default⟩, rfl⟩,
        fun stmt inBody => bodies (2, _) ⟨method, member, stmt, inBody, rfl⟩⟩
  · rintro ⟨consts, methods⟩
    constructor
    · rintro _ ⟨expr, ⟨constant, member, rfl⟩ | ⟨method, member, default⟩, rfl⟩
      · exact consts constant member
      · exact (methods method member).1 expr default
    · rintro _ ⟨method, member, stmt, inBody, rfl⟩
      exact (methods method member).2 stmt inBody

end Stmt

/-- A property of all expressions in a file. -/
def File.Everywhere (p : Expr → Prop) (file : File) : Prop :=
  ∀ stmt ∈ file.stmts, stmt.Everywhere p

end RestPlugin.Php
