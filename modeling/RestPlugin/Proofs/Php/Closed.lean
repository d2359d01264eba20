import RestPlugin.Php.Marker
import RestPlugin.Proofs.Php.Everywhere

/-!
# Expressions closed under calls

A method of the current object is called with its number of arguments.  An expression is closed
under some methods if everything in it passes the checks, it calls no other methods of the current
object, and it calls no static method at all.
-/

namespace RestPlugin.Php

/-- The name of a method and the number of its parameters. -/
abbrev Signature : Type := String × Nat

/-- The signature of a method. -/
def FunctionOf.signature {σ : Type} (decl : FunctionOf σ) : Signature :=
  (decl.name, decl.params.length)

namespace Expr

/-- Whether the methods that an expression itself calls are there. -/
def Answered (methods : List Signature) : Expr → Prop
  | .methodCall base name args => base = this → (name, args.length) ∈ methods
  | .staticCall _ _ _ => False
  | _ => True

/-- An expression that is checked and answered everywhere. -/
def Closed (methods : List Signature) (expr : Expr) : Prop :=
  expr.Everywhere fun node => node.IsChecked ∧ node.Answered methods

variable {methods : List Signature}

/-- An expression is closed exactly if it passes the checks, its own call is answered and its parts
are closed. -/
theorem closed_iff {expr : Expr} : expr.Closed methods ↔
    (expr.IsChecked ∧ expr.Answered methods) ∧ ∀ part ∈ expr.parts, part.Closed methods :=
  everywhere_iff

/-- An expression is checked exactly if its words are identifiers and it has a proper shape. -/
theorem isChecked_iff {expr : Expr} :
    expr.IsChecked ↔ (∀ word ∈ expr.words, isIdentifier word = true) ∧ expr.IsShaped :=
  ⟨fun ⟨words, shaped⟩ => ⟨words, shaped⟩, fun ⟨words, shaped⟩ => ⟨words, shaped⟩⟩

@[simp]
theorem closed_var {name : String} :
    (var name).Closed methods ↔ isIdentifier name = true := by
  rw [closed_iff, isChecked_iff]
  simp [words, IsShaped, Answered, parts]

@[simp]
theorem closed_this : this.Closed methods := closed_var.mpr (by decide)

@[simp]
theorem closed_string (value : String) : (string value).Closed methods := by
  rw [closed_iff, isChecked_iff]
  simp [words, IsShaped, Answered, parts]

@[simp]
theorem closed_int (value : Int) : (int value).Closed methods := by
  rw [closed_iff, isChecked_iff]
  simp [words, IsShaped, Answered, parts]

theorem closed_constant {word : String} (checked : isIdentifier word = true) :
    (constant ⟨[word]⟩).Closed methods := by
  rw [closed_iff, isChecked_iff]
  simp [words, IsShaped, Answered, parts, checked]

@[simp]
theorem closed_null : null.Closed methods := closed_constant (by decide)

@[simp]
theorem closed_bool (value : Bool) : (bool value).Closed methods := by
  cases value <;> exact closed_constant (by decide)

@[simp]
theorem closed_classConstant {className name : String} :
    (classConstant ⟨[className]⟩ name).Closed methods ↔
      isIdentifier name = true ∧ isIdentifier className = true := by
  rw [closed_iff, isChecked_iff]
  simp [words, IsShaped, Answered, parts]

/-- An array is closed exactly if its parts are. -/
theorem closed_array {items : List ArrayItem} :
    (array items).Closed methods ↔ ∀ part ∈ (array items).parts, part.Closed methods := by
  rw [closed_iff, isChecked_iff]
  simp [words, IsShaped, Answered]

@[simp]
theorem closed_array_nil : (array []).Closed methods := closed_array.mpr (by simp [parts])

@[simp]
theorem closed_record {fields : List (String × Expr)} :
    (record fields).Closed methods ↔ ∀ field ∈ fields, field.2.Closed methods := by
  rw [record, closed_array, ← record, forall_mem_parts_record]
  simp

@[simp]
theorem closed_stringList (values : List String) : (stringList values).Closed methods :=
  closed_array.mpr (forall_mem_parts_plain.mpr fun value _ => closed_string value)

@[simp]
theorem closed_dim {base key : Expr} :
    (base.dim key).Closed methods ↔ base.Closed methods ∧ key.Closed methods := by
  rw [dim, closed_iff, isChecked_iff]
  simp [words, IsShaped, Answered, parts]

@[simp]
theorem closed_entry {base : Expr} {key : String} :
    (base.entry key).Closed methods ↔ base.Closed methods := by
  rw [entry, ← dim, closed_dim]
  simp

@[simp]
theorem closed_append {base : Expr} : base.append.Closed methods ↔ base.Closed methods := by
  rw [append, closed_iff, isChecked_iff]
  simp [words, IsShaped, Answered, parts]

@[simp]
theorem closed_property {base : Expr} {name : String} :
    (property base name).Closed methods ↔ isIdentifier name = true ∧ base.Closed methods := by
  rw [closed_iff, isChecked_iff]
  simp [words, IsShaped, Answered, parts]

@[simp]
theorem closed_fn {name : String} {args : List Expr} : (fn name args).Closed methods ↔
    isIdentifier name = true ∧ ∀ arg ∈ args, arg.Closed methods := by
  rw [fn, closed_iff, isChecked_iff]
  simp [words, IsShaped, Answered, parts]

@[simp]
theorem closed_newOf {className : String} {args : List Expr} :
    (newOf className args).Closed methods ↔
      isIdentifier className = true ∧ ∀ arg ∈ args, arg.Closed methods := by
  rw [newOf, closed_iff, isChecked_iff]
  simp [words, IsShaped, Answered, parts]

/-- A call is closed exactly if its parts are and, on the object itself, the method is listed. -/
theorem closed_methodCall {base : Expr} {name : String} {args : List Expr} :
    (methodCall base name args).Closed methods ↔
      isIdentifier name = true ∧ (base = this → (name, args.length) ∈ methods) ∧
        base.Closed methods ∧ ∀ arg ∈ args, arg.Closed methods := by
  rw [closed_iff, isChecked_iff]
  simp [words, IsShaped, Answered, parts, and_assoc]

@[simp]
theorem closed_assign {target value : Expr} : (assign target value).Closed methods ↔
    target.isAssignable = true ∧ target.Closed methods ∧ value.Closed methods := by
  rw [closed_iff, isChecked_iff]
  simp [words, IsShaped, Answered, parts]

@[simp]
theorem closed_binary {op : BinaryOp} {left right : Expr} :
    (binary op left right).Closed methods ↔ left.Closed methods ∧ right.Closed methods := by
  rw [closed_iff, isChecked_iff]
  simp [words, IsShaped, Answered, parts]

@[simp]
theorem closed_not {operand : Expr} : (not operand).Closed methods ↔ operand.Closed methods := by
  rw [closed_iff, isChecked_iff]
  simp [words, IsShaped, Answered, parts]

@[simp]
theorem closed_isA {operand : Expr} {className : String} :
    (operand.isA className).Closed methods ↔
      isIdentifier className = true ∧ operand.Closed methods := by
  rw [isA, closed_iff, isChecked_iff]
  simp [words, IsShaped, Answered, parts]

@[simp]
theorem closed_cast {kind : CastKind} {operand : Expr} :
    (cast kind operand).Closed methods ↔ operand.Closed methods := by
  rw [closed_iff, isChecked_iff]
  simp [words, IsShaped, Answered, parts]

@[simp]
theorem closed_ternary {condition yes no : Expr} :
    (ternary condition (some yes) no).Closed methods ↔
      condition.Closed methods ∧ no.Closed methods ∧ yes.Closed methods := by
  rw [closed_iff, isChecked_iff]
  simp [words, IsShaped, Answered, parts]

@[simp]
theorem closed_isset {args : List Expr} :
    (isset args).Closed methods ↔ ∀ arg ∈ args, arg.Closed methods := by
  rw [closed_iff, isChecked_iff]
  simp [words, IsShaped, Answered, parts]

@[simp]
theorem closed_arrow {isStatic : Bool} {param : String} {body : Expr} :
    (arrow isStatic [.mk param none none] body).Closed methods ↔
      isIdentifier param = true ∧ body.Closed methods := by
  rw [closed_iff, isChecked_iff]
  simp [words, IsShaped, Answered, parts, Param.name, Param.parts]

@[simp]
theorem isAssignable_var (name : String) : (var name).isAssignable = true := rfl

@[simp]
theorem isAssignable_entry (base : Expr) (key : String) : (base.entry key).isAssignable = true :=
  rfl

@[simp]
theorem isAssignable_append (base : Expr) : base.append.isAssignable = true := rfl

theorem closed_ofVariable (methods : List Signature) (value : String) :
    Ensures (fun expr => expr.isAssignable = true ∧ expr.Closed methods) (ofVariable value) := by
  intro expr made
  obtain ⟨name, nameEq, rfl⟩ := map_eq_ok_iff.mp made
  exact ⟨rfl, closed_var.mpr (eq_of_identifier_eq_ok nameEq).2⟩

theorem closed_thisCall {name : String} {args : List Expr}
    (listed : (name, args.length) ∈ methods) (argsClosed : ∀ arg ∈ args, arg.Closed methods) :
    Ensures (Closed methods) (thisCall name args) := by
  intro expr made
  obtain ⟨word, wordEq, rfl⟩ := map_eq_ok_iff.mp made
  obtain ⟨rfl, checked⟩ := eq_of_identifier_eq_ok wordEq
  exact closed_methodCall.mpr ⟨checked, fun _ => listed, closed_this, argsClosed⟩

end Expr

/-! ## Statements -/

/-- A statement that is checked and answered everywhere. -/
def Stmt.Closed (methods : List Signature) (stmt : Stmt) : Prop :=
  stmt.Everywhere fun node => node.IsChecked ∧ node.Answered methods

/-- Statements that are checked and answered everywhere. -/
def AllClosed (methods : List Signature) (stmts : List Stmt) : Prop :=
  ∀ stmt ∈ stmts, stmt.Closed methods

section Statements

variable {methods : List Signature} {stmts more : List Stmt}

@[simp]
theorem allClosed_nil : AllClosed methods [] := by
  simp [AllClosed]

@[simp]
theorem allClosed_cons {stmt : Stmt} :
    AllClosed methods (stmt :: stmts) ↔ stmt.Closed methods ∧ AllClosed methods stmts :=
  List.forall_mem_cons

@[simp]
theorem allClosed_append :
    AllClosed methods (stmts ++ more) ↔ AllClosed methods stmts ∧ AllClosed methods more :=
  List.forall_mem_append

theorem allClosed_flatten {groups : List (List Stmt)}
    (each : ∀ group ∈ groups, AllClosed methods group) : AllClosed methods groups.flatten := by
  intro stmt member
  obtain ⟨group, groupMem, inGroup⟩ := List.mem_flatten.mp member
  exact each group groupMem stmt inGroup

@[simp]
theorem closed_expression {value : Expr} :
    (Stmt.expression value).Closed methods ↔ value.Closed methods :=
  Stmt.everywhere_expression

@[simp]
theorem closed_returning {value : Expr} :
    (Stmt.returning value).Closed methods ↔ value.Closed methods :=
  Stmt.everywhere_returning

@[simp]
theorem closed_set {target value : Expr} : (Stmt.set target value).Closed methods ↔
    target.isAssignable = true ∧ target.Closed methods ∧ value.Closed methods :=
  Stmt.everywhere_expression.trans Expr.closed_assign

@[simp]
theorem closed_setVar {name : String} {value : Expr} : (Stmt.setVar name value).Closed methods ↔
    isIdentifier name = true ∧ value.Closed methods := by
  simp [Stmt.setVar]

@[simp]
theorem closed_when {condition : Expr} {body : List Stmt} :
    (Stmt.when condition body).Closed methods ↔
      condition.Closed methods ∧ AllClosed methods body :=
  Stmt.everywhere_when

@[simp]
theorem closed_cond {condition : Expr} {yes no : List Stmt} :
    (Stmt.cond condition yes (some no)).Closed methods ↔
      condition.Closed methods ∧ AllClosed methods yes ∧ AllClosed methods no :=
  Stmt.everywhere_cond

@[simp]
theorem closed_foreach {subject value : Expr} {body : List Stmt} :
    (Stmt.foreach subject none value body).Closed methods ↔
      subject.Closed methods ∧ value.Closed methods ∧ AllClosed methods body :=
  Stmt.everywhere_foreach

@[simp]
theorem closed_next : Stmt.next.Closed methods := Stmt.everywhere_next

@[simp]
theorem closed_blank : Stmt.blank.Closed methods := Stmt.everywhere_blank

@[simp]
theorem closed_marker (key value : String) : (marker key value).Closed methods :=
  Stmt.everywhere_nop _

@[simp]
theorem closed_comment (text : String) : (Stmt.comment text).Closed methods := Stmt.everywhere_nop _

theorem closed_function {decl : FunctionOf Stmt} (defaults : decl.defaults = [])
    (body : AllClosed methods decl.body) : (Stmt.function decl).Closed methods :=
  Stmt.everywhere_function.mpr ⟨by simp [defaults], body⟩

theorem closed_classDecl {decl : Class}
    (consts : ∀ constant ∈ decl.consts, constant.value.Closed methods)
    (bodies : ∀ method ∈ decl.methods, method.defaults = [] ∧ AllClosed methods method.body) :
    (Stmt.classDecl decl).Closed methods := by
  refine Stmt.everywhere_classDecl.mpr ⟨consts, fun method member => ?_⟩
  rw [(bodies method member).1]
  exact ⟨nofun, (bodies method member).2⟩

end Statements

/-! ## Methods -/

/-- A method with a given signature, without defaults, whose body is closed under some methods. -/
structure Answers (methods : List Signature) (signature : Signature) (method : Method) : Prop where
  signature_eq : method.signature = signature
  defaults : method.defaults = []
  body : AllClosed methods method.body

theorem map_signature_of_answers {methods signatures : List Signature} {made : List Method}
    (answered : List.Forall₂ (Answers methods) signatures made) :
    made.map FunctionOf.signature = signatures := by
  induction answered with
  | nil => rfl
  | cons first _ ih => rw [List.map_cons, first.signature_eq, ih]

theorem exists_answers_of_mem {methods signatures : List Signature} {made : List Method}
    (answered : List.Forall₂ (Answers methods) signatures made) :
    ∀ method ∈ made, ∃ signature ∈ signatures, Answers methods signature method := by
  induction answered with
  | nil => simp
  | @cons signature method _ _ first _ ih =>
      rw [List.forall_mem_cons]
      refine ⟨⟨signature, List.mem_cons_self, first⟩, fun other member => ?_⟩
      obtain ⟨found, foundMem, answers⟩ := ih other member
      exact ⟨found, List.mem_cons_of_mem _ foundMem, answers⟩

theorem ensures_method_of (name : String) :
    Ensures (fun method => method = { name := name }) (Method.of name) := by
  intro method made
  obtain ⟨word, wordEq, rfl⟩ := map_eq_ok_iff.mp made
  rw [(eq_of_identifier_eq_ok wordEq).1]

end RestPlugin.Php
