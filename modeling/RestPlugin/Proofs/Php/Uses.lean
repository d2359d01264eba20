import RestPlugin.Proofs.Php.Everywhere
import RestPlugin.Proofs.Php.Paths

/-!
# Variables of expressions

An expression uses some variables if it reads no others and assigns to none, and it is settled if it
assigns at most in the end.  Then all its paths read only variables with a value.
-/

namespace RestPlugin.Php

open Access

namespace Expr

/-- Whether an expression itself neither reads a variable nor binds one. -/
def BindsNothing : Expr → Prop
  | .var _ | .assign _ _ | .arrow _ _ _ => False
  | _ => True

/-- An expression that reads only given variables and assigns to none. -/
inductive Uses : List String → Expr → Prop
  | var {given : List String} {name : String} (known : name ∈ given) : Uses given (.var name)
  | arrow {given : List String} {isStatic : Bool} {params : List Param} {body : Expr}
      (defaults : ∀ param ∈ params, param.parts = [])
      (uses : Uses (given ++ params.map Param.name) body) : Uses given (.arrow isStatic params body)
  | node {given : List String} {expr : Expr} (plain : expr.BindsNothing)
      (below : ∀ part ∈ expr.parts, Uses given part) : Uses given expr

variable {given more : List String}

/-- An expression that uses given variables does so if more are given. -/
theorem Uses.mono {expr : Expr} (uses : expr.Uses given) (known : given ⊆ more) :
    expr.Uses more := by
  induction uses generalizing more with
  | var member => exact .var (known member)
  | arrow defaults _ ih =>
      refine .arrow defaults (ih fun name member => ?_)
      rw [List.mem_append] at member ⊢
      exact member.imp_left fun inGiven => known inGiven
  | node plain _ ih => exact .node plain fun part member => ih part member known

/-- An expression without bindings uses what is given exactly if its parts do. -/
theorem uses_iff (expr : Expr) (plain : expr.BindsNothing) :
    expr.Uses given ↔ ∀ part ∈ expr.parts, part.Uses given := by
  constructor
  · intro uses
    cases uses with
    | var | arrow => exact plain.elim
    | node _ below => exact below
  · exact .node plain

@[simp]
theorem uses_var {name : String} : (var name).Uses given ↔ name ∈ given := by
  constructor
  · intro uses
    cases uses with
    | var known => exact known
    | node plain => exact plain.elim
  · exact .var

@[simp]
theorem uses_string (value : String) : (string value).Uses given := .node trivial nofun

@[simp]
theorem uses_int (value : Int) : (int value).Uses given := .node trivial nofun

@[simp]
theorem uses_constant (name : Name) : (constant name).Uses given := .node trivial nofun

@[simp]
theorem uses_null : null.Uses given := uses_constant _

@[simp]
theorem uses_bool (value : Bool) : (bool value).Uses given := uses_constant _

@[simp]
theorem uses_classConstant (className : Name) (name : String) :
    (classConstant className name).Uses given := .node trivial nofun

/-- An array uses what is given exactly if its parts do. -/
theorem uses_array {items : List ArrayItem} :
    (array items).Uses given ↔ ∀ part ∈ (array items).parts, part.Uses given :=
  uses_iff _ trivial

@[simp]
theorem uses_array_nil : (array []).Uses given := .node trivial nofun

@[simp]
theorem uses_record {fields : List (String × Expr)} :
    (record fields).Uses given ↔ ∀ field ∈ fields, field.2.Uses given := by
  rw [record, uses_array, ← record, forall_mem_parts_record]
  simp

@[simp]
theorem uses_stringList (values : List String) : (stringList values).Uses given :=
  uses_array.mpr (forall_mem_parts_plain.mpr fun value _ => uses_string value)

@[simp]
theorem uses_dim {base key : Expr} : (base.dim key).Uses given ↔ base.Uses given ∧ key.Uses given :=
  (uses_iff (element base (some key)) trivial).trans (by simp [parts])

@[simp]
theorem uses_entry {base : Expr} {key : String} :
    (base.entry key).Uses given ↔ base.Uses given := by
  rw [entry, ← dim, uses_dim]
  simp

@[simp]
theorem uses_property {base : Expr} {name : String} :
    (property base name).Uses given ↔ base.Uses given :=
  (uses_iff (property base name) trivial).trans (by simp [parts])

@[simp]
theorem uses_fn {name : String} {args : List Expr} :
    (fn name args).Uses given ↔ ∀ arg ∈ args, arg.Uses given := uses_iff _ trivial

@[simp]
theorem uses_newOf {className : String} {args : List Expr} :
    (newOf className args).Uses given ↔ ∀ arg ∈ args, arg.Uses given := uses_iff _ trivial

@[simp]
theorem uses_methodCall {base : Expr} {name : String} {args : List Expr} :
    (methodCall base name args).Uses given ↔ base.Uses given ∧ ∀ arg ∈ args, arg.Uses given :=
  (uses_iff (methodCall base name args) trivial).trans (by simp [parts])

@[simp]
theorem uses_staticCall {className : Name} {name : String} {args : List Expr} :
    (staticCall className name args).Uses given ↔ ∀ arg ∈ args, arg.Uses given := uses_iff _ trivial

@[simp]
theorem uses_binary {op : BinaryOp} {left right : Expr} :
    (binary op left right).Uses given ↔ left.Uses given ∧ right.Uses given :=
  (uses_iff (binary op left right) trivial).trans (by simp [parts])

@[simp]
theorem uses_not {operand : Expr} : (not operand).Uses given ↔ operand.Uses given :=
  (uses_iff (not operand) trivial).trans (by simp [parts])

@[simp]
theorem uses_isA {operand : Expr} {className : String} :
    (operand.isA className).Uses given ↔ operand.Uses given :=
  (uses_iff (instanceOf operand ⟨[className]⟩) trivial).trans (by simp [parts])

@[simp]
theorem uses_cast {kind : CastKind} {operand : Expr} :
    (cast kind operand).Uses given ↔ operand.Uses given :=
  (uses_iff (cast kind operand) trivial).trans (by simp [parts])

@[simp]
theorem uses_ternary {condition yes no : Expr} : (ternary condition (some yes) no).Uses given ↔
    condition.Uses given ∧ no.Uses given ∧ yes.Uses given :=
  (uses_iff (ternary condition (some yes) no) trivial).trans (by simp [parts])

@[simp]
theorem uses_isset {args : List Expr} :
    (isset args).Uses given ↔ ∀ arg ∈ args, arg.Uses given := uses_iff _ trivial

@[simp]
theorem uses_arrow {isStatic : Bool} {param : String} {body : Expr} :
    (arrow isStatic [.mk param none none] body).Uses given ↔ body.Uses (given ++ [param]) := by
  constructor
  · intro uses
    cases uses with
    | arrow _ uses => exact uses
    | node plain => exact plain.elim
  · intro uses
    refine .arrow ?_ uses
    simp [Param.parts]

/-! ### Their paths -/

theorem leads_optionAccesses {expr : Option Expr}
    (each : ∀ part ∈ expr, Leads given given part.accesses) :
    Leads given given (optionAccesses expr) := by
  cases expr with
  | none => exact leads_one
  | some part => exact each part rfl

theorem leads_listAccesses {exprs : List Expr}
    (each : ∀ part ∈ exprs, Leads given given part.accesses) :
    Leads given given (listAccesses exprs) := by
  induction exprs with
  | nil => exact leads_one
  | cons expr exprs ih =>
      rw [List.forall_mem_cons] at each
      exact each.1.mul (ih each.2)

theorem leads_someAccesses {exprs : List Expr}
    (each : ∀ part ∈ exprs, Leads given given part.accesses) :
    Leads given given (someAccesses exprs) := by
  induction exprs with
  | nil => exact leads_one
  | cons expr exprs ih =>
      rw [List.forall_mem_cons] at each
      exact each.1.mul (leads_one.add (ih each.2))

theorem leads_itemAccesses {items : List ArrayItem}
    (each : ∀ part ∈ items.flatMap ArrayItem.parts, Leads given given part.accesses) :
    Leads given given (itemAccesses items) := by
  induction items with
  | nil => exact leads_one
  | cons item items ih =>
      obtain ⟨key, value⟩ := item
      rw [List.flatMap_cons, List.forall_mem_append, ArrayItem.parts, List.forall_mem_cons] at each
      obtain ⟨⟨ofValue, ofKey⟩, ofItems⟩ := each
      have keyLeads :=
        leads_optionAccesses fun part member => ofKey part (Option.mem_toList.mpr member)
      exact (keyLeads.mul ofValue).mul (ih ofItems)

theorem leads_armAccesses {arms : List MatchArm}
    (each : ∀ part ∈ arms.flatMap MatchArm.parts, Leads given given part.accesses) :
    Leads given given (armAccesses arms) := by
  induction arms with
  | nil => exact leads_one
  | cons arm arms ih =>
      obtain ⟨conditions, body⟩ := arm
      rw [List.flatMap_cons, List.forall_mem_append, MatchArm.parts, List.forall_mem_cons] at each
      obtain ⟨⟨ofBody, ofConditions⟩, ofArms⟩ := each
      exact ((leads_someAccesses ofConditions).mul ofBody).add
        ((leads_listAccesses ofConditions).mul (ih ofArms))

theorem leads_paramAccesses {params : List Param} (defaults : ∀ param ∈ params, param.parts = []) :
    Leads given given (paramAccesses params) := by
  induction params with
  | nil => exact leads_one
  | cons param params ih =>
      obtain ⟨name, type, default⟩ := param
      rw [List.forall_mem_cons, Param.parts, Option.toList_eq_nil_iff] at defaults
      obtain ⟨rfl, others⟩ := defaults
      exact (leads_one.add leads_one).mul (ih others)

/-- An expression without bindings keeps what is given if its parts do. -/
theorem leads_accesses_of_parts {expr : Expr} (plain : expr.BindsNothing)
    (each : ∀ part ∈ expr.parts, Leads given given part.accesses) :
    Leads given given expr.accesses := by
  cases expr with
  | var | assign | arrow => exact plain.elim
  | string | int | constant | classConstant => exact leads_one
  | array items => exact leads_itemAccesses each
  | element base key =>
      rw [parts, List.forall_mem_cons] at each
      exact each.1.mul (leads_optionAccesses fun part member =>
        each.2 part (Option.mem_toList.mpr member))
  | property base name => exact each base List.mem_cons_self
  | call name args | staticCall className name args | new className args =>
      exact leads_listAccesses each
  | methodCall base name args =>
      rw [parts, List.forall_mem_cons] at each
      exact each.1.mul (leads_listAccesses each.2)
  | binary op left right =>
      rw [parts, List.forall_mem_cons, List.forall_mem_singleton] at each
      rw [accesses]
      split
      · exact each.1.mul (leads_one.add each.2)
      · exact each.1.mul each.2
  | not operand | instanceOf operand className | cast kind operand =>
      exact each operand List.mem_cons_self
  | ternary condition yes no =>
      rw [parts, List.forall_mem_cons, List.forall_mem_cons] at each
      obtain ⟨ofCondition, ofNo, ofYes⟩ := each
      have yesLeads :=
        leads_optionAccesses fun part member => ofYes part (Option.mem_toList.mpr member)
      exact ofCondition.mul (yesLeads.add ofNo)
  | isset args => exact leads_someAccesses each
  | matching subject arms =>
      rw [parts, List.forall_mem_cons] at each
      exact each.1.mul (leads_armAccesses each.2)

/-- An expression reads what it uses. -/
theorem Uses.leads {expr : Expr} (uses : expr.Uses given) : Leads given given expr.accesses := by
  induction uses with
  | var known => exact leads_read known
  | @arrow given isStatic params body defaults _ ih =>
      rintro path ⟨inner, innerMem, rfl⟩
      have leads := (leads_paramAccesses defaults).mul ih
      exact ⟨assigned_captured (leads inner innerMem).1, fun name known => .inl known⟩
  | node plain _ ih => exact leads_accesses_of_parts plain ih

/-! ### Assignments -/

/-- The variables that a target of an assignment stands for itself. -/
def names : Expr → List String
  | .var name => [name]
  | _ => []

/-- Whether a value can be assigned to a target.  What an element or a property belongs to is looked
up. -/
def Ready (given : List String) : Expr → Prop
  | .var _ => True
  | target => target.isAssignable = true ∧ target.Uses given

/-- A target that is ready can be assigned to. -/
theorem Ready.assignable {target : Expr} (ready : target.Ready given) :
    target.isAssignable = true := by
  cases target with
  | var name => rfl
  | _ => exact ready.1

/-- An assignment adds the names of its target to what its value keeps. -/
theorem leads_receives {target : Expr} (ready : target.Ready given) {value : Language Access}
    (leads : Leads given given value) :
    Leads given (given ++ target.names) (target.receives target.accesses value) := by
  have looked (uses : target.Uses given) : Leads given (given ++ []) (target.accesses * value) := by
    rw [List.append_nil]
    exact uses.leads.mul leads
  cases target with
  | var name => exact leads.mul (leads_write given name)
  | _ => exact looked ready.2

/-- The variables that an expression assigns to in the end. -/
def assigned : Expr → List String
  | .assign target _ => target.names
  | _ => []

/-- An expression that reads only given variables and assigns at most in the end. -/
def Settled (given : List String) : Expr → Prop
  | .assign target value => target.Ready given ∧ value.Uses given
  | expr => expr.Uses given

/-- The paths through a settled expression keep what it assigns. -/
theorem Settled.leads {expr : Expr} (settled : expr.Settled given) :
    Leads given (given ++ expr.assigned) expr.accesses := by
  have plain (uses : expr.Uses given) : Leads given (given ++ []) expr.accesses := by
    rw [List.append_nil]
    exact uses.leads
  cases expr with
  | assign target value =>
      rw [accesses]
      exact leads_receives settled.1 settled.2.leads
  | _ => exact plain settled

end Expr

end RestPlugin.Php
