import RestPlugin.Php.Marker
import RestPlugin.Proofs.Php.Uses

/-!
# Settled code

A check that reads statements once, from the first to the last, and keeps a list of the variables
that surely have a value.  What it accepts reads no variable without a value, on whatever path.
-/

namespace RestPlugin.Php

open Computability

/-! ## Statements -/

mutual

/-- The variables that a statement assigns to on every path that passes it. -/
def Stmt.assigns : Stmt → List String
  | .expression value => value.assigned
  | .cond _ yes no => (allAssigns yes).filter (elseAssigns no).contains
  | .ret _ | .foreach _ _ _ _ | .next | .nop _ | .function _ | .classDecl _ => []

/-- The variables that statements assign to on every path that passes them. -/
def allAssigns : List Stmt → List String
  | [] => []
  | stmt :: rest => stmt.assigns ++ allAssigns rest

/-- The variables that an alternative assigns to on every path that passes it. -/
def elseAssigns : Option (List Stmt) → List String
  | none => []
  | some stmts => allAssigns stmts

end

mutual

/-- A statement that reads only given variables and those it has assigned to, and declares
nothing. -/
def Stmt.Settled : List String → Stmt → Prop
  | given, .expression value => value.Settled given
  | given, .ret value => ∀ expr ∈ value, expr.Uses given
  | given, .cond condition yes no =>
      condition.Uses given ∧ AllSettled given yes ∧ ElseSettled given no
  | given, .foreach subject key value body =>
      subject.Uses given ∧ value.Ready given ∧
        (∀ target ∈ key, target.Ready (given ++ value.names)) ∧
        AllSettled (given ++ value.names ++ key.elim [] Expr.names) body
  | _, .next | _, .nop _ => True
  | _, .function _ | _, .classDecl _ => False

/-- Statements that read only given variables and those assigned to before. -/
def AllSettled : List String → List Stmt → Prop
  | _, [] => True
  | given, stmt :: rest => stmt.Settled given ∧ AllSettled (given ++ stmt.assigns) rest

/-- An alternative that reads only given variables and those it has assigned to. -/
def ElseSettled : List String → Option (List Stmt) → Prop
  | _, none => True
  | given, some stmts => AllSettled given stmts

end

/-- What has a value after statements are left in some way, if they assign to some variables. -/
def Exit.keeps (given assigned : List String) : Exit → List String
  | .passed => given ++ assigned
  | .continued | .returned => given

theorem Exit.given_subset_keeps (given assigned : List String) (exit : Exit) :
    given ⊆ exit.keeps given assigned := by
  cases exit with
  | passed => exact List.subset_append_left _ _
  | continued | returned => exact List.Subset.refl _

theorem leads_bindings {given : List String} {value : Expr} {key : Option Expr}
    (ready : value.Ready given) (keyReady : ∀ target ∈ key, target.Ready (given ++ value.names)) :
    Leads given (given ++ value.names ++ key.elim [] Expr.names)
      (value.bindings * key.elim 1 Expr.bindings) := by
  refine (Expr.leads_receives ready leads_one).mul ?_
  cases key with
  | none =>
      rw [Option.elim_none, Option.elim_none, List.append_nil]
      exact leads_one
  | some target => exact Expr.leads_receives (keyReady target rfl) leads_one

/-- An exit keeps no fewer variables if more are assigned. -/
theorem Exit.keeps_subset (given : List String) {assigned more : List String} (exit : Exit)
    (fewer : assigned ⊆ more) : exit.keeps given assigned ⊆ exit.keeps given more := by
  cases exit with
  | passed =>
      intro name member
      rw [Exit.keeps, List.mem_append] at member ⊢
      exact member.imp_right fun assigned => fewer assigned
  | continued | returned => exact List.Subset.refl _

theorem leads_pass (given : List String) (exit : Exit) :
    Leads given (exit.keeps given []) (Exit.passed.only 1 exit) := by
  apply Leads.only (Exit.keeps given [])
  rw [Exit.keeps, List.append_nil]
  exact leads_one

mutual

/-- A settled statement reads what has a value, on whatever path. -/
theorem Stmt.Settled.leads {given : List String} : ∀ {stmt : Stmt}, stmt.Settled given →
    ∀ exit, Leads given (exit.keeps given stmt.assigns) (stmt.paths exit)
  | .expression value, settled, exit => by
      rw [Stmt.Settled] at settled
      rw [Stmt.assigns, Stmt.paths]
      exact Leads.only (Exit.keeps given value.assigned) settled.leads exit
  | .ret value, settled, exit => by
      rw [Stmt.Settled] at settled
      rw [Stmt.assigns, Stmt.paths]
      apply Leads.only (Exit.keeps given [])
      exact Expr.leads_optionAccesses fun expr member => (settled expr member).leads
  | .cond condition yes no, settled, exit => by
      rw [Stmt.Settled] at settled
      obtain ⟨ofCondition, ofYes, ofNo⟩ := settled
      rw [Stmt.assigns, Stmt.paths]
      have inYes : (allAssigns yes).filter (elseAssigns no).contains ⊆ allAssigns yes :=
        fun name member => (List.mem_filter.mp member).1
      have inNo : (allAssigns yes).filter (elseAssigns no).contains ⊆ elseAssigns no :=
        fun name member => List.contains_iff_mem.mp (List.mem_filter.mp member).2
      have yesLeads := (ofYes.leads exit).mono (exit.keeps_subset given inYes)
      have noLeads := (ofNo.leads exit).mono (exit.keeps_subset given inNo)
      exact ofCondition.leads.mul (yesLeads.add noLeads)
  | .foreach subject key value body, settled, exit => by
      rw [Stmt.Settled] at settled
      obtain ⟨ofSubject, ready, keyReady, ofBody⟩ := settled
      rw [Stmt.assigns, Stmt.paths]
      have start := leads_bindings ready keyReady
      have inBody (way : Exit) : Leads given given
          (value.bindings * key.elim 1 Expr.bindings * allPaths body way) :=
        (start.mul (ofBody.leads way)).mono fun name known =>
          way.given_subset_keeps _ _ (List.mem_append_left _ (List.mem_append_left _ known))
      have round : Leads given given (value.bindings * key.elim 1 Expr.bindings *
          (allPaths body .passed + allPaths body .continued)) := by
        rw [mul_add]
        exact (inBody .passed).add (inBody .continued)
      have ends : Leads given (exit.keeps given []) (Exit.passed.only 1 exit +
          Exit.returned.only (value.bindings * key.elim 1 Expr.bindings * allPaths body .returned)
            exit) :=
        (leads_pass given exit).add
          (Leads.only (Exit.keeps given []) (inBody .returned) exit)
      exact (ofSubject.leads.mul round.kstar).mul ends
  | .next, _, exit => by
      rw [Stmt.assigns, Stmt.paths]
      exact Leads.only (Exit.keeps given []) leads_one exit
  | .nop comments, _, exit => by
      rw [Stmt.assigns, Stmt.paths]
      exact leads_pass given exit
  | .function decl, settled, _ | .classDecl decl, settled, _ => by
      rw [Stmt.Settled] at settled
      exact settled.elim

/-- The paths through settled statements keep what these assign. -/
theorem AllSettled.leads {given : List String} : ∀ {stmts : List Stmt}, AllSettled given stmts →
    ∀ exit, Leads given (exit.keeps given (allAssigns stmts)) (allPaths stmts exit)
  | [], _, exit => by
      rw [allAssigns, allPaths]
      exact leads_pass given exit
  | stmt :: rest, settled, exit => by
      rw [AllSettled] at settled
      obtain ⟨first, later⟩ := settled
      rw [allAssigns, allPaths]
      have left (way : Exit) (stops : way ≠ .passed) : Leads given
          (way.keeps given (stmt.assigns ++ allAssigns rest)) (stmt.paths way) := by
        cases way with
        | passed => exact absurd rfl stops
        | continued | returned => exact first.leads _
      have passed : Leads given (exit.keeps given (stmt.assigns ++ allAssigns rest))
          (stmt.paths .passed * allPaths rest exit) := by
        refine ((first.leads .passed).mul (later.leads exit)).mono ?_
        cases exit with
        | passed =>
            simp only [Exit.keeps]
            rw [List.append_assoc]
            exact List.Subset.refl _
        | continued | returned => exact List.subset_append_left _ _
      exact ((Leads.only (Exit.keeps given _) (left .continued nofun) exit).add
        (Leads.only (Exit.keeps given _) (left .returned nofun) exit)).add passed

/-- The paths through a settled alternative keep what it assigns. -/
theorem ElseSettled.leads {given : List String} : ∀ {stmts : Option (List Stmt)},
    ElseSettled given stmts →
    ∀ exit, Leads given (exit.keeps given (elseAssigns stmts)) (elsePaths stmts exit)
  | none, _, exit => by
      rw [elseAssigns, elsePaths]
      exact leads_pass given exit
  | some stmts, settled, exit => by
      rw [ElseSettled] at settled
      rw [elseAssigns, elsePaths]
      exact settled.leads exit

end

/-- Settled code reads no variable without a value, whatever path is taken. -/
theorem readsAssigned_of_allSettled {given : List String} {stmts : List Stmt}
    (settled : AllSettled given stmts) : ReadsAssigned given stmts :=
  fun exit path member => (settled.leads exit path member).1

/-! ## More variables -/

section More

variable {given more : List String} (known : given ⊆ more)
include known

theorem append_subset_append (assigned : List String) : given ++ assigned ⊆ more ++ assigned := by
  intro name member
  rw [List.mem_append] at member ⊢
  exact member.imp_left fun inGiven => known inGiven

/-- A target that is ready is so if more is given. -/
theorem Expr.Ready.mono {target : Expr} (ready : target.Ready given) : target.Ready more := by
  cases target with
  | var name => exact trivial
  | _ => exact ⟨ready.1, ready.2.mono known⟩

/-- A settled expression is so if more is given. -/
theorem Expr.Settled.mono {expr : Expr} (settled : expr.Settled given) : expr.Settled more := by
  cases expr with
  | assign target value => exact ⟨settled.1.mono known, settled.2.mono known⟩
  | _ => exact Expr.Uses.mono settled known

end More

mutual

/-- A settled statement is so if more is given. -/
theorem Stmt.Settled.mono : ∀ {stmt : Stmt} {given more : List String}, stmt.Settled given →
    given ⊆ more → stmt.Settled more
  | .expression value, _, _, settled, known => by
      rw [Stmt.Settled] at settled ⊢
      exact settled.mono known
  | .ret value, _, _, settled, known => by
      rw [Stmt.Settled] at settled ⊢
      exact fun expr member => (settled expr member).mono known
  | .cond condition yes no, _, _, settled, known => by
      rw [Stmt.Settled] at settled ⊢
      obtain ⟨ofCondition, ofYes, ofNo⟩ := settled
      exact ⟨ofCondition.mono known, ofYes.mono known, ofNo.mono known⟩
  | .foreach subject key value body, _, _, settled, known => by
      rw [Stmt.Settled] at settled ⊢
      obtain ⟨ofSubject, ready, keyReady, ofBody⟩ := settled
      have bound := append_subset_append known value.names
      exact ⟨ofSubject.mono known, ready.mono known,
        fun target member => (keyReady target member).mono bound,
        ofBody.mono (append_subset_append bound _)⟩
  | .next, _, _, _, _ | .nop _, _, _, _, _ => by
      rw [Stmt.Settled]
      exact trivial
  | .function decl, _, _, settled, _ | .classDecl decl, _, _, settled, _ => by
      rw [Stmt.Settled] at settled
      exact settled.elim

/-- Settled statements are so if more is given. -/
theorem AllSettled.mono : ∀ {stmts : List Stmt} {given more : List String},
    AllSettled given stmts → given ⊆ more → AllSettled more stmts
  | [], _, _, _, _ => by
      rw [AllSettled]
      exact trivial
  | stmt :: rest, _, _, settled, known => by
      rw [AllSettled] at settled ⊢
      exact ⟨settled.1.mono known, settled.2.mono (append_subset_append known _)⟩

/-- A settled alternative is so if more is given. -/
theorem ElseSettled.mono : ∀ {stmts : Option (List Stmt)} {given more : List String},
    ElseSettled given stmts → given ⊆ more → ElseSettled more stmts
  | none, _, _, _, _ => by
      rw [ElseSettled]
      exact trivial
  | some stmts, _, _, settled, known => by
      rw [ElseSettled] at settled ⊢
      exact settled.mono known

end

/-! ## Checking statements -/

section Check

variable {given : List String} {stmts rest : List Stmt}

@[simp]
theorem ready_var (name : String) : (Expr.var name).Ready given := trivial

@[simp]
theorem ready_entry {base : Expr} {key : String} :
    (base.entry key).Ready given ↔ base.Uses given :=
  ⟨fun ready => Expr.uses_entry.mp ready.2, fun uses => ⟨rfl, Expr.uses_entry.mpr uses⟩⟩

@[simp]
theorem ready_append {base : Expr} : base.append.Ready given ↔ base.Uses given := by
  have looked : base.append.Uses given ↔ base.Uses given :=
    (Expr.uses_iff (.element base none) trivial).trans (by simp [Expr.parts])
  exact ⟨fun ready => looked.mp ready.2, fun uses => ⟨rfl, looked.mpr uses⟩⟩

@[simp]
theorem settled_set {target value : Expr} : (Stmt.set target value).Settled given ↔
    target.Ready given ∧ value.Uses given := by
  rw [Stmt.set, Stmt.Settled]
  rfl

@[simp]
theorem settled_setVar {name : String} {value : Expr} :
    (Stmt.setVar name value).Settled given ↔ value.Uses given := by
  simp [Stmt.setVar]

@[simp]
theorem settled_fn {name : String} {args : List Expr} :
    (Stmt.expression (.fn name args)).Settled given ↔ ∀ arg ∈ args, arg.Uses given := by
  rw [Stmt.Settled]
  exact Expr.uses_fn

@[simp]
theorem settled_methodCall {base : Expr} {name : String} {args : List Expr} :
    (Stmt.expression (.methodCall base name args)).Settled given ↔
      base.Uses given ∧ ∀ arg ∈ args, arg.Uses given := by
  rw [Stmt.Settled]
  exact Expr.uses_methodCall

@[simp]
theorem settled_returning {value : Expr} :
    (Stmt.returning value).Settled given ↔ value.Uses given := by
  simp [Stmt.returning, Stmt.Settled]

@[simp]
theorem settled_when {condition : Expr} {body : List Stmt} :
    (Stmt.when condition body).Settled given ↔
      condition.Uses given ∧ AllSettled given body := by
  simp [Stmt.when, Stmt.Settled, ElseSettled]

@[simp]
theorem settled_cond {condition : Expr} {yes no : List Stmt} :
    (Stmt.cond condition yes (some no)).Settled given ↔
      condition.Uses given ∧ AllSettled given yes ∧ AllSettled given no := by
  rw [Stmt.Settled, ElseSettled]

@[simp]
theorem settled_foreach {subject : Expr} {name : String} {body : List Stmt} :
    (Stmt.foreach subject none (.var name) body).Settled given ↔
      subject.Uses given ∧ AllSettled (given ++ [name]) body := by
  rw [Stmt.Settled]
  simp [Expr.names]

@[simp]
theorem settled_next : Stmt.next.Settled given := by
  rw [Stmt.Settled]
  exact trivial

@[simp]
theorem settled_nop (comments : List String) : (Stmt.nop comments).Settled given := by
  rw [Stmt.Settled]
  exact trivial

@[simp]
theorem settled_blank : Stmt.blank.Settled given := settled_nop []

@[simp]
theorem settled_marker (key value : String) : (marker key value).Settled given := settled_nop _

@[simp]
theorem settled_comment (text : String) : (Stmt.comment text).Settled given := settled_nop _

@[simp]
theorem assigns_set {target value : Expr} : (Stmt.set target value).assigns = target.names := by
  rw [Stmt.set, Stmt.assigns, Expr.assigned]

@[simp]
theorem assigns_setVar {name : String} {value : Expr} :
    (Stmt.setVar name value).assigns = [name] := by
  rw [Stmt.setVar, assigns_set, Expr.names]

@[simp]
theorem assigns_when {condition : Expr} {body : List Stmt} :
    (Stmt.when condition body).assigns = [] := by
  simp [Stmt.when, Stmt.assigns, elseAssigns]

@[simp]
theorem assigns_cond {condition : Expr} {yes no : List Stmt} :
    (Stmt.cond condition yes (some no)).assigns =
      (allAssigns yes).filter (allAssigns no).contains := by
  rw [Stmt.assigns, elseAssigns]

@[simp]
theorem assigns_nop (comments : List String) : (Stmt.nop comments).assigns = [] := by
  rw [Stmt.assigns]

@[simp]
theorem assigns_blank : Stmt.blank.assigns = [] := assigns_nop []

@[simp]
theorem assigns_marker (key value : String) : (marker key value).assigns = [] := assigns_nop _

@[simp]
theorem allSettled_nil : AllSettled given [] := by
  rw [AllSettled]
  exact trivial

@[simp]
theorem allSettled_cons {stmt : Stmt} : AllSettled given (stmt :: rest) ↔
    stmt.Settled given ∧ AllSettled (given ++ stmt.assigns) rest := by
  rw [AllSettled]

@[simp]
theorem allAssigns_nil : allAssigns [] = [] := by
  rw [allAssigns]

@[simp]
theorem allAssigns_cons {stmt : Stmt} :
    allAssigns (stmt :: rest) = stmt.assigns ++ allAssigns rest := by
  rw [allAssigns]

@[simp]
theorem allAssigns_append : allAssigns (stmts ++ rest) = allAssigns stmts ++ allAssigns rest := by
  induction stmts with
  | nil => simp
  | cons stmt stmts ih => simp [ih]

@[simp]
theorem allSettled_append : AllSettled given (stmts ++ rest) ↔
    AllSettled given stmts ∧ AllSettled (given ++ allAssigns stmts) rest := by
  induction stmts generalizing given with
  | nil => simp
  | cons stmt stmts ih => simp [ih, and_assoc]

/-- Statements and what comes after them, which may need fewer variables than there are. -/
theorem AllSettled.append {needed : List String} (settled : AllSettled given stmts)
    (later : AllSettled needed rest) (known : needed ⊆ given ++ allAssigns stmts) :
    AllSettled given (stmts ++ rest) :=
  allSettled_append.mpr ⟨settled, later.mono known⟩

/-- Groups of statements that are settled by themselves are settled one after another. -/
theorem allSettled_flatten {groups : List (List Stmt)}
    (each : ∀ group ∈ groups, AllSettled given group) : AllSettled given groups.flatten := by
  induction groups with
  | nil => exact allSettled_nil
  | cons group groups ih =>
      rw [List.forall_mem_cons] at each
      rw [List.flatten_cons, allSettled_append]
      exact ⟨each.1, (ih each.2).mono (List.subset_append_left _ _)⟩

end Check

/-! ## Declarations -/

@[simp]
theorem name_mk (name : String) (type : Option String) (default : Option Expr) :
    (Param.mk name type default).name = name := rfl

@[simp]
theorem name_known (type name : String) : (Param.known type name).name = name := rfl

/-- A method without defaults that reads its parameters, the current object and what it has assigned
to. -/
structure FunctionOf.Settled (method : Method) : Prop where
  defaults : method.defaults = []
  body : AllSettled method.given method.body

/-- Each of some settled statements is settled with what is known at its place. -/
theorem exists_settled_of_mem {given : List String} {stmts : List Stmt}
    (settled : AllSettled given stmts) : ∀ stmt ∈ stmts, ∃ known, stmt.Settled known := by
  induction stmts generalizing given with
  | nil => simp
  | cons stmt rest ih =>
      rw [allSettled_cons] at settled
      exact List.forall_mem_cons.mpr ⟨⟨given, settled.1⟩, ih settled.2⟩

/-- Each child of a settled statement is settled with what is known at its place. -/
theorem exists_settled_of_mem_children {given : List String} {stmt : Stmt}
    (settled : stmt.Settled given) : ∀ child ∈ stmt.children, ∃ known, child.2.Settled known := by
  cases stmt with
  | expression | ret | next | nop => exact List.forall_mem_nil _
  | cond condition yes no =>
      rw [Stmt.Settled] at settled
      obtain ⟨-, ofYes, ofNo⟩ := settled
      rw [Stmt.children, List.forall_mem_append, List.forall_mem_map]
      refine ⟨exists_settled_of_mem ofYes, ?_⟩
      cases no with
      | none => exact List.forall_mem_nil _
      | some no =>
          rw [ElseSettled] at ofNo
          exact Stmt.forall_mem_alternatives.mpr (exists_settled_of_mem ofNo)
  | foreach subject key value body =>
      rw [Stmt.Settled] at settled
      rw [Stmt.children, List.forall_mem_map]
      exact exists_settled_of_mem settled.2.2.2
  | function | classDecl =>
      rw [Stmt.Settled] at settled
      exact settled.elim

/-- Each statement in a settled statement is settled with what is known at its place. -/
theorem exists_settled_of_inside {inner outer : Stmt} {depth : Nat}
    (inside : Stmt.Inside inner depth outer) {given : List String} (settled : outer.Settled given) :
    ∃ known, inner.Settled known := by
  induction inside generalizing given with
  | here => exact ⟨given, settled⟩
  | inChild member _ ih =>
      obtain ⟨known, below⟩ := exists_settled_of_mem_children settled _ member
      exact ih below

theorem declared_eq_nil {stmt : Stmt} {given : List String} (settled : stmt.Settled given) :
    stmt.declared = [] := by
  cases stmt with
  | function | classDecl =>
      rw [Stmt.Settled] at settled
      exact settled.elim
  | _ => rfl

/-- There are no declarations inside of settled code. -/
theorem declared_eq_nil_of_inside {given : List String} {stmts : List Stmt}
    (settled : AllSettled given stmts) {outer inner : Stmt} {depth : Nat} (member : outer ∈ stmts)
    (inside : Stmt.Inside inner depth outer) : inner.declared = [] := by
  obtain ⟨known, outerSettled⟩ := exists_settled_of_mem settled outer member
  obtain ⟨found, innerSettled⟩ := exists_settled_of_inside inside outerSettled
  exact declared_eq_nil innerSettled

theorem Stmt.readsAssigned_of_mem {given : List String} {stmts : List Stmt}
    (settled : AllSettled given stmts) : ∀ stmt ∈ stmts, stmt.ReadsAssigned := by
  intro stmt member inner depth inside found declared
  rw [declared_eq_nil_of_inside settled member inside] at declared
  exact absurd declared List.not_mem_nil

theorem Stmt.readsAssigned_function {decl : FunctionOf Stmt} (defaults : decl.defaults = [])
    (settled : AllSettled (decl.params.map Param.name) decl.body) :
    (Stmt.function decl).ReadsAssigned := by
  intro inner depth inside found declared
  cases inside with
  | here =>
      obtain rfl := List.mem_singleton.mp declared
      exact ⟨readsAssigned_of_allSettled settled, by simp [defaults]⟩
  | inChild member inside =>
      obtain ⟨stmt, inBody, pairEq⟩ := List.mem_map.mp member
      cases pairEq
      exact readsAssigned_of_mem settled _ inBody inner _ inside found declared

/-- A class whose methods are settled reads assigned variables only. -/
theorem Stmt.readsAssigned_classDecl {decl : Class}
    (settled : ∀ method ∈ decl.methods, method.Settled) :
    (Stmt.classDecl decl).ReadsAssigned := by
  intro inner depth inside found declared
  cases inside with
  | here =>
      obtain ⟨method, member, rfl⟩ := List.mem_map.mp declared
      exact ⟨readsAssigned_of_allSettled (settled method member).body,
        by simp [(settled method member).defaults]⟩
  | inChild member inside =>
      obtain ⟨method, methodMem, inMethod⟩ := List.mem_flatMap.mp member
      obtain ⟨stmt, inBody, pairEq⟩ := List.mem_map.mp inMethod
      cases pairEq
      exact readsAssigned_of_mem (settled method methodMem).body _ inBody inner _ inside found
        declared

end RestPlugin.Php
