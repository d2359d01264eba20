import Mathlib.Computability.Language
import RestPlugin.Php.Shape
import RestPlugin.Proofs.Php.Everywhere

/-!
# Paths through code

What variables code reads and writes, in which order.  Conditions may turn out either way and loops
may run any number of times, so an expression comes to a language of accesses, and a list of
statements to one for each way to leave it.
-/

namespace RestPlugin.Php

open Computability

/-- A variable is read, or a value is assigned to it. -/
inductive Access where
  | read (name : String)
  | write (name : String)
deriving DecidableEq, Repr

namespace Access

/-- What an arrow function reads from outside of it.  Its parameters and what is assigned within it
stay inside, and the values from outside are taken when the function is made. -/
def captured (locals : List String) : List Access → List Access
  | [] => []
  | .read name :: rest =>
      if name ∈ locals then captured locals rest else .read name :: captured locals rest
  | .write name :: rest => captured (locals ++ [name]) rest

/-- Every variable is read after a value was assigned to it, if it was not given. -/
def Assigned (given : List String) (path : List Access) : Prop :=
  ∀ before name after, path = before ++ .read name :: after → name ∈ given ∨ .write name ∈ before

end Access

/-! ## Expressions -/

/-- Whether an operator leaves out its right side, depending on the left one. -/
def BinaryOp.isLazy : BinaryOp → Bool
  | .booleanAnd | .booleanOr | .coalesce => true
  | _ => false

/-- The accesses when a value is assigned.  An element or a property is looked up before. -/
def Expr.receives (target : Expr) (lookup value : Language Access) : Language Access :=
  match target with
  | .var name => value * {[.write name]}
  | _ => lookup * value

mutual

/-- The accesses of an expression. -/
def Expr.accesses : Expr → Language Access
  | .var name => {[.read name]}
  | .string _ | .int _ | .constant _ | .classConstant _ _ => 1
  | .array items => itemAccesses items
  | .element base key => base.accesses * optionAccesses key
  | .property base _ => base.accesses
  | .call _ args | .staticCall _ _ args | .new _ args => listAccesses args
  | .methodCall base _ args => base.accesses * listAccesses args
  | .assign target value => target.receives target.accesses value.accesses
  | .binary op left right =>
      if op.isLazy then left.accesses * (1 + right.accesses) else left.accesses * right.accesses
  | .not operand | .instanceOf operand _ | .cast _ operand => operand.accesses
  | .ternary condition yes no => condition.accesses * (optionAccesses yes + no.accesses)
  | .isset args => someAccesses args
  | .arrow _ params body =>
      {path | ∃ inner ∈ paramAccesses params * body.accesses,
        path = Access.captured (params.map Param.name) inner}
  | .matching subject arms => subject.accesses * armAccesses arms

/-- The accesses of an expression, if there is one. -/
def optionAccesses : Option Expr → Language Access
  | none => 1
  | some expr => expr.accesses

/-- The accesses of all expressions, one after another. -/
def listAccesses : List Expr → Language Access
  | [] => 1
  | expr :: rest => expr.accesses * listAccesses rest

/-- The accesses of expressions of which each one may be the last. -/
def someAccesses : List Expr → Language Access
  | [] => 1
  | expr :: rest => expr.accesses * (1 + someAccesses rest)

/-- The accesses of the items of an array. -/
def itemAccesses : List ArrayItem → Language Access
  | [] => 1
  | .mk key value :: rest => optionAccesses key * value.accesses * itemAccesses rest

/-- The accesses of the arms of a match: some conditions of an arm and its body, or all of them and
the other arms.  The default arm has no conditions and may be left for later. -/
def armAccesses : List MatchArm → Language Access
  | [] => 1
  | .mk conditions body :: rest =>
      someAccesses conditions * body.accesses + listAccesses conditions * armAccesses rest

/-- The accesses of the defaults of parameters, each of which may be needed. -/
def paramAccesses : List Param → Language Access
  | [] => 1
  | .mk _ _ default :: rest => (1 + optionAccesses default) * paramAccesses rest

end

/-! ## Statements -/

/-- How statements are left: they are passed, they continue a loop, or they return. -/
inductive Exit where
  | passed
  | continued
  | returned
deriving DecidableEq, Repr

/-- A language for one way to leave, and none for the others. -/
def Exit.only (exit : Exit) (accesses : Language Access) (asked : Exit) : Language Access :=
  if asked = exit then accesses else 0

/-- The accesses when a loop assigns to its variable. -/
def Expr.bindings (target : Expr) : Language Access := target.receives target.accesses 1

mutual

/-- The paths through a statement, for each way to leave it.  A declaration does nothing. -/
def Stmt.paths : Stmt → Exit → Language Access
  | .expression value, exit => Exit.passed.only value.accesses exit
  | .ret value, exit => Exit.returned.only (optionAccesses value) exit
  | .cond condition yes no, exit =>
      condition.accesses * (allPaths yes exit + elsePaths no exit)
  | .foreach subject key value body, exit =>
      let start := value.bindings * (key.elim 1 Expr.bindings)
      let round := start * (allPaths body .passed + allPaths body .continued)
      subject.accesses * round∗ *
        (Exit.passed.only 1 exit + Exit.returned.only (start * allPaths body .returned) exit)
  | .next, exit => Exit.continued.only 1 exit
  | .nop _, exit | .function _, exit | .classDecl _, exit => Exit.passed.only 1 exit

/-- The paths through statements, for each way to leave them.  What comes after a statement is
reached only if the statement is passed. -/
def allPaths : List Stmt → Exit → Language Access
  | [], exit => Exit.passed.only 1 exit
  | stmt :: rest, exit =>
      Exit.continued.only (stmt.paths .continued) exit +
        Exit.returned.only (stmt.paths .returned) exit + stmt.paths .passed * allPaths rest exit

/-- The paths through an alternative, which is passed if it is missing. -/
def elsePaths : Option (List Stmt) → Exit → Language Access
  | none, exit => Exit.passed.only 1 exit
  | some stmts, exit => allPaths stmts exit

end

/-- Whichever path is taken through statements, a variable is read only after a value was assigned
to it, if it was not given. -/
def ReadsAssigned (given : List String) (stmts : List Stmt) : Prop :=
  ∀ exit, ∀ path ∈ allPaths stmts exit, Access.Assigned given path

-- A variable that only one way through a condition assigns to.
example : ¬ReadsAssigned ["found"]
    [.when (.var "found") [.setVar "post" .null], .returning (.var "post")] := by
  intro assigned
  have skipped : [.read "found", .read "post"] ∈ allPaths
      [.when (.var "found") [.setVar "post" .null], .returning (.var "post")] .returned := by
    simp only [Stmt.when, Stmt.returning, allPaths, Stmt.paths, elsePaths, Exit.only, Expr.accesses,
      optionAccesses, reduceCtorEq, reduceIte, zero_add, mul_zero, mul_one]
    exact Or.inr (Language.mem_mul.mpr
      ⟨[.read "found"], Language.mem_mul.mpr ⟨_, rfl, [], Or.inr rfl, rfl⟩, _, Or.inl rfl, rfl⟩)
  have found := assigned .returned _ skipped [.read "found"] "post" [] rfl
  simp at found

/-! ## Functions and files -/

/-- The variables that a method is given: its parameters and, if it is not static, the current
object. -/
def FunctionOf.given {σ : Type} (method : FunctionOf σ) : List String :=
  method.params.map Param.name ++ if method.isStatic then [] else ["this"]

/-- The functions and methods that a statement declares itself, each with the variables that it is
given. -/
def Stmt.declared : Stmt → List (List String × FunctionOf Stmt)
  | .function decl => [(decl.params.map Param.name, decl)]
  | .classDecl decl => decl.methods.map fun method => (method.given, method)
  | _ => []

/-- No function in a statement reads a variable without a value, on whatever path, and neither does
the default of a parameter. -/
def Stmt.ReadsAssigned (outer : Stmt) : Prop :=
  ∀ inner depth, Inside inner depth outer → ∀ found ∈ inner.declared,
    Php.ReadsAssigned found.1 found.2.body ∧
      ∀ default ∈ found.2.defaults, ∀ path ∈ default.accesses, Access.Assigned [] path

/-- No function of a file reads a variable without a value. -/
def File.ReadsAssigned (file : File) : Prop := ∀ stmt ∈ file.stmts, stmt.ReadsAssigned

open Access

/-! ## Assigned paths -/

section Assigned

variable {given kept : List String} {name : String} {path rest : List Access}

theorem assigned_nil : Assigned given [] := by
  intro before name after split
  exact absurd split (by simp)

/-- A path that begins with reading a variable needs it to be given. -/
theorem assigned_cons_read :
    Assigned given (.read name :: rest) ↔ name ∈ given ∧ Assigned given rest := by
  constructor
  · intro assigned
    constructor
    · exact (assigned [] name rest rfl).resolve_right List.not_mem_nil
    · intro before other after split
      simpa using assigned (.read name :: before) other after (by rw [split, List.cons_append])
  · rintro ⟨known, assigned⟩ before other after split
    cases before with
    | nil =>
        cases split
        exact .inl known
    | cons first before =>
        obtain ⟨rfl, later⟩ := List.cons.inj split
        exact (assigned before other after later).imp_right (List.mem_cons_of_mem _)

/-- On a path that begins with an assignment, the variable is given from there on. -/
theorem assigned_cons_write :
    Assigned given (.write name :: rest) ↔ Assigned (given ++ [name]) rest := by
  constructor
  · intro assigned before other after split
    have found := assigned (.write name :: before) other after (by rw [split, List.cons_append])
    rw [List.mem_append, List.mem_singleton, or_assoc]
    simpa using found
  · intro assigned before other after split
    cases before with
    | nil => cases split
    | cons first before =>
        obtain ⟨rfl, later⟩ := List.cons.inj split
        have found := assigned before other after later
        rw [List.mem_append, List.mem_singleton, or_assoc] at found
        simpa using found

/-- A path stays assigned if more variables are given. -/
theorem Access.Assigned.mono (assigned : Assigned given path) (more : given ⊆ kept) :
    Assigned kept path :=
  fun before name after split => (assigned before name after split).imp_left fun known => more known

/-- A path followed by another is assigned if the second relies on what was given or is
written on the first. -/
theorem Access.Assigned.append (first : Assigned given path) (later : Assigned kept rest)
    (keeps : ∀ name ∈ kept, name ∈ given ∨ .write name ∈ path) : Assigned given (path ++ rest) := by
  induction path generalizing given with
  | nil => exact later.mono fun name known => (keeps name known).resolve_right List.not_mem_nil
  | cons access path ih =>
      cases access with
      | read other =>
          obtain ⟨known, first⟩ := assigned_cons_read.mp first
          exact assigned_cons_read.mpr ⟨known, ih first fun name member => by
            simpa using keeps name member⟩
      | write other =>
          refine assigned_cons_write.mpr (ih (assigned_cons_write.mp first) fun name member => ?_)
          rw [List.mem_append, List.mem_singleton, or_assoc]
          simpa using keeps name member

/-- What an arrow function reads from outside has a value there. -/
theorem assigned_captured {locals : List String} (inner : Assigned (given ++ locals) path) :
    Assigned given (captured locals path) := by
  induction path generalizing locals with
  | nil => exact assigned_nil
  | cons access path ih =>
      cases access with
      | read name =>
          obtain ⟨known, inner⟩ := assigned_cons_read.mp inner
          rw [captured]
          split
          · exact ih inner
          · rename_i free
            exact assigned_cons_read.mpr
              ⟨(List.mem_append.mp known).resolve_right free, ih inner⟩
      | write name =>
          rw [captured]
          apply ih
          rw [← List.append_assoc]
          exact assigned_cons_write.mp inner

end Assigned

/-! ## Languages of assigned paths -/

/-- Every path reads only variables with a value if the `given` ones have one, and then leaves the
`kept` ones with a value. -/
def Leads (given kept : List String) (accesses : Language Access) : Prop :=
  ∀ path ∈ accesses, Assigned given path ∧ ∀ name ∈ kept, name ∈ given ∨ .write name ∈ path

section Leads

variable {given kept later : List String} {first second : Language Access}

theorem leads_zero : Leads given kept 0 :=
  fun path member => absurd member (Language.notMem_zero path)

theorem leads_one : Leads given given 1 := by
  rintro path rfl
  exact ⟨assigned_nil, fun name known => .inl known⟩

theorem leads_read {name : String} (known : name ∈ given) : Leads given given {[.read name]} := by
  rintro path rfl
  exact ⟨assigned_cons_read.mpr ⟨known, assigned_nil⟩, fun name known => .inl known⟩

theorem leads_write (given : List String) (name : String) :
    Leads given (given ++ [name]) {[.write name]} := by
  rintro path rfl
  refine ⟨assigned_cons_write.mpr assigned_nil, fun other member => ?_⟩
  simpa using member

/-- Paths that keep some variables keep fewer as well. -/
theorem Leads.mono (leads : Leads given kept first) (fewer : later ⊆ kept) :
    Leads given later first :=
  fun path member => ⟨(leads path member).1,
    fun name known => (leads path member).2 name (fewer known)⟩

theorem Leads.add (left : Leads given kept first) (right : Leads given kept second) :
    Leads given kept (first + second) :=
  fun path member => ((Language.mem_add _ _ path).mp member).elim (left path) (right path)

/-- The paths of a sequence keep what its second part keeps after the first. -/
theorem Leads.mul (left : Leads given kept first) (right : Leads kept later second) :
    Leads given later (first * second) := by
  intro path member
  obtain ⟨start, startMem, rest, restMem, rfl⟩ := Language.mem_mul.mp member
  obtain ⟨startAssigned, keeps⟩ := left start startMem
  obtain ⟨restAssigned, keepsLater⟩ := right rest restMem
  refine ⟨startAssigned.append restAssigned keeps, fun name known => ?_⟩
  rw [List.mem_append, ← or_assoc]
  exact (keepsLater name known).imp_left (keeps name)

/-- A loop reads only what has a value if each round does. -/
theorem Leads.kstar (round : Leads given given first) : Leads given given first∗ := by
  intro path member
  obtain ⟨rounds, rfl, each⟩ := Language.mem_kstar.mp member
  clear member
  refine ⟨?_, fun name known => .inl known⟩
  induction rounds with
  | nil => exact assigned_nil
  | cons start rounds ih =>
      rw [List.forall_mem_cons] at each
      exact (round start each.1).1.append
        (ih each.2) (round start each.1).2

/-- The paths through one exit keep what is kept there. -/
theorem Leads.only (kept : Exit → List String) {exit : Exit} (leads : Leads given (kept exit) first)
    (asked : Exit) : Leads given (kept asked) (exit.only first asked) := by
  rw [Exit.only]
  split
  · rename_i same
    rw [same]
    exact leads
  · exact leads_zero

end Leads

end RestPlugin.Php
