import RestPlugin.Keyed
import RestPlugin.Php.Shape

/-!
# Running generated code

What a static method does when it is called.  The surroundings answer the calls of functions and of
methods of objects, and every such call is noted.  Of the language there is what the generated
capability checks use; a program that needs anything else, or that the language would warn about, is
stuck.
-/

namespace RestPlugin.Php

/-! ## Values and surroundings -/

/-- A value of a running program.  The keys of arrays are texts, and an object is known by its class
and what it was made from. -/
inductive Value where
  | null
  | bool (value : Bool)
  | int (value : Int)
  | string (value : String)
  | array (entries : List (String × Value))
  | object (className : String) (args : List Value)

namespace Value

/-- Whether a condition with a value is met. -/
def truthy : Value → Bool
  | null => false
  | bool value => value
  | int value => value != 0
  | string value => value != "" && value != "0"
  | array entries => !entries.isEmpty
  | object _ _ => true

/-- Whether two values are identical, where this does not take a look into arrays or objects. -/
def identical : Value → Value → Option Bool
  | null, null => some true
  | bool left, bool right => some (left == right)
  | int left, int right => some (left == right)
  | string left, string right => some (left == right)
  | array _, array _ | object _ _, object _ _ => none
  | _, _ => some false

/-- The value of a key in an array.  Of several entries with one key the last one counts. -/
def at? (key : String) : Value → Option Value
  | array entries => Keyed.get? key entries.reverse
  | _ => none

end Value

/-- A call that leaves the program. -/
inductive Call where
  | function (name : String) (args : List Value)
  | method (object : Value) (name : String) (args : List Value)

/-- The surroundings answer a call, and may take earlier calls into account. -/
abbrev World : Type := List Call → Call → Value

/-- The variables of a running method and the calls so far. -/
structure State where
  vars : List (String × Value) := []
  calls : List Call := []

/-- A step that may be stuck. -/
abbrev Run (α : Type) : Type := StateT State Option α

namespace Run

/-- A step that cannot be taken. -/
def stuck {α : Type} : Run α := fun _ => none

/-- The value of a variable. -/
def read (name : String) : Run (Option Value) := fun state =>
  some (Keyed.get? name state.vars, state)

/-- Sets a variable. -/
def write (name : String) (value : Value) : Run Unit := fun state =>
  some ((), { state with vars := Keyed.put name value state.vars })

/-- Leaves the program and comes back with the answer. -/
def ask (world : World) (call : Call) : Run Value := fun state =>
  some (world state.calls call, { state with calls := state.calls ++ [call] })

end Run

/-! ## Expressions -/

/-- What is there for an absent value: nothing where absence is asked for, and
otherwise a warning. -/
def absent (quiet : Bool) : Run Value := if quiet then pure .null else Run.stuck

/-- A value that has to be there. -/
def known : Option Value → Run Value
  | some value => pure value
  | none => Run.stuck

/-- The value of a constant of the language. -/
def builtin : List String → Option Value
  | ["true"] => some (.bool true)
  | ["false"] => some (.bool false)
  | ["null"] => some .null
  | _ => none

/-- Reads a variable. -/
def readVariable (quiet : Bool) (name : String) : Run Value := do
  match ← Run.read name with
  | some value => pure value
  | none => absent quiet

/-- Takes an entry out of an array. -/
def takeEntry (quiet : Bool) : Value → Value → Run Value
  | .array entries, .string key =>
      match (Value.array entries).at? key with
      | some value => pure value
      | none => absent quiet
  | .null, .string _ => absent quiet
  | _, _ => Run.stuck

/-- Compares two values. -/
def compare (left right : Value) (asked : Bool) : Run Value :=
  known ((left.identical right).map fun same => .bool (same == asked))

/-- Combines two expressions.  Either of them may be run quietly or not. -/
def combine (op : BinaryOp) (left right : Bool → Run Value) : Run Value :=
  match op with
  | .identical => do
      let first ← left false
      let second ← right false
      compare first second true
  | .notIdentical => do
      let first ← left false
      let second ← right false
      compare first second false
  | .booleanAnd => do
      let first ← left false
      if first.truthy then do
        let second ← right false
        pure (.bool second.truthy)
      else pure (.bool false)
  | .coalesce => do
      match ← left true with
      | .null => right false
      | value => pure value
  | _ => Run.stuck

/-- Calls a function of the surroundings. -/
def callFunction (world : World) (name : Name) (args : List Value) : Run Value :=
  match name.parts with
  | [name] => Run.ask world (.function name args)
  | _ => Run.stuck

/-- Calls a method of an object. -/
def callMethod (world : World) (base : Value) (method : String) (args : List Value) : Run Value :=
  match base with
  | .object className fields => Run.ask world (.method (.object className fields) method args)
  | _ => Run.stuck

/-- Makes an object. -/
def construct (className : Name) (args : List Value) : Run Value :=
  match className.parts with
  | [className] => pure (.object className args)
  | _ => Run.stuck

section Evaluation

variable (world : World) (consts : List (String × Value))

mutual

/-- The value of an expression.  Left of `??` an absent variable or entry is quietly null. -/
def eval (quiet : Bool) : Expr → Run Value
  | .var name => readVariable quiet name
  | .string value => pure (.string value)
  | .int value => pure (.int value)
  | .constant name => known (builtin name.parts)
  | .classConstant className name =>
      if className.parts = ["self"] then known (Keyed.get? name consts) else Run.stuck
  | .array items => do
      let entries ← evalItems items
      pure (.array entries)
  | .element base key =>
      match key with
      | some key => do
          let base ← eval quiet base
          let key ← eval false key
          takeEntry quiet base key
      | none => Run.stuck
  | .call name args => do
      let args ← evalAll args
      callFunction world name args
  | .methodCall base method args => do
      let base ← eval false base
      let args ← evalAll args
      callMethod world base method args
  | .new className args => do
      let args ← evalAll args
      construct className args
  | .assign target value =>
      match target with
      | .var name => do
          let value ← eval false value
          Run.write name value
          pure value
      | _ => Run.stuck
  | .binary op left right =>
      combine op (fun quiet => eval quiet left) (fun quiet => eval quiet right)
  | .not operand => do
      let operand ← eval false operand
      pure (.bool !operand.truthy)
  | .property _ _ | .staticCall _ _ _ | .instanceOf _ _ | .cast _ _ | .ternary _ _ _ | .isset _
  | .arrow _ _ _ | .matching _ _ => Run.stuck
termination_by structural expr => expr

/-- The values of expressions, from left to right. -/
def evalAll : List Expr → Run (List Value)
  | [] => pure []
  | expr :: rest => do
      let value ← eval false expr
      let values ← evalAll rest
      pure (value :: values)
termination_by structural exprs => exprs

/-- The entries of an array whose keys are written out. -/
def evalItems : List ArrayItem → Run (List (String × Value))
  | [] => pure []
  | .mk key value :: rest =>
      match key with
      | some (.string key) => do
          let value ← eval false value
          let entries ← evalItems rest
          pure ((key, value) :: entries)
      | _ => Run.stuck
termination_by structural items => items

end

/-! ## Statements -/

/-- Whether a statement returned. -/
inductive Outcome where
  | next
  | returned (value : Value)

/-- The result of a method whose statements came to an end. -/
def Outcome.result : Outcome → Value
  | next => .null
  | returned value => value

mutual

/-- Runs a statement. -/
def exec : Stmt → Run Outcome
  | .expression value => do
      let _ ← eval world consts false value
      pure .next
  | .ret value =>
      match value with
      | some value => do
          let value ← eval world consts false value
          pure (.returned value)
      | none => pure (.returned .null)
  | .cond condition yes no => do
      let condition ← eval world consts false condition
      if condition.truthy then execAll yes
      else
        match no with
        | some no => execAll no
        | none => pure .next
  | .nop _ => pure .next
  | .foreach _ _ _ _ | .next | .function _ | .classDecl _ => Run.stuck
termination_by structural stmt => stmt

/-- Runs statements until one returns. -/
def execAll : List Stmt → Run Outcome
  | [] => pure .next
  | stmt :: rest => do
      match ← exec stmt with
      | .next => execAll rest
      | .returned value => pure (.returned value)
termination_by structural stmts => stmts

end

end Evaluation

/-! ## Steps that are not stuck -/

/-- A sequence goes on from where its first part has come. -/
theorem bind_eq_some {α β : Type} {first : Run α} {next : α → Run β} {state after : State}
    {value : α} (done : first state = some (value, after)) :
    (first >>= next) state = next value after := by
  change (first state).bind _ = _
  rw [done]
  rfl

section Steps

variable {world : World} {consts : List (String × Value)} {quiet : Bool} {state after : State}

theorem eval_string (value : String) :
    eval world consts quiet (.string value) = pure (.string value) :=
  rfl

theorem eval_null : eval world consts quiet .null = pure .null :=
  rfl

theorem eval_binary (op : BinaryOp) (left right : Expr) :
    eval world consts quiet (.binary op left right) =
      combine op (fun quiet => eval world consts quiet left)
        fun quiet => eval world consts quiet right :=
  rfl

theorem eval_var {name : String} {value : Value} (found : Keyed.get? name state.vars = some value) :
    eval world consts quiet (.var name) state = some (value, state) := by
  change readVariable quiet name state = _
  rw [readVariable, bind_eq_some rfl, found]
  rfl

theorem eval_selfConstant {name : String} {value : Value}
    (found : Keyed.get? name consts = some value) :
    eval world consts quiet (.classConstant ⟨["self"]⟩ name) = pure value := by
  change known (Keyed.get? name consts) = _
  rw [found]
  rfl

/-- An entry of an array is found under its key. -/
theorem eval_dim {base key : Expr} {entries : List (String × Value)} {name : String} {value : Value}
    (baseEq : eval world consts quiet base state = some (.array entries, state))
    (keyEq : eval world consts false key state = some (.string name, state))
    (found : (Value.array entries).at? name = some value) :
    eval world consts quiet (base.dim key) state = some (value, state) := by
  change (do
    let base ← eval world consts quiet base
    let key ← eval world consts false key
    takeEntry quiet base key) state = _
  rw [bind_eq_some baseEq, bind_eq_some keyEq, takeEntry, found]
  rfl

/-- An entry of an array in a variable evaluates to the value under its key. -/
theorem eval_entry {name key : String} {entries : List (String × Value)} {value : Value}
    (variableEq : Keyed.get? name state.vars = some (.array entries))
    (found : (Value.array entries).at? key = some value) :
    eval world consts quiet ((Expr.var name).entry key) state = some (value, state) :=
  eval_dim (eval_var variableEq) rfl found

/-- Calling a function whose arguments are known asks the surroundings. -/
theorem eval_fn {name : String} {args : List Expr} {values : List Value}
    (argsEq : evalAll world consts args state = some (values, after)) :
    eval world consts quiet (.fn name args) state =
      some (world after.calls (.function name values),
        { after with calls := after.calls ++ [.function name values] }) := by
  change (evalAll world consts args >>= callFunction world ⟨[name]⟩) state = _
  rw [bind_eq_some argsEq]
  rfl

/-- A call of a method evaluates the object, then the arguments, and is left to the
surroundings. -/
theorem eval_send {base : Expr} {method className : String} {fields values : List Value}
    {args : List Expr} {between : State}
    (baseEq : eval world consts false base state = some (.object className fields, between))
    (argsEq : evalAll world consts args between = some (values, after)) :
    eval world consts quiet (base.send method args) state =
      some (world after.calls (.method (.object className fields) method values),
        { after with
          calls := after.calls ++ [.method (.object className fields) method values] }) := by
  change (do
    let base ← eval world consts false base
    let args ← evalAll world consts args
    callMethod world base method args) state = _
  rw [bind_eq_some baseEq, bind_eq_some argsEq]
  rfl

theorem eval_newOf {className : String} {args : List Expr} {values : List Value}
    (argsEq : evalAll world consts args state = some (values, after)) :
    eval world consts quiet (.newOf className args) state =
      some (.object className values, after) := by
  change (evalAll world consts args >>= construct ⟨[className]⟩) state = _
  rw [bind_eq_some argsEq]
  rfl

theorem evalAll_nil : evalAll world consts [] state = some ([], state) :=
  rfl

/-- Expressions are evaluated one after another. -/
theorem evalAll_cons {expr : Expr} {rest : List Expr} {value : Value} {values : List Value}
    {between : State} (exprEq : eval world consts false expr state = some (value, between))
    (restEq : evalAll world consts rest between = some (values, after)) :
    evalAll world consts (expr :: rest) state = some (value :: values, after) := by
  change (do
    let value ← eval world consts false expr
    let values ← evalAll world consts rest
    pure (value :: values)) state = _
  rw [bind_eq_some exprEq, bind_eq_some restEq]
  rfl

theorem evalAll_singleton {expr : Expr} {value : Value}
    (exprEq : eval world consts false expr state = some (value, after)) :
    evalAll world consts [expr] state = some ([value], after) :=
  evalAll_cons exprEq evalAll_nil

theorem evalItems_nil : evalItems world consts [] state = some ([], state) :=
  rfl

/-- The items of an array are evaluated one after another. -/
theorem evalItems_cons {key : String} {expr : Expr} {rest : List ArrayItem} {value : Value}
    {entries : List (String × Value)} {between : State}
    (exprEq : eval world consts false expr state = some (value, between))
    (restEq : evalItems world consts rest between = some (entries, after)) :
    evalItems world consts (.keyed key expr :: rest) state =
      some ((key, value) :: entries, after) := by
  change (do
    let value ← eval world consts false expr
    let entries ← evalItems world consts rest
    pure ((key, value) :: entries)) state = _
  rw [bind_eq_some exprEq, bind_eq_some restEq]
  rfl

theorem eval_array {items : List ArrayItem} {entries : List (String × Value)}
    (itemsEq : evalItems world consts items state = some (entries, after)) :
    eval world consts quiet (.array items) state = some (.array entries, after) := by
  change (do
    let entries ← evalItems world consts items
    pure (Value.array entries)) state = _
  rw [bind_eq_some itemsEq]
  rfl

/-- A record whose fields have fixed values is the array of these values. -/
theorem eval_record {α : Type} (items : List α) (key : α → String) (field : α → Expr)
    (value : α → Value) (state : State)
    (evaluated : ∀ item ∈ items, eval world consts false (field item) = pure (value item)) :
    eval world consts quiet (.record (items.map fun item => (key item, field item))) state =
      some (.array (items.map fun item => (key item, value item)), state) := by
  refine eval_array ?_
  induction items with
  | nil => exact evalItems_nil
  | cons first rest ih =>
      rw [List.forall_mem_cons] at evaluated
      exact evalItems_cons (by rw [evaluated.1]; rfl) (ih evaluated.2)

/-- The right side of a comparison sees what the left side did. -/
theorem eval_identical {left right : Expr} {leftValue rightValue : Value} {between : State}
    {same : Bool} (leftEq : eval world consts false left state = some (leftValue, between))
    (rightEq : eval world consts false right between = some (rightValue, after))
    (compared : leftValue.identical rightValue = some same) :
    eval world consts quiet (.binary .identical left right) state = some (.bool same, after) := by
  rw [eval_binary, combine, bind_eq_some leftEq, bind_eq_some rightEq, compare, compared]
  cases same <;> rfl

theorem eval_notNull {operand : Expr} {value : Value} {isNull : Bool}
    (operandEq : eval world consts false operand state = some (value, after))
    (compared : Value.null.identical value = some isNull) :
    eval world consts quiet operand.notNull state = some (.bool !isNull, after) := by
  rw [Expr.notNull, eval_binary, combine, eval_null, pure_bind, bind_eq_some operandEq, compare,
    compared]
  cases isNull <;> rfl

theorem eval_and {left right : Expr} {first second : Bool}
    (leftEq : eval world consts false left state = some (.bool first, state))
    (rightEq : eval world consts false right state = some (.bool second, state)) :
    eval world consts quiet (.binary .booleanAnd left right) state =
      some (.bool (first && second), state) := by
  rw [eval_binary, combine, bind_eq_some leftEq]
  cases first with
  | false => rfl
  | true =>
      rw [if_pos (by rfl), bind_eq_some rightEq]
      rfl

/-- What is there and not null is taken, and the other side is not looked at. -/
theorem eval_coalesce_left {left right : Expr} {value : Value}
    (leftEq : eval world consts true left state = some (value, after)) (notNull : value ≠ .null) :
    eval world consts quiet (.binary .coalesce left right) state = some (value, after) := by
  rw [eval_binary, combine, bind_eq_some leftEq]
  cases value with
  | null => exact absurd rfl notNull
  | _ => rfl

/-- The right side of a default counts if the left one is absent. -/
theorem eval_coalesce_right {left right : Expr}
    (leftEq : eval world consts true left state = some (.null, after)) :
    eval world consts quiet (.binary .coalesce left right) state =
      eval world consts false right after := by
  rw [eval_binary, combine, bind_eq_some leftEq]

/-! ### Statements -/

theorem execAll_nil : execAll world consts [] state = some (.next, state) :=
  rfl

theorem execAll_cons (stmt : Stmt) (rest : List Stmt) :
    execAll world consts (stmt :: rest) = (do
      match ← exec world consts stmt with
      | .next => execAll world consts rest
      | .returned value => pure (.returned value)) :=
  rfl

theorem execAll_cons_next {stmt : Stmt} {rest : List Stmt}
    (done : exec world consts stmt state = some (.next, after)) :
    execAll world consts (stmt :: rest) state = execAll world consts rest after := by
  rw [execAll_cons, bind_eq_some done]

/-- After a statement that returns, nothing follows. -/
theorem execAll_cons_returned {stmt : Stmt} {rest : List Stmt} {value : Value}
    (done : exec world consts stmt state = some (.returned value, after)) :
    execAll world consts (stmt :: rest) state = some (.returned value, after) := by
  rw [execAll_cons, bind_eq_some done]
  rfl

theorem exec_blank : exec world consts .blank state = some (.next, state) :=
  rfl

theorem exec_setVar {name : String} {expr : Expr} {value : Value}
    (exprEq : eval world consts false expr state = some (value, after)) :
    exec world consts (.setVar name expr) state =
      some (.next, { after with vars := Keyed.put name value after.vars }) := by
  change ((do
    let value ← eval world consts false expr
    Run.write name value
    pure value) >>= fun _ => pure Outcome.next) state = _
  rw [bind_assoc, bind_eq_some exprEq]
  rfl

theorem exec_returning {expr : Expr} {value : Value}
    (exprEq : eval world consts false expr state = some (value, after)) :
    exec world consts (.returning expr) state = some (.returned value, after) := by
  change (do
    let value ← eval world consts false expr
    pure (Outcome.returned value)) state = _
  rw [bind_eq_some exprEq]
  rfl

/-- A conditional statement executes the branch that its condition chooses. -/
theorem exec_cond {condition : Expr} {yes no : List Stmt} {value : Value}
    (conditionEq : eval world consts false condition state = some (value, after)) :
    exec world consts (.cond condition yes (some no)) state =
      if value.truthy then execAll world consts yes after else execAll world consts no after := by
  change (do
    let condition ← eval world consts false condition
    if condition.truthy then execAll world consts yes else execAll world consts no) state = _
  rw [bind_eq_some conditionEq]
  split <;> rfl

theorem exec_when {condition : Expr} {yes : List Stmt} {value : Value}
    (conditionEq : eval world consts false condition state = some (value, after)) :
    exec world consts (.when condition yes) state =
      if value.truthy then execAll world consts yes after else some (.next, after) := by
  change (do
    let condition ← eval world consts false condition
    if condition.truthy then execAll world consts yes else pure .next) state = _
  rw [bind_eq_some conditionEq]
  split <;> rfl

end Steps

/-! ## Methods -/

/-- The values of the constants of a class, of which none uses another. -/
def Class.values (world : World) (decl : Class) : Run (List (String × Value)) :=
  decl.consts.mapM fun constant => do
    let value ← eval world [] false constant.value
    pure (constant.name, value)

/-- Calls a static method of a class and gives its result and the calls it made. -/
def Class.callStatic (world : World) (decl : Class) (name : String) (args : List Value) :
    Option (Value × List Call) := do
  let method ← decl.method? name
  if method.isStatic && method.params.length == args.length then do
    let (consts, state) ← decl.values world {}
    let (outcome, state) ← execAll world consts method.body
      { state with vars := (method.params.map Param.name).zip args }
    some (outcome.result, state.calls)
  else none

/-- A static method is called by executing its body with its parameters assigned. -/
theorem Class.callStatic_eq_some {world : World} {decl : Class} {name : String}
    (args : List Value) {method : Method} {consts : List (String × Value)} {state after : State}
    {outcome : Outcome} (found : decl.method? name = some method)
    (isStatic : method.isStatic = true) (arity : method.params.length = args.length)
    (constsEq : decl.values world {} = some (consts, state))
    (done : execAll world consts method.body
      { state with vars := (method.params.map Param.name).zip args } = some (outcome, after)) :
    decl.callStatic world name args = some (outcome.result, after.calls) := by
  rw [Class.callStatic, found, Option.bind_eq_bind, Option.bind_some,
    if_pos (by rw [isStatic, arity, beq_self_eq_true]; rfl), constsEq, Option.bind_eq_bind,
    Option.bind_some]
  dsimp only
  rw [done]
  rfl

end RestPlugin.Php
