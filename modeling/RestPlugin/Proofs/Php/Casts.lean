import RestPlugin.Number.Range
import RestPlugin.Proofs.Php.Execution

/-!
# Running code that casts

What the handlers need of the language to take an identity from a request and to name a stored
value, besides what capability checks use: casts to whole numbers and to texts, joined texts, the
order of numbers, alternatives, and two functions of the language itself.  Everything else is run as
in a capability check, and a program that the language would warn about is stuck.
-/

namespace RestPlugin.Php

open Number

/-! ## Conversions -/

namespace Value

/-- The text that a value is cast to. -/
def text? : Value → Option String
  | null => some ""
  | bool value => some (if value then "1" else "")
  | int value => some (toString value)
  | string value => some value
  | array _ | object _ _ => none

/-- The number that is written in decimal digits. -/
def numeral? (text : String) : Option Int :=
  if !text.isEmpty && text.toList.all Text.isDigit then
    some (text.toList.foldl (fun value c => 10 * value + (c.toNat - '0'.toNat : Nat)) 0)
  else none

/-- The number that a value is cast to, if it has 64 bits.  Of the texts only numerals are cast. -/
def number? (value : Value) : Option Int :=
  (match value with
    | null => some 0
    | bool value => some (if value then 1 else 0)
    | int value => some value
    | string value => numeral? value
    | array _ | object _ _ => none).filter fun number =>
      leastSigned ≤ number && number ≤ greatestSigned

theorem le_of_number? {value : Value} {number : Int} (cast : value.number? = some number) :
    number ≤ greatestSigned := by
  obtain ⟨-, bounded⟩ := Option.filter_eq_some_iff.mp cast
  simp only [Bool.and_eq_true, decide_eq_true_eq] at bounded
  exact bounded.2

theorem number?_int {number : Int} (low : leastSigned ≤ number) (high : number ≤ greatestSigned) :
    (int number).number? = some number :=
  Option.filter_eq_some_iff.mpr ⟨rfl, by simp [low, high]⟩

/-- A value after a cast. -/
def cast? (kind : CastKind) (value : Value) : Option Value :=
  match kind with
  | .int => value.number?.map int
  | .string => value.text?.map string
  | .float | .bool | .array => none

/-- Two texts, one after the other. -/
def concat? (left right : Value) : Option Value := do
  let first ← left.text?
  let second ← right.text?
  some (string (first ++ second))

/-- Whether a number is at most another one. -/
def atMost? : Value → Value → Option Value
  | int left, int right => some (bool (left ≤ right))
  | _, _ => none

end Value

/-- The white space at the ends of a text that the language takes away. -/
def isTrimmed (c : Char) : Bool := [' ', '\t', '\n', '\r', '\x00', '\x0b'].contains c

/-- A text without white space at its ends. -/
def trimmed (text : String) : String := String.ofList (Text.trimBy isTrimmed text.toList)

/-- A text whose characters at both ends stay is trimmed. -/
theorem trimmed_eq_self {text : String} (head : ∀ c ∈ text.toList.head?, isTrimmed c = false)
    (last : ∀ c ∈ text.toList.getLast?, isTrimmed c = false) : trimmed text = text := by
  have kept {l : List Char} (stays : ∀ c ∈ l.head?, isTrimmed c = false) :
      l.dropWhile isTrimmed = l := by
    cases l with
    | nil => rfl
    | cons c l => rw [List.dropWhile_cons_of_neg (by simp [stays c rfl])]
  rw [trimmed, Text.trimBy, kept head, kept (by rwa [List.head?_reverse]), List.reverse_reverse,
    String.ofList_toList]

/-! ## Expressions -/

/-- Calls a function, of the language or of the surroundings. -/
def callBuiltin (world : World) (name : Name) (args : List Value) : Run Value :=
  match name.parts, args with
  | ["is_string"], [.string _] => pure (.bool true)
  | ["is_string"], [_] => pure (.bool false)
  | ["trim"], [.string value] => pure (.string (trimmed value))
  | ["trim"], _ => Run.stuck
  | _, _ => callFunction world name args

/-- Joins or compares two expressions. -/
def operate (op : BinaryOp) (left right : Run Value) : Run Value :=
  match op with
  | .identical => do compare (← left) (← right) true
  | .concat => do known ((← left).concat? (← right))
  | .smallerOrEqual => do known ((← left).atMost? (← right))
  | .booleanOr => do
      let first ← left
      if first.truthy then pure (.bool true)
      else do
        let second ← right
        pure (.bool second.truthy)
  | _ => Run.stuck

section Evaluation

variable (world : World)

mutual

/-- The value of an expression. -/
def compute : Expr → Run Value
  | .cast kind operand => do known ((← compute operand).cast? kind)
  | .binary op left right => operate op (compute left) (compute right)
  | .not operand => do pure (.bool !(← compute operand).truthy)
  | .call name args => do callBuiltin world name (← computeAll args)
  | expr => eval world [] false expr
termination_by structural expr => expr

/-- The values of expressions, from left to right. -/
def computeAll : List Expr → Run (List Value)
  | [] => pure []
  | expr :: rest => do
      let value ← compute expr
      let values ← computeAll rest
      pure (value :: values)
termination_by structural exprs => exprs

end

/-! ## Statements -/

mutual

/-- Runs a statement. -/
def perform : Stmt → Run Outcome
  | .expression (.assign (.var name) value) => do
      Run.write name (← compute world value)
      pure .next
  | .ret (some value) => do pure (.returned (← compute world value))
  | .cond condition yes none => do
      if (← compute world condition).truthy then performAll yes else pure .next
  | .nop _ => pure .next
  | _ => Run.stuck
termination_by structural stmt => stmt

/-- Runs statements until one returns. -/
def performAll : List Stmt → Run Outcome
  | [] => pure .next
  | stmt :: rest => do
      match ← perform stmt with
      | .next => performAll rest
      | .returned value => pure (.returned value)
termination_by structural stmts => stmts

end

end Evaluation

section Steps

variable {world : World} {state after : State}

theorem compute_var {name : String} {value : Value}
    (found : Keyed.get? name state.vars = some value) :
    compute world (.var name) state = some (value, state) :=
  eval_var found

theorem compute_null : compute world .null state = some (.null, state) := rfl

theorem compute_string (value : String) :
    compute world (.string value) state = some (.string value, state) := rfl

/-- A cast computes its operand and casts the value. -/
theorem compute_cast {kind : CastKind} {operand : Expr} {value : Value}
    (operandEq : compute world operand state = some (value, after)) :
    compute world (.cast kind operand) state = (value.cast? kind).map (·, after) := by
  change (compute world operand >>= fun value => known (value.cast? kind)) state = _
  rw [bind_eq_some operandEq]
  cases value.cast? kind <;> rfl

/-- A comparison computes both sides, the left one first, and compares the values. -/
theorem compute_identical {left right : Expr} {leftValue rightValue : Value} {between : State}
    {same : Bool} (leftEq : compute world left state = some (leftValue, between))
    (rightEq : compute world right between = some (rightValue, after))
    (compared : leftValue.identical rightValue = some same) :
    compute world (.binary .identical left right) state = some (.bool same, after) := by
  change (compute world left >>= fun left => compute world right >>= fun right =>
    compare left right true) state = _
  rw [bind_eq_some leftEq, bind_eq_some rightEq, compare, compared]
  cases same <;> rfl

/-- A concatenation computes both sides, the left one first, and joins the texts. -/
theorem compute_concat {left right : Expr} {leftValue rightValue joined : Value} {between : State}
    (leftEq : compute world left state = some (leftValue, between))
    (rightEq : compute world right between = some (rightValue, after))
    (joinedEq : leftValue.concat? rightValue = some joined) :
    compute world (.binary .concat left right) state = some (joined, after) := by
  change (compute world left >>= fun left => compute world right >>= fun right =>
    known (left.concat? right)) state = _
  rw [bind_eq_some leftEq, bind_eq_some rightEq, joinedEq]
  rfl

theorem compute_smallerOrEqual {operand : Expr} {value bound : Int}
    (operandEq : compute world operand state = some (.int value, after)) :
    compute world (.binary .smallerOrEqual operand (.int bound)) state =
      some (.bool (value ≤ bound), after) := by
  change (compute world operand >>= fun left => compute world (.int bound) >>= fun right =>
    known (left.atMost? right)) state = _
  rw [bind_eq_some operandEq]
  rfl

/-- The right side of an alternative is not looked at if the left side is true. -/
theorem compute_booleanOr_left {left right : Expr}
    (leftEq : compute world left state = some (.bool true, after)) :
    compute world (.binary .booleanOr left right) state = some (.bool true, after) := by
  change (compute world left >>= fun first => if first.truthy then pure (Value.bool true) else
    compute world right >>= fun second => pure (Value.bool second.truthy)) state = _
  rw [bind_eq_some leftEq]
  rfl

/-- A disjunction computes its right side only if the left one is false. -/
theorem compute_booleanOr_right {left right : Expr} {between : State} {second : Bool}
    (leftEq : compute world left state = some (.bool false, between))
    (rightEq : compute world right between = some (.bool second, after)) :
    compute world (.binary .booleanOr left right) state = some (.bool second, after) := by
  change (compute world left >>= fun first => if first.truthy then pure (Value.bool true) else
    compute world right >>= fun second => pure (Value.bool second.truthy)) state = _
  rw [bind_eq_some leftEq]
  change (compute world right >>= fun second => pure (Value.bool second.truthy)) between = _
  rw [bind_eq_some rightEq]
  rfl

theorem compute_not {operand : Expr} {value : Bool}
    (operandEq : compute world operand state = some (.bool value, after)) :
    compute world (.not operand) state = some (.bool !value, after) := by
  change (compute world operand >>= fun value => pure (Value.bool !value.truthy)) state = _
  rw [bind_eq_some operandEq]
  rfl

theorem compute_fn {name : String} {arg : Expr} {value : Value}
    (argEq : compute world arg state = some (value, after)) :
    compute world (.fn name [arg]) state = callBuiltin world ⟨[name]⟩ [value] after := by
  change ((compute world arg >>= fun value => pure [value]) >>= callBuiltin world ⟨[name]⟩)
    state = _
  rw [bind_assoc, bind_eq_some argEq]
  rfl

/-! ### Statements -/

theorem performAll_nil : performAll world [] state = some (.next, state) := rfl

theorem performAll_blank (rest : List Stmt) :
    performAll world (.blank :: rest) state = performAll world rest state := rfl

theorem performAll_cons (stmt : Stmt) (rest : List Stmt) :
    performAll world (stmt :: rest) = (do
      match ← perform world stmt with
      | .next => performAll world rest
      | .returned value => pure (.returned value)) := rfl

/-- An assignment goes on with what its right side gives, if it gives anything. -/
theorem performAll_set (name : String) (value : Expr) (rest : List Stmt) :
    performAll world (.set (.var name) value :: rest) state =
      (compute world value state).bind fun result =>
        performAll world rest { result.2 with vars := Keyed.put name result.1 result.2.vars } := by
  change ((compute world value >>= fun computed => Run.write name computed >>= fun _ =>
    pure Outcome.next) >>= fun outcome => match outcome with
      | .next => performAll world rest
      | .returned value => pure (.returned value)) state = _
  rw [bind_assoc]
  cases computedEq : compute world value state with
  | none =>
      change (compute world value state).bind _ = _
      rw [computedEq]
      rfl
  | some result =>
      rw [bind_eq_some computedEq]
      rfl

theorem performAll_returning {value : Expr} {computed : Value}
    (valueEq : compute world value state = some (computed, after)) :
    performAll world [.returning value] state = some (.returned computed, after) := by
  change ((compute world value >>= fun computed => pure (Outcome.returned computed)) >>=
    fun outcome => match outcome with
      | .next => pure Outcome.next
      | .returned value => pure (.returned value)) state = _
  rw [bind_assoc, bind_eq_some valueEq]
  rfl

theorem performAll_returning_ne_next (value : Expr) :
    performAll world [.returning value] state ≠ some (.next, after) := by
  cases computedEq : compute world value state with
  | none =>
      change ((compute world value state).bind _).bind _ ≠ _
      rw [computedEq]
      exact nofun
  | some result =>
      rw [performAll_returning computedEq]
      exact nofun

/-- What refuses under a condition goes on exactly if the condition is not met. -/
theorem performAll_when_eq_some {condition refusal : Expr} {rest : List Stmt} {met : Bool}
    {between : State} (conditionEq : compute world condition state = some (.bool met, between)) :
    performAll world (.when condition [.returning refusal] :: rest) state = some (.next, after) ↔
      met = false ∧ performAll world rest between = some (.next, after) := by
  have conditionally : perform world (.when condition [.returning refusal]) state =
      if met = true then performAll world [.returning refusal] between
      else some (.next, between) := by
    change (compute world condition >>= fun value => if value.truthy then
      performAll world [.returning refusal] else pure Outcome.next) state = _
    rw [bind_eq_some conditionEq]
    cases met <;> rfl
  rw [performAll_cons]
  cases met with
  | false =>
      rw [bind_eq_some conditionally]
      exact (and_iff_right rfl).symm
  | true =>
      refine ⟨fun done => ?_, fun done => Bool.noConfusion done.1⟩
      rw [if_pos rfl] at conditionally
      cases refused : performAll world [.returning refusal] between with
      | none =>
          change (perform world (.when condition [.returning refusal]) state).bind _ = _ at done
          rw [conditionally, refused] at done
          cases done
      | some result =>
          obtain ⟨outcome, last⟩ := result
          rw [refused] at conditionally
          rw [bind_eq_some conditionally] at done
          cases outcome with
          | next => exact absurd refused (performAll_returning_ne_next refusal)
          | returned value => cases done

end Steps

/-- The result of a method that is called with given arguments. -/
def FunctionOf.resultOf (world : World) (method : Method) (args : List Value) : Option Value :=
  if method.params.length == args.length then
    (performAll world method.body { vars := (method.params.map Param.name).zip args }).map
      fun result => result.1.result
  else none

/-- A method that puts a text before its argument. -/
theorem FunctionOf.resultOf_prefixing {method : Method} {param type beginning text : String}
    {value : Value} (params : method.params = [.mk param (some type) none])
    (body : method.body =
      [.returning (.binary .concat (.string beginning) (Expr.var param).toText)])
    (textEq : value.text? = some text) (world : World) :
    method.resultOf world [value] = some (.string (beginning ++ text)) := by
  let state : State := { vars := [(param, value)] }
  have found : Keyed.get? param state.vars = some value := by simp [state, Keyed.get?]
  have cast : compute world (Expr.var param).toText state = some (.string text, state) := by
    rw [Expr.toText, compute_cast (compute_var found), Value.cast?, textEq]
    rfl
  have concat := compute_concat (compute_string beginning) cast rfl
  rw [resultOf, params, body, if_pos (by rfl)]
  change (performAll world _ state).map _ = _
  rw [performAll_returning concat]
  rfl

end RestPlugin.Php
