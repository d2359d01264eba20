import RestPlugin.Proofs.Handler.Total
import RestPlugin.Proofs.Php.Casts

/-!
# The names of transients

A handler of a resource with transient storage takes the identity from the request and hands it to a
private method, which computes the name of the transient.  The numbers it goes on with are the
positive ones of 64 bits, and the texts are those that are not blank, without white space at their
ends.  The name is the key of the resource, followed by an underscore and the identity if there is
one.
-/

namespace RestPlugin.Handler.Transient

open Controller Ir Php Snippet Text Number

/-! ## Identities that handlers go on with -/

/-- The state in which a handler begins. -/
def received : State where
  vars := [("request", .object "WP_REST_Request" [])]

/-- The name of the method that computes the name of a transient. -/
def keyMethod (pascal : String) : String := s!"get{pascal}TransientKey"

/-- The values with which the handlers of a resource ask for the name of a transient: what the
arguments come to after the identity has been taken from some request. -/
def Takes (resource : Resource) (values : List Value) : Prop :=
  ∃ (stmts : List Stmt) (args : List Expr) (world : World) (between after : State),
    takeIdentity? resource (pascalCase resource.name) = .ok stmts ∧
    key (pascalCase resource.name) resource.identity =
      .ok (.methodCall .this (keyMethod (pascalCase resource.name)) args) ∧
    performAll world stmts received = some (.next, between) ∧
    computeAll world args between = some (values, after)

/-- The values that are taken for an identity. -/
inductive Acceptable : Option Identity → List Value → Prop
  | single : Acceptable none []
  | number {param : String} {value : Int} (positive : 0 < value)
      (bounded : value ≤ greatestSigned) : Acceptable (some ⟨.number, param⟩) [.int value]
  | text {param value : String} (nonblank : trimmed value ≠ "") :
      Acceptable (some ⟨.string, param⟩) [.string (trimmed value)]

/-- Whether statements run to their end and leave a value in a variable. -/
def Leaves (world : World) (stmts : List Stmt) (state : State) (name : String) (left : Value) :
    Prop :=
  ∃ after, performAll world stmts state = some (.next, after) ∧
    Keyed.get? name after.vars = some left

theorem leaves_of_iff {world : World} {stmts : List Stmt} {state : State} {name : String}
    (passes : Value → Prop)
    (run : ∀ after, performAll world stmts state = some (.next, after) ↔
      ∃ left, passes left ∧ after = { state with vars := Keyed.put name left state.vars })
    (left : Value) : Leaves world stmts state name left ↔ passes left := by
  simp only [Leaves, run]
  constructor
  · rintro ⟨_, ⟨value, passed, rfl⟩, found⟩
    rw [Keyed.get?_put, if_pos rfl] at found
    exact Option.some.inj found ▸ passed
  · exact fun passed => ⟨_, ⟨left, passed, rfl⟩, by rw [Keyed.get?_put, if_pos rfl]⟩

section Guards

variable {world : World} {param : String} {state : State} {value : Value}
  (found : Keyed.get? param state.vars = some value) (missing invalid : Expr) (left : Value)
include found

/-- The guard of a number lets positive numbers through. -/
theorem leaves_numberGuard :
    Leaves world
        [.when (.binary .identical .null (.var param)) [.returning missing],
         .set (.var param) (Expr.var param).toInt,
         .when (.binary .smallerOrEqual (.var param) (.int 0)) [.returning invalid], .blank]
        state param left ↔
    value ≠ .null ∧ ∃ number, value.number? = some number ∧ 0 < number ∧ left = .int number := by
  refine leaves_of_iff (fun left => value ≠ .null ∧ ∃ number, value.number? = some number ∧
    0 < number ∧ left = .int number) (fun after => ?_) left
  obtain ⟨isNull, compared, nullIff⟩ :
      ∃ isNull, Value.null.identical value = some isNull ∧ (isNull = false ↔ value ≠ .null) := by
    cases value <;> exact ⟨_, rfl, by simp⟩
  rw [performAll_when_eq_some (compute_identical compute_null (compute_var found) compared),
    performAll_set, Expr.toInt, compute_cast (compute_var found), nullIff]
  cases numberEq : value.number? with
  | none => simp [Value.cast?, numberEq]
  | some number =>
      have put : Keyed.get? param (Keyed.put param (Value.int number) state.vars) =
          some (.int number) := by rw [Keyed.get?_put, if_pos rfl]
      simp only [Value.cast?, numberEq, Option.map_some, Option.bind_some]
      rw [performAll_when_eq_some (compute_smallerOrEqual (compute_var put)), performAll_blank,
        performAll_nil, decide_eq_false_iff_not, not_le]
      constructor
      · rintro ⟨notNull, positive, done⟩
        cases done
        exact ⟨_, ⟨notNull, number, rfl, positive, rfl⟩, rfl⟩
      · rintro ⟨_, ⟨notNull, other, same, positive, rfl⟩, rfl⟩
        cases same
        exact ⟨notNull, positive, rfl⟩

/-- The condition under which the guard of a text refuses a value holds of all values but the texts
that are not blank. -/
theorem exists_compute_refused : ∃ refused,
    compute world (.binary .booleanOr (.not (.fn "is_string" [.var param]))
      (.binary .identical (.string "") (.fn "trim" [.var param]))) state =
        some (.bool refused, state) ∧
    (refused = false ↔ ∃ text, value = .string text ∧ trimmed text ≠ "") := by
  have asks (isText : Bool) (answer : callBuiltin world ⟨["is_string"]⟩ [value] state =
      some (.bool isText, state)) :
      compute world (.not (.fn "is_string" [.var param])) state = some (.bool !isText, state) := by
    rw [← compute_fn (compute_var found)] at answer
    exact compute_not answer
  by_cases isText : ∃ text, value = .string text
  · obtain ⟨text, rfl⟩ := isText
    have trims : compute world (.fn "trim" [.var param]) state =
        some (.string (trimmed text), state) := by
      rw [compute_fn (compute_var found)]
      rfl
    have blank : compute world (.binary .identical (.string "") (.fn "trim" [.var param])) state =
        some (.bool ("" == trimmed text), state) :=
      compute_identical (compute_string "") trims rfl
    refine ⟨"" == trimmed text, compute_booleanOr_right (asks true rfl) blank, ?_⟩
    rw [beq_eq_false_iff_ne]
    refine ⟨fun differ => ⟨text, rfl, differ.symm⟩, ?_⟩
    rintro ⟨other, same, nonblank⟩
    cases same
    exact nonblank.symm
  · have answer : callBuiltin world ⟨["is_string"]⟩ [value] state =
        some (.bool false, state) := by
      cases value with
      | string text => exact absurd ⟨text, rfl⟩ isText
      | _ => rfl
    refine ⟨true, compute_booleanOr_left (asks false answer), ?_⟩
    exact iff_of_false nofun fun ⟨text, textEq, _⟩ => isText ⟨text, textEq⟩

/-- The guard of a text lets texts through that are not blank, and takes the white space away. -/
theorem leaves_textGuard :
    Leaves world
        [.when (.binary .booleanOr (.not (.fn "is_string" [.var param]))
            (.binary .identical (.string "") (.fn "trim" [.var param]))) [.returning missing],
         .set (.var param) (.fn "trim" [(Expr.var param).toText]), .blank] state param left ↔
    ∃ text, value = .string text ∧ trimmed text ≠ "" ∧ left = .string (trimmed text) := by
  refine leaves_of_iff (fun left => ∃ text, value = .string text ∧ trimmed text ≠ "" ∧
    left = .string (trimmed text)) (fun after => ?_) left
  obtain ⟨refused, conditionEq, refusedIff⟩ := exists_compute_refused found
  rw [performAll_when_eq_some conditionEq, refusedIff, performAll_set]
  constructor
  · rintro ⟨⟨text, rfl, nonblank⟩, done⟩
    rw [compute_fn (by rw [Expr.toText, compute_cast (compute_var found)]; rfl)] at done
    cases done
    exact ⟨_, ⟨text, rfl, nonblank, rfl⟩, rfl⟩
  · rintro ⟨_, ⟨text, rfl, nonblank, rfl⟩, rfl⟩
    refine ⟨⟨text, rfl, nonblank⟩, ?_⟩
    rw [compute_fn (by rw [Expr.toText, compute_cast (compute_var found)]; rfl)]
    rfl

end Guards

section Request

variable {world : World} {param : String}

/-- What the request holds under a name. -/
def given (world : World) (param : String) : Value :=
  world [] (.method (.object "WP_REST_Request" []) "get_param" [.string param])

/-- The state after a parameter has been read into a variable. -/
def readInto (world : World) (param : String) : State where
  vars := Keyed.put param (given world param) received.vars
  calls := [.method (.object "WP_REST_Request" []) "get_param" [.string param]]

theorem get?_readInto :
    Keyed.get? param (readInto world param).vars = some (given world param) := by
  rw [readInto, Keyed.get?_put, if_pos rfl]

theorem compute_requestParam : compute world (requestParam param) received =
    some (given world param, { received with
      calls := [.method (.object "WP_REST_Request" []) "get_param" [.string param]] }) :=
  rfl

/-- Reading a parameter leaves what the statements after it leave. -/
theorem leaves_read (rest : List Stmt) (left : Value) :
    Leaves world (.set (.var param) (requestParam param) :: rest) received param left ↔
      Leaves world rest (readInto world param) param left := by
  rw [Leaves, performAll_set, compute_requestParam]
  rfl

end Request

theorem isIdentifier_keyMethod (name : String) :
    isIdentifier (keyMethod (pascalCase name)) = true := by
  have around : isIdentifier ("get" ++ pascalCase name ++ "TransientKey") = true :=
    isIdentifier_around (isPascal_pascalCase name) (by decide) (by decide)
  exact around

theorem key_none (name : String) : key (pascalCase name) none =
    .ok (.methodCall .this (keyMethod (pascalCase name)) []) := by
  rw [key, ← keyMethod, Option.toList_none, List.mapM_nil, pure_bind,
    thisCall_eq_ok (isIdentifier_keyMethod name)]

/-- With an identity, the key is asked for with its parameter. -/
theorem key_some (name : String) {identity : Identity}
    (checked : isIdentifier identity.param = true) : key (pascalCase name) (some identity) =
      .ok (.methodCall .this (keyMethod (pascalCase name)) [.var identity.param]) := by
  have arguments : (some identity).toList.mapM (fun identity => Expr.ofVariable identity.param) =
      .ok [.var identity.param] := by
    rw [Option.toList_some, List.mapM_cons, ofVariable_eq_ok checked]
    rfl
  rw [key, ← keyMethod, arguments, ok_bind, thisCall_eq_ok (isIdentifier_keyMethod name)]

/-- A variable is computed exactly if it is assigned, and without any call. -/
theorem computeAll_var_eq_some {world : World} {name : String} {state after : State}
    {values : List Value} : computeAll world [.var name] state = some (values, after) ↔
      ∃ value, Keyed.get? name state.vars = some value ∧ values = [value] ∧ after = state := by
  cases found : Keyed.get? name state.vars with
  | none =>
      have stuck : computeAll world [.var name] state = none := by
        change (readVariable false name state).bind _ = _
        rw [readVariable, bind_eq_some rfl, found]
        rfl
      simp [stuck]
  | some value =>
      have read : computeAll world [.var name] state = some ([value], state) := by
        change (compute world (.var name) >>= fun value => pure [value]) state = _
        rw [bind_eq_some (compute_var found)]
        rfl
      rw [read]
      simp [eq_comm]

/-- With an identity, the argument is what is left in its variable. -/
theorem takes_some_iff {resource : Resource} {identity : Identity}
    (identified : resource.identity = some identity) (checked : isIdentifier identity.param = true)
    (values : List Value) :
    Takes resource values ↔ ∃ stmts world value,
      takeIdentity identity (pascalCase resource.name) resource.name = .ok stmts ∧
      Leaves world stmts received identity.param value ∧ values = [value] := by
  constructor
  · rintro ⟨stmts, args, world, between, after, taken, keyEq, done, argsEq⟩
    rw [takeIdentity?, identified] at taken
    rw [identified, key_some _ checked] at keyEq
    cases keyEq
    obtain ⟨value, found, valuesEq, -⟩ := computeAll_var_eq_some.mp argsEq
    exact ⟨stmts, world, value, taken, ⟨between, done, found⟩, valuesEq⟩
  · rintro ⟨stmts, world, value, taken, ⟨after, done, found⟩, valuesEq⟩
    refine ⟨stmts, [.var identity.param], world, after, after, ?_, ?_, done,
      computeAll_var_eq_some.mpr ⟨value, found, valuesEq, rfl⟩⟩
    · rw [takeIdentity?, identified]
      exact taken
    · rw [identified, key_some _ checked]

section Kinds

variable {param : String} (checked : isIdentifier param = true) (pascal resource : String)
include checked

theorem takeIdentity_number : ∃ missing invalid, takeIdentity ⟨.number, param⟩ pascal resource =
    .ok [.set (.var param) (requestParam param),
      .when (.binary .identical .null (.var param)) [.returning missing],
      .set (.var param) (Expr.var param).toInt,
      .when (.binary .smallerOrEqual (.var param) (.int 0)) [.returning invalid], .blank] := by
  rw [takeIdentity, readIdentity, identityGuard, ofVariable_eq_ok checked]
  exact ⟨_, _, rfl⟩

theorem takeIdentity_string : ∃ missing, takeIdentity ⟨.string, param⟩ pascal resource =
    .ok [.set (.var param) (requestParam param),
      .when (.binary .booleanOr (.not (.fn "is_string" [.var param]))
        (.binary .identical (.string "") (.fn "trim" [.var param]))) [.returning missing],
      .set (.var param) (.fn "trim" [(Expr.var param).toText]), .blank] := by
  rw [takeIdentity, readIdentity, identityGuard, ofVariable_eq_ok checked]
  exact ⟨_, rfl⟩

end Kinds

/-- Without an identity, no values are taken, and none are acceptable. -/
theorem takes_none_iff {resource : Resource} (identified : resource.identity = none)
    (values : List Value) : Takes resource values ↔ Acceptable none values := by
  constructor
  · rintro ⟨stmts, args, world, between, after, -, keyEq, -, argsEq⟩
    rw [identified, key_none] at keyEq
    cases keyEq
    cases argsEq
    exact .single
  · rintro ⟨⟩
    refine ⟨[], [], fun _ _ => .null, received, received, ?_, ?_, rfl, rfl⟩
    · rw [takeIdentity?, identified]
    · rw [identified, key_none]

section Identified

variable {resource : Resource} {param : String} (checked : isIdentifier param = true)
include checked

/-- A number is taken exactly if it is acceptable. -/
theorem takes_number_iff (identified : resource.identity = some ⟨.number, param⟩)
    (values : List Value) : Takes resource values ↔ Acceptable (some ⟨.number, param⟩) values := by
  rw [takes_some_iff identified checked]
  obtain ⟨missing, invalid, taken⟩ :=
    takeIdentity_number checked (pascalCase resource.name) resource.name
  constructor
  · rintro ⟨stmts, world, value, stmtsEq, leaves, rfl⟩
    rw [taken] at stmtsEq
    cases stmtsEq
    rw [leaves_read, leaves_numberGuard get?_readInto] at leaves
    obtain ⟨-, number, numberEq, positive, rfl⟩ := leaves
    exact .number positive (Value.le_of_number? numberEq)
  · intro acceptable
    cases acceptable with
    | @number _ value positive bounded =>
        have low : leastSigned ≤ value := le_trans (by decide) positive.le
        refine ⟨_, fun _ _ => .int value, .int value, taken, ?_, rfl⟩
        have given : Value.int value ≠ .null := by simp
        rw [leaves_read, leaves_numberGuard get?_readInto]
        exact ⟨given, value, Value.number?_int low bounded, positive, rfl⟩

/-- A text is taken exactly if it is acceptable. -/
theorem takes_string_iff (identified : resource.identity = some ⟨.string, param⟩)
    (values : List Value) : Takes resource values ↔ Acceptable (some ⟨.string, param⟩) values := by
  rw [takes_some_iff identified checked]
  obtain ⟨missing, taken⟩ :=
    takeIdentity_string checked (pascalCase resource.name) resource.name
  constructor
  · rintro ⟨stmts, world, value, stmtsEq, leaves, rfl⟩
    rw [taken] at stmtsEq
    cases stmtsEq
    rw [leaves_read, leaves_textGuard get?_readInto] at leaves
    obtain ⟨text, -, nonblank, rfl⟩ := leaves
    exact .text nonblank
  · intro acceptable
    cases acceptable with
    | @text _ text nonblank =>
        refine ⟨_, fun _ _ => .string text, .string (trimmed text), taken, ?_, rfl⟩
        rw [leaves_read, leaves_textGuard get?_readInto]
        exact ⟨text, rfl, nonblank, rfl⟩

end Identified

/-- The handlers of a well-named resource take the acceptable values. -/
theorem takes_iff {resource : Resource} (named : resource.WellNamed) (values : List Value) :
    Takes resource values ↔ Acceptable resource.identity values := by
  cases identified : resource.identity with
  | none => exact takes_none_iff identified values
  | some identity =>
      have checked := named.identity identity identified
      obtain ⟨kind, param⟩ := identity
      cases kind with
      | number => exact takes_number_iff checked identified values
      | string => exact takes_string_iff checked identified values

/-! ## Names -/

/-- What the name of a transient has after the key of the resource. -/
def suffix : List Value → String
  | [.int value] => "_" ++ toString value
  | [.string value] => "_" ++ value
  | _ => ""

/-- The private method of a resource with transient storage computes the key of the resource with
the identity behind it. -/
theorem exists_method {resource : Resource} (named : resource.WellNamed) (beginning : String) :
    ∃ method, methods (pascalCase resource.name) resource.identity beginning = .ok [method] ∧
      method.name = keyMethod (pascalCase resource.name) ∧
      ∀ world values, Acceptable resource.identity values →
        method.resultOf world values = some (.string (beginning ++ suffix values)) := by
  have methodEq := method_eq_ok (isIdentifier_keyMethod resource.name)
  cases identified : resource.identity with
  | none =>
      refine ⟨_, by rw [methods, ← keyMethod, methodEq]; rfl, rfl, ?_⟩
      rintro world values ⟨⟩
      change some (Value.string beginning) = some (.string (beginning ++ ""))
      rw [String.append_empty]
  | some identity =>
      have checked := named.identity identity identified
      refine ⟨_, by
        rw [methods, ← keyMethod, methodEq]
        simp only [ok_bind, typed_eq_ok checked, ofVariable_eq_ok checked]
        rfl, rfl, ?_⟩
      intro world values acceptable
      cases acceptable with
      | number =>
          rw [suffix, ← String.append_assoc]
          exact FunctionOf.resultOf_prefixing rfl rfl rfl world
      | text =>
          rw [suffix, ← String.append_assoc]
          exact FunctionOf.resultOf_prefixing rfl rfl rfl world

end RestPlugin.Handler.Transient
