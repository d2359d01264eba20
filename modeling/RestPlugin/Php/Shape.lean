import RestPlugin.Php.Build

/-!
# Shapes with fixed names

Calls, assignments and literals whose names are written in the generator itself.  Such a name is an
identifier by inspection and needs no check, so these shapes cannot fail.
-/

namespace RestPlugin.Php

namespace Expr

/-- A call of a global function. -/
def fn (name : String) (args : List Expr) : Expr := .call ⟨[name]⟩ args

/-- A new object of a global class. -/
def newOf (className : String) (args : List Expr) : Expr := .new ⟨[className]⟩ args

/-- A call of a method of an object. -/
def send (base : Expr) (method : String) (args : List Expr) : Expr := .methodCall base method args

/-- The element of an array under a text. -/
def entry (base : Expr) (key : String) : Expr := .element base (some (.string key))

/-- A test whether an object belongs to a global class. -/
def isA (operand : Expr) (className : String) : Expr := .instanceOf operand ⟨[className]⟩

/-- An expression cast to an integer. -/
def toInt (operand : Expr) : Expr := .cast .int operand

/-- An expression cast to a string. -/
def toText (operand : Expr) : Expr := .cast .string operand

/-- An expression cast to an array. -/
def toArray (operand : Expr) : Expr := .cast .array operand

/-- A test that an expression is not null. -/
def notNull (operand : Expr) : Expr := .binary .notIdentical null operand

/-- A test that an expression is the constant `false`. -/
def isFalse (operand : Expr) : Expr := .binary .identical (bool false) operand

/-- An array with texts as its keys. -/
def record (fields : List (String × Expr)) : Expr :=
  .array (fields.map fun field => .keyed field.1 field.2)

end Expr

namespace Stmt

/-- An assignment. -/
def set (target value : Expr) : Stmt := .expression (.assign target value)

/-- An assignment to a variable. -/
def setVar (name : String) (value : Expr) : Stmt := set (.var name) value

end Stmt

namespace Param

/-- A parameter with a type. -/
def known (type name : String) : Param := .mk name (some type) none

end Param

end RestPlugin.Php
