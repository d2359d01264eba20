import RestPlugin.Php.Syntax

/-!
# Checked constructors

Whatever ends up as an identifier in a generated file is checked when the tree is built.  Literals
and operators cannot be malformed and need no check.
-/

namespace RestPlugin.Php

/-- What an identifier is used for. -/
inductive Role where
  | name
  | variable
  | constant
  | property
  | method
  | parameter
  | function
  | classDecl
deriving DecidableEq, Repr, Inhabited

/-- The word for a role in messages. -/
def Role.text : Role → String
  | .name => "name"
  | .variable => "variable"
  | .constant => "constant"
  | .property => "property"
  | .method => "method"
  | .parameter => "parameter"
  | .function => "function"
  | .classDecl => "class"

/-- Why a tree could not be built. -/
inductive BuildError where
  | empty (role : Role)
  | invalid (role : Role) (value : String)
  | assignTarget (nodeType : String)
deriving DecidableEq, Repr, Inhabited

/-- The message of an error. -/
def BuildError.message : BuildError → String
  | empty role => role.text ++ " must not be empty"
  | invalid role value => s!"'{value}' is not a valid PHP " ++ role.text
  | assignTarget nodeType => s!"cannot assign to a {nodeType} expression"

/-- The result of building a tree. -/
abbrev Build (α : Type) : Type := Except BuildError α

/-- A letter or underscore. -/
def isIdentifierStart (c : Char) : Bool := c == '_' || Text.isLetter c

/-- Whether a text is a plain identifier. -/
def isIdentifier (value : String) : Bool :=
  match value.toList with
  | [] => false
  | c :: rest => isIdentifierStart c && rest.all Text.isWord

/-- Checks an identifier. -/
def identifier (role : Role) (value : String) : Build String :=
  if value == "" then .error (.empty role)
  else if isIdentifier value then .ok value
  else .error (.invalid role value)

/-- Checks the parts of a name. -/
def nameParts : List String → Build (List String)
  | [] => .ok []
  | part :: rest => do
      let part ← identifier .name part
      let parts ← nameParts rest
      .ok (part :: parts)

/-- A name with its parts between backslashes; leading backslashes are dropped. -/
def Name.of (value : String) : Build Name :=
  let trimmed := (Text.trimBy Text.isBlank value.toList).dropWhile (· == '\\')
  if trimmed.isEmpty then .error (.empty .name)
  else (nameParts (Text.splitOnChar '\\' (String.ofList trimmed))).map (⟨·⟩)

/-- A text without a leading dollar sign. -/
def stripDollar (value : String) : String :=
  match value.toList with
  | '$' :: rest => String.ofList rest
  | _ => value

namespace Expr

/-- A variable, with or without its dollar sign. -/
def ofVariable (value : String) : Build Expr :=
  (identifier .variable (stripDollar value)).map .var

/-- The current object. -/
def this : Expr := .var "this"

/-- A truth value. -/
def bool (value : Bool) : Expr := .constant ⟨[if value then "true" else "false"]⟩

/-- The null constant. -/
def null : Expr := .constant ⟨["null"]⟩

/-- A constant of a class. -/
def classConst (className constant : String) : Build Expr := do
  let className ← Name.of className
  let constant ← identifier .constant constant
  .ok (.classConstant className constant)

/-- A list of texts. -/
def stringList (values : List String) : Expr :=
  .array (values.map fun value => .mk none (.string value))

/-- An element of an array. -/
def dim (base key : Expr) : Expr := .element base (some key)

/-- The element after the last one. -/
def append (base : Expr) : Expr := .element base none

/-- A property of an object. -/
def prop (base : Expr) (name : String) : Build Expr :=
  (identifier .property name).map (.property base)

/-- A call of a function. -/
def funcCall (function : String) (args : List Expr) : Build Expr :=
  (Name.of function).map (.call · args)

/-- A call of a method. -/
def invoke (base : Expr) (method : String) (args : List Expr) : Build Expr :=
  (identifier .method method).map (.methodCall base · args)

/-- A call of a method of the current object. -/
def thisCall (method : String) (args : List Expr) : Build Expr := invoke this method args

/-- A call of a static method. -/
def invokeStatic (className method : String) (args : List Expr) : Build Expr := do
  let className ← Name.of className
  let method ← identifier .method method
  .ok (.staticCall className method args)

/-- A new object. -/
def create (className : String) (args : List Expr) : Build Expr :=
  (Name.of className).map (.new · args)

/-- Whether an expression can be assigned to. -/
def isAssignable : Expr → Bool
  | .var _ | .element _ _ | .property _ _ => true
  | _ => false

/-- An assignment to a variable, an array element or a property. -/
def assignTo (target value : Expr) : Build Expr :=
  if target.isAssignable then .ok (.assign target value)
  else .error (.assignTarget target.nodeType)

/-- A test whether an object belongs to a class. -/
def isInstance (operand : Expr) (className : String) : Build Expr :=
  (Name.of className).map (.instanceOf operand)

end Expr

namespace ArrayItem

/-- An item without a key. -/
def plain (value : Expr) : ArrayItem := .mk none value

/-- An item with a text as its key. -/
def keyed (key : String) (value : Expr) : ArrayItem := .mk (some (.string key)) value

end ArrayItem

namespace Param

/-- A parameter, with or without its dollar sign. -/
def of (value : String) : Build Param :=
  (identifier .parameter (stripDollar value)).map (.mk · none none)

/-- A parameter with a type. -/
def typed (type value : String) : Build Param :=
  (identifier .parameter (stripDollar value)).map (.mk · (some type) none)

/-- The parameter with a default. -/
def withDefault (value : Expr) : Param → Param
  | .mk name type _ => .mk name type (some value)

end Param

namespace Stmt

/-- An assignment to a variable. -/
def assign (name : String) (value : Expr) : Build Stmt := do
  let target ← Expr.ofVariable name
  (target.assignTo value).map .expression

/-- A statement that returns a value. -/
def returning (value : Expr) : Stmt := .ret (some value)

/-- A condition without an alternative. -/
def when (condition : Expr) (body : List Stmt) : Stmt := .cond condition body none

/-- A comment. -/
def comment (text : String) : Stmt := .nop [text]

end Stmt

/-- A function without visibility. -/
def functionDecl (name : String) (params : List Param) (body : List Stmt) :
    Build (FunctionOf Stmt) :=
  (identifier .function name).map fun name => { name, params, body }

/-- A public method without parameters and statements. -/
def Method.of (value : String) : Build Method :=
  (identifier .method value).map fun name => { name }

/-- A class without members. -/
def Class.of (value : String) : Build Class :=
  (identifier .classDecl value).map fun name => { name }

/-- A public constant of a class. -/
def ClassConst.of (value : String) (expr : Expr) : Build ClassConst :=
  (identifier .constant value).map fun name => { name, value := expr }

end RestPlugin.Php
