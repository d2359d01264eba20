import RestPlugin.Text.Ascii

/-!
# PHP syntax trees

The part of PHP that generated controllers, policies and loaders need: expressions, statements,
functions, classes and files.
-/

namespace RestPlugin.Php

/-- A possibly namespaced name. -/
structure Name where
  parts : List String
deriving DecidableEq, Repr, Inhabited

/-- Binary operators. -/
inductive BinaryOp where
  | identical
  | notIdentical
  | equal
  | notEqual
  | smaller
  | smallerOrEqual
  | greater
  | greaterOrEqual
  | booleanAnd
  | booleanOr
  | plus
  | minus
  | mul
  | div
  | concat
  | coalesce
deriving DecidableEq, Repr, Inhabited

/-- The types an expression can be cast to. -/
inductive CastKind where
  | int
  | float
  | string
  | bool
  | array
deriving DecidableEq, Repr, Inhabited

mutual

/-- An expression.  A match arm without conditions is the default arm, and a ternary may lack its
middle part. -/
inductive Expr where
  | var (name : String)
  | string (value : String)
  | int (value : Int)
  | constant (name : Name)
  | classConstant (className : Name) (name : String)
  | array (items : List ArrayItem)
  | element (base : Expr) (key : Option Expr)
  | property (base : Expr) (name : String)
  | call (name : Name) (args : List Expr)
  | methodCall (base : Expr) (name : String) (args : List Expr)
  | staticCall (className : Name) (name : String) (args : List Expr)
  | new (className : Name) (args : List Expr)
  | assign (target value : Expr)
  | binary (op : BinaryOp) (left right : Expr)
  | not (operand : Expr)
  | instanceOf (operand : Expr) (className : Name)
  | cast (kind : CastKind) (operand : Expr)
  | ternary (condition : Expr) (yes : Option Expr) (no : Expr)
  | isset (args : List Expr)
  | arrow (isStatic : Bool) (params : List Param) (body : Expr)
  | matching (subject : Expr) (arms : List MatchArm)

/-- An item of an array, with an optional key. -/
inductive ArrayItem where
  | mk (key : Option Expr) (value : Expr)

/-- An arm of a match expression. -/
inductive MatchArm where
  | mk (conditions : List Expr) (body : Expr)

/-- A parameter, with an optional type and default. -/
inductive Param where
  | mk (name : String) (type : Option String) (default : Option Expr)

end

instance : Inhabited Expr := ⟨.var "this"⟩

/-- The name of a parameter. -/
def Param.name : Param → String
  | .mk name _ _ => name

/-- The lines of a documentation comment. -/
abbrev Doc : Type := List String

/-- Who may use a member of a class. -/
inductive Visibility where
  | isPublic
  | isProtected
  | isPrivate
deriving DecidableEq, Repr, Inhabited

/-- A constant of a class. -/
structure ClassConst where
  name : String
  visibility : Visibility := .isPublic
  value : Expr

/-- A function or method with statements of type `σ`. -/
structure FunctionOf (σ : Type) where
  name : String
  visibility : Visibility := .isPublic
  isStatic : Bool := false
  params : List Param := []
  returnType : Option String := none
  body : List σ := []
  doc : Option Doc := none

/-- A class whose methods have statements of type `σ`. -/
structure ClassOf (σ : Type) where
  name : String
  isFinal : Bool := false
  isAbstract : Bool := false
  parent : Option Name := none
  consts : List ClassConst := []
  methods : List (FunctionOf σ) := []
  doc : Option Doc := none

/-- A statement.  A `nop` carries comments, and without any it is a blank line. -/
inductive Stmt where
  | expression (value : Expr)
  | ret (value : Option Expr)
  | cond (condition : Expr) (yes : List Stmt) (no : Option (List Stmt))
  | foreach (subject : Expr) (key : Option Expr) (value : Expr) (body : List Stmt)
  | next
  | nop (comments : List String)
  | function (decl : FunctionOf Stmt)
  | classDecl (decl : ClassOf Stmt)

instance : Inhabited Stmt := ⟨.next⟩

/-- A method of a class. -/
abbrev Method : Type := FunctionOf Stmt

/-- A class. -/
abbrev Class : Type := ClassOf Stmt

/-- A source file. -/
structure File where
  strictTypes : Bool := false
  doc : Option Doc := none
  space : Option Name := none
  uses : List Name := []
  stmts : List Stmt := []

namespace Name

/-- The text of a name. -/
def text (name : Name) : String := Text.join "\\" name.parts

end Name

namespace BinaryOp

/-- The operator as it is written. -/
def symbol : BinaryOp → String
  | identical => "==="
  | notIdentical => "!=="
  | equal => "=="
  | notEqual => "!="
  | smaller => "<"
  | smallerOrEqual => "<="
  | greater => ">"
  | greaterOrEqual => ">="
  | booleanAnd => "&&"
  | booleanOr => "||"
  | plus => "+"
  | minus => "-"
  | mul => "*"
  | div => "/"
  | concat => "."
  | coalesce => "??"

/-- The name of the operator in node types. -/
def nodeName : BinaryOp → String
  | identical => "Identical"
  | notIdentical => "NotIdentical"
  | equal => "Equal"
  | notEqual => "NotEqual"
  | smaller => "Smaller"
  | smallerOrEqual => "SmallerOrEqual"
  | greater => "Greater"
  | greaterOrEqual => "GreaterOrEqual"
  | booleanAnd => "BooleanAnd"
  | booleanOr => "BooleanOr"
  | plus => "Plus"
  | minus => "Minus"
  | mul => "Mul"
  | div => "Div"
  | concat => "Concat"
  | coalesce => "Coalesce"

/-- All operators. -/
def all : List BinaryOp :=
  [identical, notIdentical, equal, notEqual, smaller, smallerOrEqual, greater, greaterOrEqual,
   booleanAnd, booleanOr, plus, minus, mul, div, concat, coalesce]

end BinaryOp

namespace CastKind

/-- The cast as it is written. -/
def keyword : CastKind → String
  | int => "int"
  | float => "float"
  | string => "string"
  | bool => "bool"
  | array => "array"

/-- The name of the cast in node types. -/
def nodeName : CastKind → String
  | int => "Int"
  | float => "Double"
  | string => "String"
  | bool => "Bool"
  | array => "Array"

/-- All casts. -/
def all : List CastKind := [int, float, string, bool, array]

end CastKind

namespace Visibility

/-- The visibility as it is written. -/
def keyword : Visibility → String
  | isPublic => "public"
  | isProtected => "protected"
  | isPrivate => "private"

end Visibility

namespace Expr

/-- The node type of an expression, with its operator or cast. -/
def nodeType : Expr → String
  | var _ => "Expr_Variable"
  | string _ => "Scalar_String"
  | int _ => "Scalar_Int"
  | constant _ => "Expr_ConstFetch"
  | classConstant _ _ => "Expr_ClassConstFetch"
  | array _ => "Expr_Array"
  | element _ _ => "Expr_ArrayDimFetch"
  | property _ _ => "Expr_PropertyFetch"
  | call _ _ => "Expr_FuncCall"
  | methodCall _ _ _ => "Expr_MethodCall"
  | staticCall _ _ _ => "Expr_StaticCall"
  | new _ _ => "Expr_New"
  | assign _ _ => "Expr_Assign"
  | binary op _ _ => "Expr_BinaryOp_" ++ op.nodeName
  | not _ => "Expr_BooleanNot"
  | instanceOf _ _ => "Expr_Instanceof"
  | cast kind _ => "Expr_Cast_" ++ kind.nodeName
  | ternary _ _ _ => "Expr_Ternary"
  | isset _ => "Expr_Isset"
  | arrow _ _ _ => "Expr_ArrowFunction"
  | matching _ _ => "Expr_Match"

end Expr

namespace Stmt

/-- The node type of a statement. -/
def nodeType : Stmt → String
  | expression _ => "Stmt_Expression"
  | ret _ => "Stmt_Return"
  | cond _ _ _ => "Stmt_If"
  | foreach _ _ _ _ => "Stmt_Foreach"
  | next => "Stmt_Continue"
  | nop _ => "Stmt_Nop"
  | function _ => "Stmt_Function"
  | classDecl _ => "Stmt_Class"

/-- A blank line. -/
def blank : Stmt := nop []

end Stmt

/-- The method of a class with a given name. -/
def ClassOf.method? {σ : Type} (decl : ClassOf σ) (name : String) : Option (FunctionOf σ) :=
  decl.methods.find? fun method => method.name == name

/-- Adds a use clause to a file, once. -/
def File.addUse (file : File) (name : Name) : File :=
  if file.uses.contains name then file else { file with uses := file.uses ++ [name] }

end RestPlugin.Php
