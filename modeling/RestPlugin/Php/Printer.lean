import RestPlugin.Code.Fragment
import RestPlugin.Php.Syntax
import RestPlugin.Text.Lines

/-!
# Printing PHP

The text of a syntax tree in the WordPress style: blanks inside the parentheses of calls and control
structures, single-quoted texts and long array literals.  An array stands on several lines when more
than one of its items has a key or when an item does.  Parentheses follow from binding strengths:
an operand that binds less than its place asks for is enclosed.
-/

namespace RestPlugin.Php

open Code

/-! ## Binding strength -/

/-- The binding strength of a binary operator. -/
def BinaryOp.precedence : BinaryOp → Nat
  | .coalesce => 4
  | .booleanOr => 5
  | .booleanAnd => 6
  | .identical | .notIdentical | .equal | .notEqual => 7
  | .smaller | .smallerOrEqual | .greater | .greaterOrEqual => 8
  | .concat => 9
  | .plus | .minus => 10
  | .mul | .div => 11

namespace Precedence

/-- Assignments bind least. -/
def assign : Nat := 2

/-- Conditional expressions and arrow functions. -/
def ternary : Nat := 3

/-- Negation. -/
def not : Nat := 12

/-- Class tests. -/
def instanceOf : Nat := 13

/-- Casts. -/
def cast : Nat := 14

/-- Everything that needs no parentheses. -/
def atom : Nat := 20

end Precedence

/-- The binding strength of an expression. -/
def Expr.precedence : Expr → Nat
  | .assign _ _ => Precedence.assign
  | .ternary _ _ _ | .arrow _ _ _ => Precedence.ternary
  | .binary op _ _ => op.precedence
  | .not _ => Precedence.not
  | .instanceOf _ _ => Precedence.instanceOf
  | .cast _ _ => Precedence.cast
  | _ => Precedence.atom

/-- The least binding strength of the left operand.  Only `??` groups to the right. -/
def BinaryOp.leftStrength (op : BinaryOp) : Nat :=
  if op = .coalesce then op.precedence + 1 else op.precedence

/-- The least binding strength of the right operand. -/
def BinaryOp.rightStrength (op : BinaryOp) : Nat :=
  if op = .coalesce then op.precedence else op.precedence + 1

/-- Whether members and elements of an expression are written directly after it. -/
def Expr.isDereferenceable : Expr → Bool
  | .var _ | .classConstant _ _ | .element _ _ | .property _ _ | .methodCall _ _ _
  | .staticCall _ _ _ | .call _ _ => true
  | _ => false

/-- Whether an array key is written without blanks inside its brackets. -/
def Expr.isPlainKey : Expr → Bool
  | .string _ | .int _ => true
  | _ => false

/-! ## Expressions -/

/-- The characters of a single-quoted text: a backslash stands before each quote and backslash. -/
def quoteChar (c : Char) : List Char := if c == '\\' || c == '\'' then ['\\', c] else [c]

/-- A single-quoted text. -/
def quote (value : String) : String :=
  String.ofList ('\'' :: (value.toList.flatMap quoteChar ++ ['\'']))

/-- A text in parentheses. -/
def enclose (text : String) : String := "( " ++ text ++ " )"

/-- A text in parentheses if asked for. -/
def encloseIf (condition : Bool) (text : String) : String :=
  if condition then enclose text else text

/-- A list in the parentheses of a call. -/
def callList : List String → String
  | [] => "()"
  | texts => enclose (Text.join ", " texts)

/-- The lines of an array item, one level deeper and with a comma after the last. -/
def itemLines (item : String) : String :=
  Text.join "\n" ((Text.lines item).map ("\t" ++ ·)) ++ ",\n"

/-- An array literal, given how many of its items have a key. -/
def arrayText (keyed : Nat) : List String → String
  | [] => "array()"
  | items =>
      if keyed ≤ 1 && !(items.any fun item => item.toList.contains '\n') then
        "array( " ++ Text.join ", " items ++ " )"
      else "array(\n" ++ String.join (items.map itemLines) ++ ")"

/-- The number of array items with a key. -/
def countKeys : List ArrayItem → Nat
  | [] => 0
  | .mk none _ :: rest => countKeys rest
  | .mk (some _) _ :: rest => countKeys rest + 1

/-- The type of a parameter before its name. -/
def typeText : Option String → String
  | none => ""
  | some type => type ++ " "

/-- The return type of a function after its parameters. -/
def returnText : Option String → String
  | none => ""
  | some type => ": " ++ type

mutual

/-- The text of an expression. -/
def Expr.text : Expr → String
  | .var name => "$" ++ name
  | .string value => quote value
  | .int value => toString value
  | .constant name => name.text
  | .classConstant className name => className.text ++ "::" ++ name
  | .array items => arrayText (countKeys items) (itemTexts items)
  | .element base none => encloseIf (!base.isDereferenceable) base.text ++ "[]"
  | .element base (some key) =>
      encloseIf (!base.isDereferenceable) base.text ++
        (if key.isPlainKey then "[" ++ key.text ++ "]" else "[ " ++ key.text ++ " ]")
  | .property base name => encloseIf (!base.isDereferenceable) base.text ++ "->" ++ name
  | .call name args => name.text ++ callList (argTexts args)
  | .methodCall base name args =>
      encloseIf (!base.isDereferenceable) base.text ++ "->" ++ name ++ callList (argTexts args)
  | .staticCall className name args =>
      className.text ++ "::" ++ name ++ callList (argTexts args)
  | .new className args => "new " ++ className.text ++ callList (argTexts args)
  | .assign target value =>
      target.text ++ " = " ++ encloseIf (value.precedence < Precedence.assign) value.text
  | .binary op left right =>
      encloseIf (left.precedence < op.leftStrength) left.text ++ " " ++ op.symbol ++ " " ++
        encloseIf (right.precedence < op.rightStrength) right.text
  | .not operand => "! " ++ encloseIf (operand.precedence < Precedence.not) operand.text
  | .instanceOf operand className =>
      encloseIf (operand.precedence < Precedence.instanceOf + 1) operand.text ++
        " instanceof " ++ className.text
  | .cast kind operand =>
      "(" ++ kind.keyword ++ ") " ++ encloseIf (operand.precedence < Precedence.cast) operand.text
  | .ternary condition none no =>
      encloseIf (condition.precedence < Precedence.ternary + 1) condition.text ++ " ?: " ++
        encloseIf (no.precedence < Precedence.ternary + 1) no.text
  | .ternary condition (some yes) no =>
      encloseIf (condition.precedence < Precedence.ternary + 1) condition.text ++ " ? " ++
        encloseIf (yes.precedence < Precedence.ternary + 1) yes.text ++ " : " ++
        encloseIf (no.precedence < Precedence.ternary + 1) no.text
  | .isset args => "isset" ++ callList (argTexts args)
  | .arrow isStatic params body =>
      (if isStatic then "static " else "") ++ "fn" ++ callList (paramTexts params) ++ " => " ++
        body.text
  | .matching subject arms =>
      "match ( " ++ subject.text ++ " ) \x7b " ++ Text.join ", " (armTexts arms) ++ " \x7d"
termination_by structural expr => expr

/-- The texts of the arguments of a call; an assignment is enclosed. -/
def argTexts : List Expr → List String
  | [] => []
  | arg :: rest =>
      encloseIf (arg.precedence < Precedence.assign + 1) arg.text :: argTexts rest
termination_by structural args => args

/-- The texts of expressions. -/
def exprTexts : List Expr → List String
  | [] => []
  | expr :: rest => expr.text :: exprTexts rest
termination_by structural exprs => exprs

/-- The texts of array items; an assignment is enclosed. -/
def itemTexts : List ArrayItem → List String
  | [] => []
  | .mk none value :: rest =>
      encloseIf (value.precedence < Precedence.assign + 1) value.text :: itemTexts rest
  | .mk (some key) value :: rest =>
      (key.text ++ " => " ++
        encloseIf (value.precedence < Precedence.assign + 1) value.text) :: itemTexts rest
termination_by structural items => items

/-- The texts of parameters. -/
def paramTexts : List Param → List String
  | [] => []
  | .mk name type none :: rest => (typeText type ++ "$" ++ name) :: paramTexts rest
  | .mk name type (some value) :: rest =>
      (typeText type ++ "$" ++ name ++ " = " ++ value.text) :: paramTexts rest
termination_by structural params => params

/-- The texts of match arms. -/
def armTexts : List MatchArm → List String
  | [] => []
  | .mk [] body :: rest => ("default => " ++ body.text) :: armTexts rest
  | .mk (condition :: conditions) body :: rest =>
      (Text.join ", " (condition.text :: exprTexts conditions) ++ " => " ++ body.text) ::
        armTexts rest
termination_by structural arms => arms

end

/-! ## Statements -/

/-- The lines of a text. -/
def textFragments (text : String) : List Fragment := (Text.lines text).map .line

/-- A block whose header may stand on several lines. -/
def blockFragments (header : String) (body : List Fragment) (close : Option String) :
    List Fragment :=
  match (Text.lines header).reverse with
  | [] => [.block "" body close]
  | last :: above => above.reverse.map .line ++ [.block last body close]

/-- A documentation comment, if there is one. -/
def docFragments (doc : Option Doc) : List Fragment := doc.toList.map .doc

/-- The subject and binding of a loop. -/
def loopHeader (subject : Expr) (key : Option Expr) (value : Expr) : String :=
  let binding := match key with
    | none => value.text
    | some key => key.text ++ " => " ++ value.text
  "foreach ( " ++ subject.text ++ " as " ++ binding ++ " ) \x7b"

/-- The header of a function without modifiers. -/
def functionHeader (name : String) (params : List Param) (returnType : Option String) : String :=
  "function " ++ name ++ callList (paramTexts params) ++ returnText returnType ++ " \x7b"

/-- The modifiers of a method. -/
def modifiers (visibility : Visibility) (isStatic : Bool) : String :=
  if isStatic then visibility.keyword ++ " static " else visibility.keyword ++ " "

/-- The header of a class. -/
def classHeader (name : String) (isFinal isAbstract : Bool) (parent : Option Name) : String :=
  (if isFinal then "final " else "") ++ (if isAbstract then "abstract " else "") ++ "class " ++
    name ++ (match parent with | none => "" | some parent => " extends " ++ parent.text) ++ " \x7b"

/-- The declaration of a constant. -/
def constText (const : ClassConst) : String :=
  const.visibility.keyword ++ " const " ++ const.name ++ " = " ++ const.value.text ++ ";"

/-- The fragments of methods, with a blank line between neighbours and after constants. -/
def separated (afterConsts : Bool) : List (List Fragment) → List Fragment
  | [] => []
  | method :: rest =>
      (if afterConsts then [Fragment.blank] else []) ++ method ++ separated true rest

/-- Whether a statement is a condition. -/
def Stmt.isCond : Stmt → Bool
  | .cond _ _ _ => true
  | _ => false

mutual

/-- The fragments of a statement; a condition starts with the given keyword. -/
def Stmt.fragmentsFrom (keyword : String) : Stmt → List Fragment
  | .expression value => textFragments (value.text ++ ";")
  | .ret none => [.line "return;"]
  | .ret (some value) => textFragments ("return " ++ value.text ++ ";")
  | .cond condition yes none =>
      blockFragments (keyword ++ " " ++ enclose condition.text ++ " \x7b") (stmtFragments yes)
        (some "\x7d")
  | .cond condition yes (some no) =>
      blockFragments (keyword ++ " " ++ enclose condition.text ++ " \x7b") (stmtFragments yes)
        none ++ elseFragments no
  | .foreach subject key value body =>
      blockFragments (loopHeader subject key value) (stmtFragments body) (some "\x7d")
  | .next => [.line "continue;"]
  | .nop [] => [.blank]
  | .nop (comment :: comments) => (comment :: comments).map .line
  | .function ⟨name, _, _, params, returnType, body, doc⟩ =>
      docFragments doc ++
        blockFragments (functionHeader name params returnType) (stmtFragments body) (some "\x7d")
  | .classDecl ⟨name, isFinal, isAbstract, parent, consts, methods, doc⟩ =>
      docFragments doc ++
        [.block (classHeader name isFinal isAbstract parent)
          (consts.flatMap (fun const => textFragments (constText const)) ++
            separated (!consts.isEmpty) (methodFragments methods))
          (some "\x7d")]
termination_by structural stmt => stmt

/-- The fragments of statements. -/
def stmtFragments : List Stmt → List Fragment
  | [] => []
  | stmt :: rest => stmt.fragmentsFrom "if" ++ stmtFragments rest
termination_by structural stmts => stmts

/-- The fragments of an alternative.  A condition on its own continues the chain. -/
def elseFragments : List Stmt → List Fragment
  | [] => [.block "\x7d else \x7b" [] (some "\x7d")]
  | stmt :: rest =>
      if stmt.isCond && rest.isEmpty then stmt.fragmentsFrom "\x7d elseif"
      else
        [.block "\x7d else \x7b" (stmt.fragmentsFrom "if" ++ stmtFragments rest) (some "\x7d")]
termination_by structural stmts => stmts

/-- The fragments of methods. -/
def methodFragments : List (FunctionOf Stmt) → List (List Fragment)
  | [] => []
  | ⟨name, visibility, isStatic, params, returnType, body, doc⟩ :: rest =>
      (docFragments doc ++
        blockFragments (modifiers visibility isStatic ++ functionHeader name params returnType)
          (stmtFragments body) (some "\x7d")) :: methodFragments rest
termination_by structural methods => methods

end

/-- The fragments of a statement. -/
def Stmt.fragments (stmt : Stmt) : List Fragment := stmt.fragmentsFrom "if"

/-- The fragments of a class. -/
def ClassOf.fragments (decl : Class) : List Fragment := (Stmt.classDecl decl).fragments

/-- The fragments of a file. -/
def File.fragments (file : File) : List Fragment :=
  [.line "<?php"] ++ docFragments file.doc ++
    (if file.strictTypes then [.line "declare(strict_types=1);"] else []) ++
    (match file.space with
      | none => []
      | some space => [.blank, .line ("namespace " ++ space.text ++ ";")]) ++
    (if file.uses.isEmpty then []
      else .blank :: file.uses.map fun name => .line ("use " ++ name.text ++ ";")) ++
    (if file.stmts.isEmpty then [] else .blank :: stmtFragments file.stmts)

/-- Generated PHP is indented with tabs. -/
def print (fragments : List Fragment) : String := render .tab fragments

/-- The text of a statement. -/
def Stmt.print (stmt : Stmt) : String := Php.print stmt.fragments

/-- The text of statements. -/
def printStmts (stmts : List Stmt) : String := Php.print (stmtFragments stmts)

/-- The text of a class. -/
def ClassOf.print (decl : Class) : String := Php.print decl.fragments

/-- The text of a file. -/
def File.print (file : File) : String := Php.print file.fragments

/-- The lines a statement prints as. -/
def Stmt.printedLines (stmt : Stmt) : List String := Text.lines stmt.print

end RestPlugin.Php
