import RestPlugin.Json.Basic
import RestPlugin.Php.Syntax

/-!
# The JSON form of syntax trees

Every node carries its type under `nodeType`, next to its parts.
-/

namespace RestPlugin.Php

/-- An object with a node type. -/
def node (type : String) (fields : List (String × Json)) : Json :=
  .obj (("nodeType", .str type) :: fields)

/-- The JSON form of a name. -/
def Name.toJson (name : Name) : Json := node "Name" [("parts", .strings name.parts)]

/-- The JSON form of a documentation comment. -/
def docJson (doc : Option Doc) : Json :=
  .ofOption (fun lines => node "Comment_Doc" [("lines", .strings lines)]) doc

mutual

/-- The JSON form of an expression. -/
def Expr.toJson : Expr → Json
  | .var name => node "Expr_Variable" [("name", .str name)]
  | .string value => node "Scalar_String" [("value", .str value)]
  | .int value => node "Scalar_Int" [("value", .int value)]
  | .constant name => node "Expr_ConstFetch" [("name", name.toJson)]
  | .classConstant className name =>
      node "Expr_ClassConstFetch" [("class", className.toJson), ("name", .str name)]
  | .array items => node "Expr_Array" [("items", .arr (itemsJson items))]
  | .element base none =>
      node "Expr_ArrayDimFetch" [("var", base.toJson), ("dim", .null)]
  | .element base (some key) =>
      node "Expr_ArrayDimFetch" [("var", base.toJson), ("dim", key.toJson)]
  | .property base name =>
      node "Expr_PropertyFetch" [("var", base.toJson), ("name", .str name)]
  | .call name args =>
      node "Expr_FuncCall" [("name", name.toJson), ("args", .arr (exprsJson args))]
  | .methodCall base name args =>
      node "Expr_MethodCall"
        [("var", base.toJson), ("name", .str name), ("args", .arr (exprsJson args))]
  | .staticCall className name args =>
      node "Expr_StaticCall"
        [("class", className.toJson), ("name", .str name), ("args", .arr (exprsJson args))]
  | .new className args =>
      node "Expr_New" [("class", className.toJson), ("args", .arr (exprsJson args))]
  | .assign target value =>
      node "Expr_Assign" [("var", target.toJson), ("expr", value.toJson)]
  | .binary op left right =>
      node "Expr_BinaryOp"
        [("op", .str op.nodeName), ("left", left.toJson), ("right", right.toJson)]
  | .not operand => node "Expr_BooleanNot" [("expr", operand.toJson)]
  | .instanceOf operand className =>
      node "Expr_Instanceof" [("expr", operand.toJson), ("class", className.toJson)]
  | .cast kind operand =>
      node "Expr_Cast" [("kind", .str kind.keyword), ("expr", operand.toJson)]
  | .ternary condition none no =>
      node "Expr_Ternary" [("cond", condition.toJson), ("if", .null), ("else", no.toJson)]
  | .ternary condition (some yes) no =>
      node "Expr_Ternary" [("cond", condition.toJson), ("if", yes.toJson), ("else", no.toJson)]
  | .isset args => node "Expr_Isset" [("vars", .arr (exprsJson args))]
  | .arrow isStatic params body =>
      node "Expr_ArrowFunction"
        [("static", .bool isStatic), ("params", .arr (paramsJson params)), ("expr", body.toJson)]
  | .matching subject arms =>
      node "Expr_Match" [("cond", subject.toJson), ("arms", .arr (armsJson arms))]
termination_by structural expr => expr

/-- The JSON forms of expressions. -/
def exprsJson : List Expr → List Json
  | [] => []
  | expr :: rest => expr.toJson :: exprsJson rest
termination_by structural exprs => exprs

/-- The JSON forms of array items. -/
def itemsJson : List ArrayItem → List Json
  | [] => []
  | .mk none value :: rest =>
      node "ArrayItem" [("key", .null), ("value", value.toJson)] :: itemsJson rest
  | .mk (some key) value :: rest =>
      node "ArrayItem" [("key", key.toJson), ("value", value.toJson)] :: itemsJson rest
termination_by structural items => items

/-- The JSON forms of parameters. -/
def paramsJson : List Param → List Json
  | [] => []
  | .mk name type none :: rest =>
      node "Param" [("name", .str name), ("type", .ofOption .str type), ("default", .null)] ::
        paramsJson rest
  | .mk name type (some value) :: rest =>
      node "Param"
        [("name", .str name), ("type", .ofOption .str type), ("default", value.toJson)] ::
        paramsJson rest
termination_by structural params => params

/-- The JSON forms of match arms. -/
def armsJson : List MatchArm → List Json
  | [] => []
  | .mk conditions body :: rest =>
      node "MatchArm" [("conds", .arr (exprsJson conditions)), ("body", body.toJson)] ::
        armsJson rest
termination_by structural arms => arms

end

/-- The JSON form of a constant of a class. -/
def ClassConst.toJson (const : ClassConst) : Json :=
  node "Stmt_ClassConst"
    [("name", .str const.name), ("visibility", .str const.visibility.keyword),
     ("value", const.value.toJson)]

/-- The fields of a class, given those of its methods. -/
def classFields (name : String) (isFinal isAbstract : Bool) (parent : Option Name)
    (consts : List ClassConst) (methods : List Json) (doc : Option Doc) :
    List (String × Json) :=
  [("name", .str name), ("final", .bool isFinal), ("abstract", .bool isAbstract),
   ("extends", .ofOption Name.toJson parent), ("consts", .arr (consts.map ClassConst.toJson)),
   ("methods", .arr methods), ("doc", docJson doc)]

mutual

/-- The JSON form of a statement. -/
def Stmt.toJson : Stmt → Json
  | .expression value => node "Stmt_Expression" [("expr", value.toJson)]
  | .ret value => node "Stmt_Return" [("expr", .ofOption Expr.toJson value)]
  | .cond condition yes none =>
      node "Stmt_If"
        [("cond", condition.toJson), ("stmts", .arr (stmtsJson yes)), ("else", .null)]
  | .cond condition yes (some no) =>
      node "Stmt_If"
        [("cond", condition.toJson), ("stmts", .arr (stmtsJson yes)),
         ("else", .arr (stmtsJson no))]
  | .foreach subject key value body =>
      node "Stmt_Foreach"
        [("expr", subject.toJson), ("key_var", .ofOption Expr.toJson key),
         ("value_var", value.toJson), ("stmts", .arr (stmtsJson body))]
  | .next => node "Stmt_Continue" []
  | .nop comments => node "Stmt_Nop" [("comments", .strings comments)]
  | .function ⟨name, _, _, params, returnType, body, doc⟩ =>
      node "Stmt_Function"
        [("name", .str name), ("params", .arr (paramsJson params)),
         ("return_type", .ofOption .str returnType), ("stmts", .arr (stmtsJson body)),
         ("doc", docJson doc)]
  | .classDecl ⟨name, isFinal, isAbstract, parent, consts, methods, doc⟩ =>
      node "Stmt_Class"
        (classFields name isFinal isAbstract parent consts (methodsJson methods) doc)
termination_by structural stmt => stmt

/-- The JSON forms of statements. -/
def stmtsJson : List Stmt → List Json
  | [] => []
  | stmt :: rest => stmt.toJson :: stmtsJson rest
termination_by structural stmts => stmts

/-- The JSON forms of methods. -/
def methodsJson : List (FunctionOf Stmt) → List Json
  | [] => []
  | ⟨name, visibility, isStatic, params, returnType, body, doc⟩ :: rest =>
      node "Stmt_ClassMethod"
        [("name", .str name), ("visibility", .str visibility.keyword), ("static", .bool isStatic),
         ("params", .arr (paramsJson params)), ("return_type", .ofOption .str returnType),
         ("stmts", .arr (stmtsJson body)), ("doc", docJson doc)] :: methodsJson rest
termination_by structural methods => methods

end

/-- The JSON form of a class on its own, without a node type. -/
def ClassOf.toJson (decl : Class) : Json :=
  .obj (classFields decl.name decl.isFinal decl.isAbstract decl.parent decl.consts
    (methodsJson decl.methods) decl.doc)

/-- The JSON form of a file. -/
def File.toJson (file : File) : Json :=
  .obj [("strict_types", .bool file.strictTypes), ("doc", docJson file.doc),
    ("namespace", .ofOption Name.toJson file.space), ("uses", .arr (file.uses.map Name.toJson)),
    ("stmts", .arr (stmtsJson file.stmts))]

end RestPlugin.Php
