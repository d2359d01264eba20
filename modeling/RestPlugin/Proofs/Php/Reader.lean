import RestPlugin.Proofs.Inquiry
import RestPlugin.Proofs.Php.Frame

/-!
# Reading expressions

A reader for the texts of expressions.  It reads what an expression begins with and then, as
long as the text goes on with something that binds strongly enough, makes the expression read
so far the first part of a larger one.  What is to be read asks for its parts to be read, and
the reader answers all that is asked, so its equations hold without a condition on the text
and a text is read by rewriting.
-/

namespace RestPlugin.Php.Reader

/-! ## Words, numbers and quoted texts -/

/-- What is left of a text after a given beginning. -/
def after : List Char → List Char → Option (List Char)
  | [], input => some input
  | _ :: _, [] => none
  | c :: beginning, d :: input => if c = d then after beginning input else none

/-- The word a text begins with. -/
def wordOf (input : List Char) : String := String.ofList (input.takeWhile Text.isWord)

/-- What is left of a text after the word it begins with. -/
def afterWord (input : List Char) : List Char := input.dropWhile Text.isWord

/-- The name a text begins with. -/
def nameOf (input : List Char) : Name :=
  ⟨Text.splitOnChar '\\' (String.ofList (input.takeWhile isNameChar))⟩

/-- What is left of a text after the name it begins with. -/
def afterName (input : List Char) : List Char := input.dropWhile isNameChar

/-- The number a text begins with. -/
def numberOf (input : List Char) : Nat := Nat.ofDigitChars 10 (input.takeWhile Text.isDigit) 0

/-- What is left of a text after the number it begins with. -/
def afterNumber (input : List Char) : List Char := input.dropWhile Text.isDigit

/-- The characters up to the closing quote. -/
def quoted : List Char → Option (List Char × List Char)
  | [] => none
  | '\'' :: rest => some ([], rest)
  | '\\' :: c :: rest => (quoted rest).map fun found => (c :: found.1, found.2)
  | c :: rest => (quoted rest).map fun found => (c :: found.1, found.2)

/-! ## Keywords and suffixes -/

/-- The words that begin an expression of their own. -/
inductive Keyword where
  | array
  | isset
  | arrow
  | staticArrow
  | new
  | matching
deriving DecidableEq, Repr, Inhabited

namespace Keyword

/-- The keyword as it is written. -/
def text : Keyword → String
  | array => "array"
  | isset => "isset"
  | arrow => "fn"
  | staticArrow => "static"
  | new => "new"
  | matching => "match"

/-- All keywords. -/
def all : List Keyword := [array, isset, arrow, staticArrow, new, matching]

end Keyword

/-- The keyword that is written as a given word. -/
def keyword? (word : String) : Option Keyword :=
  Keyword.all.find? fun keyword => keyword.text == word

/-- What makes the expression before it the first part of a larger one. -/
inductive Suffix where
  | append
  | key
  | plainKey
  | member
  | assign
  | short
  | choice
  | instanceOf
  | binary (op : BinaryOp)
deriving DecidableEq, Repr, Inhabited

namespace Suffix

/-- How a suffix begins. -/
def text : Suffix → String
  | append => "[]"
  | key => "[ "
  | plainKey => "["
  | member => "->"
  | assign => " = "
  | short => " ?: "
  | choice => " ? "
  | instanceOf => " instanceof "
  | binary op => " " ++ op.symbol ++ " "

/-- All suffixes; one that begins another comes after it. -/
def all : List Suffix :=
  [append, key, plainKey, member, assign, short, choice, instanceOf] ++ BinaryOp.all.map binary

/-- The binding strength of the larger expression. -/
def strength : Suffix → Nat
  | append | key | plainKey | member => Precedence.atom
  | assign => Precedence.assign
  | short | choice => Precedence.ternary
  | instanceOf => Precedence.instanceOf
  | binary op => op.precedence

/-- The least binding strength of the expression before a suffix. -/
def leftStrength : Suffix → Nat
  | append | key | plainKey | member | assign => Precedence.atom + 1
  | short | choice => Precedence.ternary + 1
  | instanceOf => Precedence.instanceOf + 1
  | binary op => op.leftStrength

end Suffix

/-- The suffix a text begins with, and what is left after its beginning. -/
def suffix? (input : List Char) : Option (Suffix × List Char) :=
  Suffix.all.findSome? fun suffix => (after suffix.text.toList input).map (suffix, ·)

/-- Whether the conditions of a match arm are the word for the default arm. -/
def isDefault : List Expr → Bool
  | [.constant ⟨["default"]⟩] => true
  | _ => false

/-! ## The reader -/

/-- What a reader may be asked for. -/
inductive Phrase where
  | expression (least : Nat)
  | head
  | named (name : Name)
  | headed (keyword : Keyword)
  | climb (least : Nat) (expr : Expr)
  | attach (expr : Expr) (suffix : Suffix)
  | arguments
  | arguments?
  | exprs (least : Nat) (close : List Char)
  | item
  | items
  | rows
  | param
  | defaulted (name : String) (type : Option String)
  | params
  | parameters
  | lambda (isStatic : Bool)
  | arm
  | arms

/-- What is found if a phrase is read. -/
abbrev Phrase.Result : Phrase → Type
  | expression _ | head | named _ | headed _ | climb _ _ | attach _ _ | lambda _ => Expr
  | arguments | exprs _ _ => List Expr
  | arguments? => Option (List Expr)
  | item => ArrayItem
  | items | rows => List ArrayItem
  | param | defaulted _ _ => Param
  | params | parameters => List Param
  | arm => MatchArm
  | arms => List MatchArm

/-- A phrase and what is left of the text. -/
abbrev Answer (question : Phrase × List Char) : Type := question.1.Result × List Char

/-- A computation that asks for phrases. -/
abbrev Reading := Inquiry Answer

/-- Finds something at the beginning of a text, and what is left after it. -/
abbrev Reads (α : Type) := List Char → Reading (α × List Char)

/-- Asks for a phrase. -/
def ask (phrase : Phrase) : Reads phrase.Result := fun input => Inquiry.question (phrase, input)

/-- An expression that binds at least as strongly as asked. -/
def expression (least : Nat) : Reads Expr := fun input => do
  let (expr, rest) ← ask .head input
  ask (.climb least expr) rest

/-- What an expression begins with. -/
def head : Reads Expr
  | '$' :: rest => return (.var (wordOf rest), afterWord rest)
  | '\'' :: rest => do
      let (value, rest) ← quoted rest
      return (.string (String.ofList value), rest)
  | '-' :: rest => return (.int (-numberOf rest), afterNumber rest)
  | '!' :: ' ' :: rest => do
      let (operand, rest) ← ask (.expression Precedence.not) rest
      return (.not operand, rest)
  | '(' :: ' ' :: rest => do
      let (expr, rest) ← ask (.expression 0) rest
      let rest ← after [' ', ')'] rest
      return (expr, rest)
  | '(' :: rest => do
      let kind ← CastKind.all.find? fun kind => kind.keyword == wordOf rest
      let rest ← after [')', ' '] (afterWord rest)
      let (operand, rest) ← ask (.expression Precedence.cast) rest
      return (.cast kind operand, rest)
  | input =>
      if (input.takeWhile Text.isDigit).isEmpty then
        match keyword? (wordOf input) with
        | some keyword => ask (.headed keyword) (afterWord input)
        | none => ask (.named (nameOf input)) (afterName input)
      else return (.int (numberOf input), afterNumber input)

/-- What follows a name. -/
def named (name : Name) : Reads Expr := fun input =>
  match after [':', ':'] input with
  | some rest => do
      let (args, later) ← ask .arguments? (afterWord rest)
      return (args.elim (.classConstant name (wordOf rest)) (.staticCall name (wordOf rest)), later)
  | none => do
      let (args, later) ← ask .arguments? input
      return (args.elim (.constant name) (.call name), later)

/-- What follows a keyword. -/
def headed : Keyword → Reads Expr
  | .array, '(' :: ')' :: rest => return (.array [], rest)
  | .array, '(' :: ' ' :: rest => do
      let (items, rest) ← ask .items rest
      return (.array items, rest)
  | .array, input => do
      let rest ← after ['(', '\n'] input
      let (items, rest) ← ask .rows rest
      return (.array items, rest)
  | .isset, input => do
      let (args, rest) ← ask .arguments input
      return (.isset args, rest)
  | .arrow, input => ask (.lambda false) input
  | .staticArrow, input => do
      let rest ← after [' ', 'f', 'n'] input
      ask (.lambda true) rest
  | .new, input => do
      let rest ← after [' '] input
      let (args, later) ← ask .arguments (afterName rest)
      return (.new (nameOf rest) args, later)
  | .matching, input => do
      let rest ← after [' ', '(', ' '] input
      let (subject, rest) ← ask (.expression 0) rest
      let rest ← after [' ', ')', ' ', '\x7b', ' '] rest
      match rest with
      | ' ' :: rest => do
          let rest ← after ['\x7d'] rest
          return (.matching subject [], rest)
      | _ => do
          let (arms, rest) ← ask .arms rest
          return (.matching subject arms, rest)

/-- What follows an expression as long as it binds as strongly as asked. -/
def climb (least : Nat) (expr : Expr) : Reads Expr := fun input =>
  match suffix? input with
  | none => return (expr, input)
  | some (suffix, rest) =>
      if suffix.strength < least then return (expr, input)
      else do
        let (expr, rest) ← ask (.attach expr suffix) rest
        ask (.climb least expr) rest

/-- What belongs to a suffix. -/
def attach (expr : Expr) : Suffix → Reads Expr
  | .append, input => return (.element expr none, input)
  | .key, input => do
      let (key, rest) ← ask (.expression 0) input
      let rest ← after [' ', ']'] rest
      return (.element expr (some key), rest)
  | .plainKey, input => do
      let (key, rest) ← ask (.expression 0) input
      let rest ← after [']'] rest
      return (.element expr (some key), rest)
  | .member, input => do
      let (args, rest) ← ask .arguments? (afterWord input)
      return (args.elim (.property expr (wordOf input)) (.methodCall expr (wordOf input)), rest)
  | .assign, input => do
      let (value, rest) ← ask (.expression Precedence.assign) input
      return (.assign expr value, rest)
  | .short, input => do
      let (no, rest) ← ask (.expression (Precedence.ternary + 1)) input
      return (.ternary expr none no, rest)
  | .choice, input => do
      let (yes, rest) ← ask (.expression (Precedence.ternary + 1)) input
      let rest ← after [' ', ':', ' '] rest
      let (no, rest) ← ask (.expression (Precedence.ternary + 1)) rest
      return (.ternary expr (some yes) no, rest)
  | .instanceOf, input => return (.instanceOf expr (nameOf input), afterName input)
  | .binary op, input => do
      let (right, rest) ← ask (.expression op.rightStrength) input
      return (.binary op expr right, rest)

/-- The arguments of a call. -/
def arguments : Reads (List Expr)
  | '(' :: ')' :: rest => return ([], rest)
  | input => do
      let rest ← after ['(', ' '] input
      ask (.exprs (Precedence.assign + 1) [' ', ')']) rest

/-- The arguments of a call if there are any. -/
def arguments? : Reads (Option (List Expr))
  | '(' :: rest => do
      let (args, rest) ← ask .arguments ('(' :: rest)
      return (some args, rest)
  | input => return (none, input)

/-- Several of one kind between commas, up to a closing mark. -/
def listed {α : Type} (close : List Char) (one : Reads α) (many : Reads (List α)) :
    Reads (List α) := fun input => do
  let (found, rest) ← one input
  match after [',', ' '] rest with
  | some rest => do
      let (later, rest) ← many rest
      return (found :: later, rest)
  | none => do
      let rest ← after close rest
      return ([found], rest)

/-- An array item. -/
def item : Reads ArrayItem := fun input => do
  let (expr, rest) ← ask (.expression 0) input
  match after [' ', '=', '>', ' '] rest with
  | some rest => do
      let (value, rest) ← ask (.expression 0) rest
      return (.mk (some expr) value, rest)
  | none => return (.mk none expr, rest)

/-- Array items on several lines. -/
def rows : Reads (List ArrayItem) := fun input =>
  match input.dropWhile (· == '\t') with
  | ')' :: rest => return ([], rest)
  | line => do
      let (found, rest) ← ask .item line
      let rest ← after [',', '\n'] rest
      let (later, rest) ← ask .rows rest
      return (found :: later, rest)

/-- A parameter. -/
def param : Reads Param
  | '$' :: rest => ask (.defaulted (wordOf rest) none) (afterWord rest)
  | input => do
      let rest ← after [' ', '$'] (afterWord input)
      ask (.defaulted (wordOf rest) (some (wordOf input))) (afterWord rest)

/-- The default of a parameter if there is one. -/
def defaulted (name : String) (type : Option String) : Reads Param := fun input =>
  match after [' ', '=', ' '] input with
  | some rest => do
      let (value, rest) ← ask (.expression 0) rest
      return (.mk name type (some value), rest)
  | none => return (.mk name type none, input)

/-- The parameters of a function. -/
def parameters : Reads (List Param)
  | '(' :: ')' :: rest => return ([], rest)
  | input => do
      let rest ← after ['(', ' '] input
      ask .params rest

/-- What follows the keyword of an arrow function. -/
def lambda (isStatic : Bool) : Reads Expr := fun input => do
  let (params, rest) ← ask .parameters input
  let rest ← after [' ', '=', '>', ' '] rest
  let (body, rest) ← ask (.expression 0) rest
  return (.arrow isStatic params body, rest)

/-- A match arm. -/
def arm : Reads MatchArm := fun input => do
  let (conditions, rest) ← ask (.exprs 0 [' ', '=', '>', ' ']) input
  let (body, rest) ← ask (.expression 0) rest
  return (.mk (if isDefault conditions then [] else conditions) body, rest)

/-- How a phrase is read. -/
@[simp]
def Phrase.reading : (phrase : Phrase) → Reads phrase.Result
  | expression least => Reader.expression least
  | head => Reader.head
  | named name => Reader.named name
  | headed keyword => Reader.headed keyword
  | climb least before => Reader.climb least before
  | attach before suffix => Reader.attach before suffix
  | arguments => Reader.arguments
  | arguments? => Reader.arguments?
  | exprs least close => listed close (ask (.expression least)) (ask (.exprs least close))
  | item => Reader.item
  | items => listed [' ', ')'] (ask .item) (ask .items)
  | rows => Reader.rows
  | param => Reader.param
  | defaulted name type => Reader.defaulted name type
  | params => listed [' ', ')'] (ask .param) (ask .params)
  | parameters => Reader.parameters
  | lambda isStatic => Reader.lambda isStatic
  | arm => Reader.arm
  | arms => listed [' ', '\x7d'] (ask .arm) (ask .arms)

/-! ## Results -/

/-- What is found if all that is asked for is read. -/
noncomputable def result {α : Type} (reading : Reading α) : Option α :=
  reading.run (Inquiry.answer fun question => question.1.reading question.2)

section Result

variable {α β : Type}

@[simp]
theorem result_pure (found : α) : result (pure found) = some found := rfl

@[simp]
theorem result_liftM (found : Option α) : result (liftM found) = found := rfl

@[simp]
theorem result_bind (first : Reading α) (next : α → Reading β) :
    result (first >>= next) = (result first).bind fun found => result (next found) :=
  Inquiry.run_bind first next

/-- A phrase that is asked for is read. -/
@[simp]
theorem result_ask (phrase : Phrase) (input : List Char) :
    @result (no_index (phrase.Result × List Char)) (ask phrase input) =
      result (phrase.reading input) :=
  (Inquiry.run_question _).trans (Inquiry.answer_eq _)

end Result

end RestPlugin.Php.Reader
