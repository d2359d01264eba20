import RestPlugin.Php.Build
import RestPlugin.Proofs.Except
import RestPlugin.Proofs.Path

/-!
# Regular trees

The checked constructors accept identifiers only and assign only to what can be assigned to.  A tree
built with them is regular when in addition no identifier is a word that begins another kind of
expression, the types of parameters are identifiers and texts have no line break.
-/

namespace RestPlugin.Php

/-- The words that begin another kind of expression than a name. -/
def reservedWords : List String :=
  ["array", "isset", "fn", "match", "new", "static", "default", "instanceof"]

/-! ## Parts of trees -/

/-- The expressions of an array item. -/
def ArrayItem.parts : ArrayItem → List Expr
  | .mk key value => value :: key.toList

/-- The expressions of a match arm. -/
def MatchArm.parts : MatchArm → List Expr
  | .mk conditions body => body :: conditions

/-- The expressions of a parameter. -/
def Param.parts : Param → List Expr
  | .mk _ _ default => default.toList

/-- The type of a parameter. -/
def Param.type? : Param → Option String
  | .mk _ type _ => type

namespace Expr

/-- The expressions directly below an expression. -/
def parts : Expr → List Expr
  | .var _ | .string _ | .int _ | .constant _ | .classConstant _ _ => []
  | .array items => items.flatMap ArrayItem.parts
  | .element base key => base :: key.toList
  | .property base _ => [base]
  | .call _ args | .staticCall _ _ args | .new _ args | .isset args => args
  | .methodCall base _ args => base :: args
  | .assign target value => [target, value]
  | .binary _ left right => [left, right]
  | .not operand | .instanceOf operand _ | .cast _ operand => [operand]
  | .ternary condition yes no => condition :: no :: yes.toList
  | .arrow _ params body => body :: params.flatMap Param.parts
  | .matching subject arms => subject :: arms.flatMap MatchArm.parts

/-- The identifiers of an expression itself. -/
def words : Expr → List String
  | .var name | .property _ name | .methodCall _ name _ => [name]
  | .constant name | .call name _ | .new name _ | .instanceOf _ name => name.parts
  | .classConstant className name | .staticCall className name _ => name :: className.parts
  | .arrow _ params _ => params.map Param.name
  | _ => []

/-- A property of an expression and of all expressions below it. -/
inductive Everywhere (p : Expr → Prop) : Expr → Prop
  | node {expr : Expr} (here : p expr) (below : ∀ part ∈ expr.parts, Everywhere p part) :
      Everywhere p expr

/-! ## Built trees -/

/-- The trees that the checked constructors build.  A ternary may also lack its middle part, and an
arrow function need not be static. -/
inductive Built : Expr → Prop
  | ofVariable {value : String} {expr : Expr} (made : Expr.ofVariable value = .ok expr) :
      Built expr
  | string (value : String) : Built (.string value)
  | int (value : Int) : Built (.int value)
  | constant {word : String} (identifier : isIdentifier word = true) : Built (.constant ⟨[word]⟩)
  | classConst {className constant : String} {expr : Expr}
      (made : Expr.classConst className constant = .ok expr) : Built expr
  | array {items : List ArrayItem} (parts : ∀ item ∈ items, ∀ part ∈ item.parts, Built part) :
      Built (.array items)
  | dim {base key : Expr} (baseBuilt : Built base) (keyBuilt : Built key) : Built (base.dim key)
  | append {base : Expr} (baseBuilt : Built base) : Built base.append
  | prop {base : Expr} {name : String} {expr : Expr} (baseBuilt : Built base)
      (made : base.prop name = .ok expr) : Built expr
  | funcCall {function : String} {args : List Expr} {expr : Expr}
      (argsBuilt : ∀ arg ∈ args, Built arg) (made : Expr.funcCall function args = .ok expr) :
      Built expr
  | invoke {base : Expr} {method : String} {args : List Expr} {expr : Expr} (baseBuilt : Built base)
      (argsBuilt : ∀ arg ∈ args, Built arg) (made : base.invoke method args = .ok expr) :
      Built expr
  | invokeStatic {className method : String} {args : List Expr} {expr : Expr}
      (argsBuilt : ∀ arg ∈ args, Built arg)
      (made : Expr.invokeStatic className method args = .ok expr) : Built expr
  | create {className : String} {args : List Expr} {expr : Expr}
      (argsBuilt : ∀ arg ∈ args, Built arg) (made : Expr.create className args = .ok expr) :
      Built expr
  | assignTo {target value expr : Expr} (targetBuilt : Built target) (valueBuilt : Built value)
      (made : target.assignTo value = .ok expr) : Built expr
  | binary (op : BinaryOp) {left right : Expr} (leftBuilt : Built left) (rightBuilt : Built right) :
      Built (.binary op left right)
  | not {operand : Expr} (operandBuilt : Built operand) : Built (.not operand)
  | isInstance {operand : Expr} {className : String} {expr : Expr} (operandBuilt : Built operand)
      (made : operand.isInstance className = .ok expr) : Built expr
  | cast (kind : CastKind) {operand : Expr} (operandBuilt : Built operand) :
      Built (.cast kind operand)
  | ternary {condition no : Expr} {yes : Option Expr} (conditionBuilt : Built condition)
      (yesBuilt : ∀ expr ∈ yes, Built expr) (noBuilt : Built no) :
      Built (.ternary condition yes no)
  | isset {args : List Expr} (argsBuilt : ∀ arg ∈ args, Built arg) : Built (.isset args)
  | arrow (isStatic : Bool) {params : List Param} {body : Expr}
      (named : ∀ param ∈ params, ∃ value, (Param.of value).map Param.name = .ok param.name)
      (defaults : ∀ param ∈ params, ∀ part ∈ param.parts, Built part) (bodyBuilt : Built body) :
      Built (.arrow isStatic params body)
  | matching {subject : Expr} {arms : List MatchArm} (subjectBuilt : Built subject)
      (parts : ∀ arm ∈ arms, ∀ part ∈ arm.parts, Built part) : Built (.matching subject arms)

/-! ## Regular trees -/

/-- What the shape of an expression asks for besides identifiers. -/
def IsShaped : Expr → Prop
  | .constant name => name.parts.length = 1
  | .classConstant name _ | .call name _ | .staticCall name _ _ | .new name _
  | .instanceOf _ name => name.parts ≠ []
  | .assign target _ => target.isAssignable = true
  | _ => True

/-- The name of a well-shaped constant has a part. -/
theorem IsShaped.parts_ne_nil {name : Name} (shaped : (Expr.constant name).IsShaped) :
    name.parts ≠ [] := by
  intro isNil
  rw [IsShaped, isNil] at shaped
  cases shaped

/-- What the checked constructors make sure of. -/
structure IsChecked (expr : Expr) : Prop where
  words : ∀ word ∈ expr.words, isIdentifier word = true
  shaped : expr.IsShaped

/-- Whether the types of parameters are identifiers and a text has no line break. -/
def IsSimple : Expr → Prop
  | .string value => '\n' ∉ value.toList ∧ '\r' ∉ value.toList
  | .arrow _ params _ =>
      ∀ param ∈ params, ∀ type ∈ param.type?, isIdentifier type = true
  | _ => True

/-- What the checked constructors leave open. -/
structure IsPlain (expr : Expr) : Prop where
  words : ∀ word ∈ expr.words, word ∉ reservedWords
  simple : expr.IsSimple

/-- A tree that is checked and plain everywhere. -/
def Regular (expr : Expr) : Prop := expr.Everywhere fun part => part.IsChecked ∧ part.IsPlain

end Expr

/-! ## What the constructors check -/

/-- A checked word is the given value, and an identifier. -/
theorem eq_of_identifier_eq_ok {role : Role} {value word : String}
    (checked : identifier role value = .ok word) : word = value ∧ isIdentifier word = true := by
  rw [identifier] at checked
  split at checked
  · cases checked
  · split at checked
    · cases checked
      exact ⟨rfl, ‹_›⟩
    · cases checked

/-- The checked parts of a name are the given values, all of them identifiers. -/
theorem eq_of_nameParts_eq_ok {values words : List String}
    (checked : nameParts values = .ok words) :
    words = values ∧ ∀ word ∈ words, isIdentifier word = true := by
  induction values generalizing words with
  | nil =>
      cases checked
      exact ⟨rfl, by simp⟩
  | cons value values ih =>
      simp only [nameParts, bind_eq_ok_iff] at checked
      obtain ⟨word, headEq, later, laterEq, checked⟩ := checked
      cases checked
      obtain ⟨rfl, isWord⟩ := eq_of_identifier_eq_ok headEq
      obtain ⟨rfl, areWords⟩ := ih laterEq
      exact ⟨rfl, List.forall_mem_cons.mpr ⟨isWord, areWords⟩⟩

/-- A checked name has at least one part, and its parts are identifiers. -/
theorem parts_of_name_eq_ok {value : String} {name : Name} (checked : Name.of value = .ok name) :
    name.parts ≠ [] ∧ ∀ part ∈ name.parts, isIdentifier part = true := by
  simp only [Name.of] at checked
  split at checked
  · exact absurd checked (by simp)
  · rw [map_eq_ok_iff] at checked
    obtain ⟨parts, partsEq, nameEq⟩ := checked
    obtain ⟨split, identifiers⟩ := eq_of_nameParts_eq_ok partsEq
    rw [← nameEq]
    refine ⟨?_, identifiers⟩
    change parts ≠ []
    rw [split]
    exact Text.splitOnChar_ne_nil _ _

namespace Expr

/-- An expression that the constructors make is checked everywhere. -/
theorem Built.isChecked {expr : Expr} (built : expr.Built) : expr.Everywhere IsChecked := by
  induction built with
  | ofVariable made =>
      obtain ⟨name, nameEq, rfl⟩ := map_eq_ok_iff.mp made
      obtain ⟨-, identifier⟩ := eq_of_identifier_eq_ok nameEq
      exact .node ⟨by simpa [words] using identifier, trivial⟩ (by simp [parts])
  | string value => exact .node ⟨by simp [words], trivial⟩ (by simp [parts])
  | int value => exact .node ⟨by simp [words], trivial⟩ (by simp [parts])
  | constant identifier =>
      exact .node ⟨by simpa [words] using identifier, rfl⟩ (by simp [parts])
  | classConst made =>
      simp only [Expr.classConst, bind_eq_ok_iff] at made
      obtain ⟨className, classEq, name, nameEq, made⟩ := made
      cases made
      obtain ⟨nonempty, areIdentifiers⟩ := parts_of_name_eq_ok classEq
      obtain ⟨-, identifier⟩ := eq_of_identifier_eq_ok nameEq
      exact .node ⟨List.forall_mem_cons.mpr ⟨identifier, areIdentifiers⟩, nonempty⟩
        (by simp [parts])
  | array _ ih =>
      refine .node ⟨by simp [words], trivial⟩ ?_
      simpa [parts, List.mem_flatMap] using fun part item itemMem => ih item itemMem part
  | dim _ _ baseIh keyIh =>
      exact .node ⟨by simp [Expr.dim, words], trivial⟩ (by simp [Expr.dim, parts, baseIh, keyIh])
  | append _ baseIh =>
      exact .node ⟨by simp [Expr.append, words], trivial⟩ (by simp [Expr.append, parts, baseIh])
  | prop _ made baseIh =>
      obtain ⟨name, nameEq, rfl⟩ := map_eq_ok_iff.mp made
      obtain ⟨-, identifier⟩ := eq_of_identifier_eq_ok nameEq
      exact .node ⟨by simpa [words] using identifier, trivial⟩ (by simp [parts, baseIh])
  | funcCall _ made argsIh =>
      obtain ⟨name, nameEq, rfl⟩ := map_eq_ok_iff.mp made
      obtain ⟨nonempty, areIdentifiers⟩ := parts_of_name_eq_ok nameEq
      exact .node ⟨areIdentifiers, nonempty⟩ argsIh
  | invoke _ _ made baseIh argsIh =>
      obtain ⟨name, nameEq, rfl⟩ := map_eq_ok_iff.mp made
      obtain ⟨-, identifier⟩ := eq_of_identifier_eq_ok nameEq
      exact .node ⟨by simpa [words] using identifier, trivial⟩
        (List.forall_mem_cons.mpr ⟨baseIh, argsIh⟩)
  | invokeStatic _ made argsIh =>
      simp only [Expr.invokeStatic, bind_eq_ok_iff] at made
      obtain ⟨className, classEq, name, nameEq, made⟩ := made
      cases made
      obtain ⟨nonempty, areIdentifiers⟩ := parts_of_name_eq_ok classEq
      obtain ⟨-, identifier⟩ := eq_of_identifier_eq_ok nameEq
      exact .node ⟨List.forall_mem_cons.mpr ⟨identifier, areIdentifiers⟩, nonempty⟩ argsIh
  | create _ made argsIh =>
      obtain ⟨name, nameEq, rfl⟩ := map_eq_ok_iff.mp made
      obtain ⟨nonempty, areIdentifiers⟩ := parts_of_name_eq_ok nameEq
      exact .node ⟨areIdentifiers, nonempty⟩ argsIh
  | assignTo _ _ made targetIh valueIh =>
      rw [Expr.assignTo] at made
      split at made
      · cases made
        exact .node ⟨by simp [words], ‹_›⟩ (by simp [parts, targetIh, valueIh])
      · cases made
  | binary op _ _ leftIh rightIh =>
      exact .node ⟨by simp [words], trivial⟩ (by simp [parts, leftIh, rightIh])
  | not _ operandIh => exact .node ⟨by simp [words], trivial⟩ (by simp [parts, operandIh])
  | isInstance _ made operandIh =>
      obtain ⟨name, nameEq, rfl⟩ := map_eq_ok_iff.mp made
      obtain ⟨nonempty, areIdentifiers⟩ := parts_of_name_eq_ok nameEq
      exact .node ⟨areIdentifiers, nonempty⟩ (by simp [parts, operandIh])
  | cast kind _ operandIh => exact .node ⟨by simp [words], trivial⟩ (by simp [parts, operandIh])
  | ternary _ _ _ conditionIh yesIh noIh =>
      refine .node ⟨by simp [words], trivial⟩ ?_
      simpa [parts, conditionIh, noIh] using yesIh
  | isset _ argsIh => exact .node ⟨by simp [words], trivial⟩ argsIh
  | arrow isStatic named _ _ defaultsIh bodyIh =>
      refine .node ⟨List.forall_mem_map.mpr fun param paramMem => ?_, trivial⟩ ?_
      · obtain ⟨value, nameEq⟩ := named param paramMem
        obtain ⟨made, madeEq, made_eq⟩ := map_eq_ok_iff.mp nameEq
        obtain ⟨name, checked, rfl⟩ := map_eq_ok_iff.mp madeEq
        rw [← made_eq]
        exact (eq_of_identifier_eq_ok checked).2
      · simpa [parts, bodyIh, List.mem_flatMap] using
          fun part param paramMem => defaultsIh param paramMem part
  | matching _ _ subjectIh partsIh =>
      refine .node ⟨by simp [words], trivial⟩ ?_
      simpa [parts, subjectIh, List.mem_flatMap] using
        fun part arm armMem => partsIh arm armMem part

/-- Two properties that hold everywhere hold together everywhere. -/
theorem Everywhere.and {p q : Expr → Prop} {expr : Expr} (first : expr.Everywhere p)
    (second : expr.Everywhere q) : expr.Everywhere fun part => p part ∧ q part := by
  induction first with
  | node here below ih =>
      obtain ⟨hereToo, belowToo⟩ := second
      exact .node ⟨here, hereToo⟩ fun part partMem => ih part partMem (belowToo part partMem)

/-- A built expression without reserved words is regular. -/
theorem Built.regular {expr : Expr} (built : expr.Built) (plain : expr.Everywhere IsPlain) :
    expr.Regular :=
  built.isChecked.and plain

end Expr

end RestPlugin.Php
