import RestPlugin.Proofs.Php.Layout
import RestPlugin.Proofs.Php.Regular
import RestPlugin.Proofs.Text.Naming

/-!
# Names that pass the checks

The checked constructors refuse a name only because of its spelling.  A text of letters and digits
is an identifier unless it begins with a digit, and whatever such a text is put behind an
identifier gives an identifier again.
-/

namespace RestPlugin

namespace Text

theorem trimBy_of_forall {p : Char → Bool} {l : List Char} (none : ∀ c ∈ l, p c = false) :
    trimBy p l = l := by
  have kept {chars : List Char} (none : ∀ c ∈ chars, p c = false) : chars.dropWhile p = chars := by
    cases chars with
    | nil => rfl
    | cons c rest => rw [List.dropWhile_cons_of_neg (by simp [none c List.mem_cons_self])]
  rw [trimBy, kept none, kept (by simpa using none), List.reverse_reverse]

theorem join_concat (separator : String) {parts : List String} (nonempty : parts ≠ [])
    (last : String) :
    join separator (parts ++ [last]) = join separator parts ++ separator ++ last := by
  induction parts with
  | nil => exact absurd rfl nonempty
  | cons part parts ih =>
      by_cases isNil : parts = []
      · subst isNil
        rfl
      · rw [List.cons_append, join_cons_of_ne_nil _ _ (by simp), ih isNil,
          join_cons_of_ne_nil _ _ isNil]
        simp only [String.append_assoc]

end Text

namespace Php

open Text

/-! ## Identifiers -/

/-- An identifier stays one when word characters are added. -/
theorem isIdentifier_append {before after : String} (identifier : isIdentifier before = true)
    (word : ∀ c ∈ after.toList, isWord c = true) : isIdentifier (before ++ after) = true := by
  rw [isIdentifier] at identifier ⊢
  rw [String.toList_append]
  split at identifier
  · cases identifier
  · rename_i c rest charsEq
    rw [charsEq, List.cons_append]
    simp only [Bool.and_eq_true, List.all_eq_true, List.all_append] at identifier ⊢
    exact ⟨identifier.1, identifier.2, word⟩

/-- An identifier with more at its end is one exactly if the addition has word characters only. -/
theorem isIdentifier_append_iff {before after : String} (start : isIdentifier before = true) :
    isIdentifier (before ++ after) = true ↔ ∀ c ∈ after.toList, isWord c = true := by
  refine ⟨fun whole => ?_, isIdentifier_append start⟩
  rw [isIdentifier] at start whole
  split at start
  · cases start
  · rename_i c rest charsEq
    rw [String.toList_append, charsEq, List.cons_append] at whole
    simp only [Bool.and_eq_true, List.all_append, List.all_eq_true] at whole
    exact whole.2.2

theorem isWord_of_isAlnum {c : Char} (alnum : isAlnum c = true) : isWord c = true := by
  rw [isWord, alnum, Bool.true_or]

/-- An alphanumeric word is an identifier exactly if it does not begin with a digit. -/
theorem isIdentifier_iff {word : String} (alphanumeric : Alphanumeric word) :
    isIdentifier word = true ↔ startsWithDigit word = false := by
  obtain ⟨nonempty, alnum⟩ := alphanumeric
  obtain ⟨c, rest, charsEq⟩ := List.exists_cons_of_ne_nil nonempty
  rw [charsEq, List.forall_mem_cons] at alnum
  have later : rest.all isWord = true :=
    List.all_eq_true.mpr fun d member => isWord_of_isAlnum (alnum.2 d member)
  rw [isIdentifier, startsWithDigit, charsEq]
  simp only [later, Bool.and_true, List.head?_cons, Option.any_some, isIdentifierStart]
  exact forall_isAlnum (p := fun c => (c == '_' || isLetter c) = true ↔ isDigit c = false)
    (by decide +kernel) alnum.1

/-- A valid identifier is accepted in every role. -/
theorem identifier_eq_ok {value : String} (checked : isIdentifier value = true) (role : Role) :
    identifier role value = .ok value := by
  have nonempty : (value == "") = false := by
    rw [beq_eq_false_iff_ne]
    rintro rfl
    cases checked
  rw [identifier, nonempty, checked]
  rfl

theorem stripDollar_of_isIdentifier {value : String} (checked : isIdentifier value = true) :
    stripDollar value = value := by
  rw [stripDollar]
  split
  · rename_i rest charsEq
    rw [isIdentifier, charsEq] at checked
    cases checked
  · rfl

/-! ## Checked constructors -/

section Constructors

variable {value : String} (checked : isIdentifier value = true)
include checked

/-- A variable with a valid name is made. -/
theorem ofVariable_eq_ok : Expr.ofVariable value = .ok (.var value) := by
  rw [Expr.ofVariable, stripDollar_of_isIdentifier checked, identifier_eq_ok checked]
  rfl

/-- A typed parameter with a valid name is made. -/
theorem typed_eq_ok (type : String) :
    Param.typed type value = .ok (.mk value (some type) none) := by
  rw [Param.typed, stripDollar_of_isIdentifier checked, identifier_eq_ok checked]
  rfl

/-- A call of an own method with a valid name is made. -/
theorem thisCall_eq_ok (args : List Expr) :
    Expr.thisCall value args = .ok (.methodCall .this value args) := by
  rw [Expr.thisCall, Expr.invoke, identifier_eq_ok checked]
  rfl

/-- A method with a valid name is made. -/
theorem method_eq_ok : Method.of value = .ok { name := value } := by
  rw [Method.of, identifier_eq_ok checked]
  rfl

end Constructors

theorem eq_of_thisCall_eq_ok {value : String} {args : List Expr} {expr : Expr}
    (made : Expr.thisCall value args = .ok expr) :
    expr = .methodCall .this value args ∧ isIdentifier value = true := by
  obtain ⟨name, nameEq, rfl⟩ := map_eq_ok_iff.mp made
  obtain ⟨rfl, checked⟩ := eq_of_identifier_eq_ok nameEq
  exact ⟨rfl, checked⟩

/-! ## Names -/

/-- The parts of a name are accepted exactly if each of them is an identifier. -/
theorem succeeds_nameParts_iff {values : List String} :
    Succeeds (nameParts values) ↔ ∀ value ∈ values, isIdentifier value = true := by
  constructor
  · rintro ⟨words, checked⟩
    obtain ⟨rfl, identifiers⟩ := eq_of_nameParts_eq_ok checked
    exact identifiers
  · intro identifiers
    induction values with
    | nil => exact succeeds_ok []
    | cons value values ih =>
        rw [List.forall_mem_cons] at identifiers
        rw [nameParts, identifier_eq_ok identifiers.1, ok_bind]
        exact (ih identifiers.2).bind fun _ => succeeds_ok _

theorem slash_not_mem_alphanumeric {word : String} (alphanumeric : Alphanumeric word) :
    '\\' ∉ word.toList :=
  fun slash => absurd (alphanumeric.alnum _ slash) (by decide)

/-- A name is cut at its separators into the parts that it was joined from. -/
theorem name_of_join {parts : List String} (nonempty : parts ≠ [])
    (alphanumeric : ∀ part ∈ parts, Alphanumeric part) :
    Name.of (join "\\" parts) = (nameParts parts).map (⟨·⟩) := by
  have blanks : ∀ c ∈ (join "\\" parts).toList, isBlank c = false := by
    intro c member
    rcases mem_join member with between | ⟨part, partMem, inPart⟩
    · rw [List.mem_singleton.mp between]
      decide
    · exact isBlank_of_isAlnum ((alphanumeric part partMem).alnum c inPart)
  obtain ⟨c, rest, charsEq, alnum⟩ : ∃ c rest, (join "\\" parts).toList = c :: rest ∧
      isAlnum c = true := by
    obtain ⟨part, later, rfl⟩ := List.exists_cons_of_ne_nil nonempty
    have first := alphanumeric part List.mem_cons_self
    obtain ⟨c, rest, charsEq⟩ := List.exists_cons_of_ne_nil first.nonempty
    have alnum := first.alnum c (charsEq ▸ List.mem_cons_self)
    by_cases isNil : later = []
    · subst isNil
      exact ⟨c, rest, charsEq, alnum⟩
    · rw [join_cons_of_ne_nil _ _ isNil]
      exact ⟨c, rest ++ ("\\" ++ join "\\" later).toList, by simp [charsEq], alnum⟩
  have notSlash : (c == '\\') = false := by
    rw [beq_eq_false_iff_ne]
    rintro rfl
    exact absurd alnum (by decide)
  have kept : (trimBy isBlank (join "\\" parts).toList).dropWhile (· == '\\') =
      (join "\\" parts).toList := by
    rw [trimBy_of_forall blanks, charsEq, List.dropWhile_cons_of_neg (by simp [notSlash])]
  have filled : (join "\\" parts).toList.isEmpty = false := by rw [charsEq]; rfl
  have split : splitOnChar '\\' (join "\\" parts) = parts :=
    splitOnChar_join nonempty fun part member =>
      slash_not_mem_alphanumeric (alphanumeric part member)
  simp only [Name.of, kept, filled, String.ofList_toList, split]
  rfl

/-- A name that is made from joined parts has these parts. -/
theorem eq_of_name_of_join {parts : List String} (nonempty : parts ≠ [])
    (alphanumeric : ∀ part ∈ parts, Alphanumeric part) {name : Name}
    (made : Name.of (join "\\" parts) = .ok name) : name = ⟨parts⟩ := by
  rw [name_of_join nonempty alphanumeric, map_eq_ok_iff] at made
  obtain ⟨words, checked, rfl⟩ := made
  rw [(eq_of_nameParts_eq_ok checked).1]

/-- A name of words is refused exactly if one of them begins with a digit. -/
theorem succeeds_name_iff {parts : List String} (nonempty : parts ≠ [])
    (alphanumeric : ∀ part ∈ parts, Alphanumeric part) :
    Succeeds (Name.of (join "\\" parts)) ↔ parts.any startsWithDigit = false := by
  have mapped : Succeeds ((nameParts parts).map (⟨·⟩ : List String → Name)) ↔
      Succeeds (nameParts parts) := by
    constructor
    · rintro ⟨name, done⟩
      obtain ⟨words, checked, -⟩ := map_eq_ok_iff.mp done
      exact ⟨words, checked⟩
    · exact fun checked => checked.map _
  rw [name_of_join nonempty alphanumeric, mapped, succeeds_nameParts_iff, List.any_eq_false]
  constructor
  · intro identifiers part member
    rw [Bool.not_eq_true]
    exact (isIdentifier_iff (alphanumeric part member)).mp (identifiers part member)
  · intro letters part member
    exact (isIdentifier_iff (alphanumeric part member)).mpr (by simpa using letters part member)

end Php

end RestPlugin
