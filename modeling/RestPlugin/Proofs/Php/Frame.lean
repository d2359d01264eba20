import RestPlugin.Proofs.Json.Number
import RestPlugin.Proofs.Php.Layout
import RestPlugin.Proofs.Php.Regular

/-!
# Where texts of expressions begin and end

The text of a regular tree begins with a character that is neither blank nor a closing bracket, does
not end in a line break and has no carriage return.
-/

namespace RestPlugin.Php

/-! ## Identifiers and names -/

/-- Whether a character occurs in names. -/
def isNameChar (c : Char) : Bool := Text.isWord c || c == '\\'

theorem isWord_of_mem_identifier {word : String} (identifier : isIdentifier word = true) :
    ∀ c ∈ word.toList, Text.isWord c = true := by
  rw [isIdentifier] at identifier
  split at identifier
  · cases identifier
  · rename_i c rest charsEq
    rw [charsEq, List.forall_mem_cons]
    rw [Bool.and_eq_true, isIdentifierStart, Bool.or_eq_true, beq_iff_eq] at identifier
    obtain ⟨start, later⟩ := identifier
    constructor
    · rcases start with rfl | letter
      · decide
      · simp [Text.isWord, Text.isAlnum, letter]
    · simpa using later

/-- An identifier begins with a character that identifiers begin with. -/
theorem exists_start_of_isIdentifier {word : String} (identifier : isIdentifier word = true) :
    ∃ c rest, word.toList = c :: rest ∧ isIdentifierStart c = true := by
  rw [isIdentifier] at identifier
  split at identifier
  · cases identifier
  · rename_i c rest charsEq
    exact ⟨c, rest, charsEq, (Bool.and_eq_true_iff.mp identifier).1⟩

theorem isNameChar_of_mem_text {name : Name}
    (identifiers : ∀ part ∈ name.parts, isIdentifier part = true) :
    ∀ c ∈ name.text.toList, isNameChar c = true := by
  intro c member
  rcases Text.mem_join member with between | ⟨part, partMem, inPart⟩
  · rw [List.mem_singleton.mp between]
    decide
  · rw [isNameChar, isWord_of_mem_identifier (identifiers part partMem) c inPart, Bool.true_or]

/-- A name begins with a character that identifiers begin with. -/
theorem exists_start_of_name {name : Name} (nonempty : name.parts ≠ [])
    (identifiers : ∀ part ∈ name.parts, isIdentifier part = true) :
    ∃ c rest, name.text.toList = c :: rest ∧ isIdentifierStart c = true := by
  obtain ⟨part, parts, partsEq⟩ := List.exists_cons_of_ne_nil nonempty
  rw [partsEq, List.forall_mem_cons] at identifiers
  obtain ⟨c, rest, charsEq, start⟩ := exists_start_of_isIdentifier identifiers.1
  rw [Name.text, partsEq]
  cases parts with
  | nil => exact ⟨c, rest, charsEq, start⟩
  | cons second parts =>
      exact ⟨c, rest ++ '\\' :: (Text.join "\\" (second :: parts)).toList,
        by simp [Text.join, charsEq], start⟩

/-! ## Where texts begin and end -/

/-- The characters that no expression begins with. -/
def gaps : List Char := ['\t', '\n', ' ', ')', ']']

/-- Whether a text is finished and begins with a character an expression can begin with. -/
def Framed (text : String) : Prop :=
  text.toList.head?.any (· ∉ gaps) = true ∧ Finished text.toList

instance : DecidablePred Framed := fun text =>
  inferInstanceAs (Decidable (text.toList.head?.any (· ∉ gaps) = true ∧ Finished text.toList))

/-- A framed text stays framed when a finished one is added. -/
theorem Framed.append {text more : String} (framed : Framed text)
    (finished : Finished more.toList) : Framed (text ++ more) := by
  rw [Framed, String.toList_append]
  refine ⟨?_, finished.append framed.2.2⟩
  obtain ⟨starts, -⟩ := framed
  cases charsEq : text.toList with
  | nil => simp [charsEq] at starts
  | cons c rest => simpa [charsEq] using starts

/-- A frame may have any text without carriage returns in it. -/
theorem Framed.append_append {first middle last : String} (framed : Framed first)
    (returns : '\r' ∉ middle.toList) (finished : Finished last.toList) :
    Framed (first ++ middle ++ last) := by
  rw [String.append_assoc]
  refine framed.append ?_
  rw [String.toList_append]
  exact finished.append returns

theorem framed_of_forall {text : String} {p : Char → Bool}
    (others : ('\r' :: gaps).any p = false) (nonempty : text.toList ≠ [])
    (all : ∀ c ∈ text.toList, p c = true) : Framed text := by
  have apart : ∀ c ∈ text.toList, c ∉ '\r' :: gaps := fun c inText isOther =>
    List.any_eq_false.mp others c isOther (all c inText)
  refine ⟨?_, ?_, fun isReturn => apart _ isReturn List.mem_cons_self⟩
  · rw [List.head?_eq_some_head nonempty, Option.any_some, decide_eq_true_eq]
    exact fun isGap => apart _ (List.head_mem nonempty) (List.mem_cons_of_mem _ isGap)
  · rw [List.getLast?_eq_some_getLast nonempty, Option.any_some, bne_iff_ne]
    exact fun isBreak => apart _ (List.getLast_mem nonempty) (isBreak ▸ by decide)

theorem framed_identifier {word : String} (identifier : isIdentifier word = true) :
    Framed word := by
  obtain ⟨c, rest, charsEq, -⟩ := exists_start_of_isIdentifier identifier
  exact framed_of_forall (by decide) (by simp [charsEq]) (isWord_of_mem_identifier identifier)

theorem framed_name {name : Name} (nonempty : name.parts ≠ [])
    (identifiers : ∀ part ∈ name.parts, isIdentifier part = true) : Framed name.text := by
  obtain ⟨c, rest, charsEq, -⟩ := exists_start_of_name nonempty identifiers
  exact framed_of_forall (by decide) (by simp [charsEq]) (isNameChar_of_mem_text identifiers)

theorem mem_of_mem_quoted {value : List Char} {c : Char} (notSlash : c ≠ '\\')
    (member : c ∈ value.flatMap quoteChar) : c ∈ value := by
  obtain ⟨d, inValue, inQuoted⟩ := List.mem_flatMap.mp member
  rw [quoteChar] at inQuoted
  split at inQuoted
  · rcases List.mem_pair.mp inQuoted with isSlash | isD
    · exact absurd isSlash notSlash
    · exact isD ▸ inValue
  · exact List.mem_singleton.mp inQuoted ▸ inValue

theorem framed_quote {value : String} (returns : '\r' ∉ value.toList) : Framed (quote value) := by
  have opened : quote value = "'" ++ String.ofList (value.toList.flatMap quoteChar) ++ "'" := by
    rw [← String.toList_inj]
    simp [quote]
  rw [opened]
  refine Framed.append_append (by decide) ?_ (by decide)
  rw [String.toList_ofList]
  exact fun member => returns (mem_of_mem_quoted (by decide) member)

theorem toList_toString_ofNat (n : Nat) :
    (toString (Int.ofNat n)).toList = Nat.toDigits 10 n := by
  simp [Int.toString_eq_repr, Int.repr_eq_if]

theorem toList_toString_negSucc (n : Nat) :
    (toString (Int.negSucc n)).toList = '-' :: Nat.toDigits 10 (n + 1) := by
  simp [Int.toString_eq_repr, Int.repr_eq_if, Int.negSucc_not_nonneg, Int.neg_negSucc]

/-- What the characters of a number are. -/
def isNumeric (c : Char) : Bool := c == '-' || Text.isDigit c

theorem isNumeric_of_mem_toString (value : Int) :
    ∀ c ∈ (toString value).toList, isNumeric c = true := by
  have digits (n : Nat) : ∀ c ∈ Nat.toDigits 10 n, isNumeric c = true := fun c member => by
    rw [isNumeric, Json.isDigit_of_mem_toDigits member, Bool.or_true]
  cases value with
  | ofNat n =>
      rw [toList_toString_ofNat]
      exact digits n
  | negSucc n =>
      rw [toList_toString_negSucc]
      exact List.forall_mem_cons.mpr ⟨rfl, digits (n + 1)⟩

theorem framed_int (value : Int) : Framed (toString value) := by
  refine framed_of_forall (by decide) ?_ (isNumeric_of_mem_toString value)
  cases value with
  | ofNat n =>
      rw [toList_toString_ofNat]
      exact Nat.toDigits_ne_nil
  | negSucc n =>
      rw [toList_toString_negSucc]
      exact List.cons_ne_nil _ _

theorem framed_encloseIf {text : String} (condition : Bool) (framed : Framed text) :
    Framed (encloseIf condition text) := by
  cases condition with
  | false => exact framed
  | true => exact Framed.append_append (by decide) framed.2.2 (by decide)

theorem framed_operandText (least : Nat) {expr : Expr} (framed : Framed expr.text) :
    Framed (operandText least expr) :=
  framed_encloseIf _ framed

theorem framed_callList {texts : List String} (returns : ∀ text ∈ texts, '\r' ∉ text.toList) :
    Framed (callList texts) := by
  cases texts with
  | nil => decide
  | cons text texts =>
      rw [callList, enclose]
      · exact Framed.append_append (by decide) (Text.not_mem_join (by decide) returns) (by decide)
      · simp

/-- Framed texts with commas between them are framed. -/
theorem framed_join {texts : List String} (nonempty : texts ≠ [])
    (framed : ∀ text ∈ texts, Framed text) : Framed (Text.join ", " texts) := by
  cases texts with
  | nil => exact absurd rfl nonempty
  | cons text texts =>
      induction texts generalizing text with
      | nil => exact framed text List.mem_cons_self
      | cons second texts ih =>
          obtain ⟨first, later⟩ := List.forall_mem_cons.mp framed
          exact Framed.append_append first (by decide) (ih second (by simp) later).2

theorem not_mem_deeper {text : List Char} (returns : '\r' ∉ text) (depth : Nat) :
    '\r' ∉ deeper depth text := by
  rw [deeper, List.mem_flatMap]
  rintro ⟨c, inText, inPiece⟩
  split at inPiece
  · simp at inPiece
  · exact returns (List.mem_singleton.mp inPiece ▸ inText)

/-- An array is framed if its items are finished. -/
theorem framed_arrayText (keyed : Nat) {texts : List String}
    (finished : ∀ text ∈ texts, Finished text.toList) : Framed (arrayText keyed texts) := by
  cases texts with
  | nil =>
      rw [arrayText]
      decide
  | cons text texts =>
      rw [arrayText]
      · split
        · exact Framed.append_append (by decide)
            (Text.not_mem_join (by decide) fun text member => (finished text member).2) (by decide)
        · have opening : "array(\n" = "array(" ++ "\n" := by decide
          have regrouped (middle : String) :
              "array(\n" ++ middle = "array(" ++ ("\n" ++ middle) := by
            rw [opening, String.append_assoc]
          rw [regrouped]
          refine Framed.append_append (by decide) ?_ (by decide)
          rw [String.toList_append, String.toList_join, List.mem_append, List.mem_flatMap]
          rintro (isBreak | ⟨lines, linesMem, inLines⟩)
          · exact absurd isBreak (by decide)
          · obtain ⟨item, itemMem, rfl⟩ := List.mem_map.mp linesMem
            rw [toList_itemLines (finished item itemMem)] at inLines
            simp [not_mem_deeper (finished item itemMem).2] at inLines
      · simp

theorem framed_itemText {item : ArrayItem} (framed : ∀ part ∈ item.parts, Framed part.text) :
    Framed (itemText item) := by
  rcases item with ⟨_ | key, value⟩
  · exact framed_operandText _ (framed value List.mem_cons_self)
  · exact Framed.append_append (framed key (by simp [ArrayItem.parts])) (by decide)
      (framed_operandText _ (framed value List.mem_cons_self)).2

/-- An arm is framed if its parts are. -/
theorem framed_armText {arm : MatchArm} (framed : ∀ part ∈ arm.parts, Framed part.text) :
    Framed (armText arm) := by
  obtain ⟨conditions, body⟩ := arm
  obtain ⟨bodyFramed, conditionsFramed⟩ := List.forall_mem_cons.mp framed
  cases conditions with
  | nil => exact Framed.append (by decide) bodyFramed.2
  | cons condition conditions =>
      have joined := framed_join (by simp) (List.forall_mem_map.mpr conditionsFramed)
      exact Framed.append_append joined (by decide) bodyFramed.2

theorem not_mem_paramText {param : Param} (identifier : isIdentifier param.name = true)
    (types : ∀ type ∈ param.type?, isIdentifier type = true)
    (framed : ∀ part ∈ param.parts, Framed part.text) : '\r' ∉ (paramText param).toList := by
  obtain ⟨name, type, default⟩ := param
  have nameReturns : '\r' ∉ name.toList := (framed_identifier identifier).2.2
  have typeReturns : '\r' ∉ (typeText type).toList := by
    cases type with
    | none => decide
    | some type =>
        have returns : '\r' ∉ type.toList := (framed_identifier (types type rfl)).2.2
        simp [typeText, returns]
  cases default with
  | none => simp [paramText, nameReturns, typeReturns]
  | some value =>
      have valueReturns : '\r' ∉ value.text.toList :=
        (framed value (by simp [Param.parts])).2.2
      simp [paramText, nameReturns, typeReturns, valueReturns]

theorem framed_args {args : List Expr} (framed : ∀ arg ∈ args, Framed arg.text) :
    Framed (callList (argTexts args)) := by
  rw [argTexts_eq_map]
  exact framed_callList (List.forall_mem_map.mpr fun arg member =>
    (framed_operandText _ (framed arg member)).2.2)

/-- The text of a regular tree begins with a visible character and does not end in a line break. -/
theorem Expr.Regular.framed {expr : Expr} (regular : expr.Regular) : Framed expr.text := by
  induction regular with
  | node here below ih =>
      rename_i expr
      obtain ⟨⟨identifiers, shaped⟩, -, simple⟩ := here
      cases expr with
      | var name =>
          have named := framed_identifier (identifiers name List.mem_cons_self)
          exact Framed.append (by decide) named.2
      | string value => exact framed_quote simple.2
      | int value => exact framed_int value
      | constant name => exact framed_name (IsShaped.parts_ne_nil shaped) identifiers
      | classConstant className name =>
          obtain ⟨identifier, areIdentifiers⟩ := List.forall_mem_cons.mp identifiers
          exact Framed.append_append (framed_name shaped areIdentifiers) (by decide)
            (framed_identifier identifier).2
      | array items =>
          rw [Expr.text, itemTexts_eq_map]
          refine framed_arrayText _ (List.forall_mem_map.mpr fun item itemMem => ?_)
          exact (framed_itemText fun part partMem =>
            ih part (List.mem_flatMap.mpr ⟨item, itemMem, partMem⟩)).2
      | element base key =>
          obtain ⟨baseFramed, keyFramed⟩ := List.forall_mem_cons.mp ih
          have enclosed := framed_encloseIf (!base.isDereferenceable) baseFramed
          cases key with
          | none => exact enclosed.append (by decide)
          | some key =>
              rw [Expr.text]
              refine enclosed.append ?_
              have returns : '\r' ∉ key.text.toList := (keyFramed key (by simp)).2.2
              split
              · exact (Framed.append_append (by decide) returns (by decide)).2
              · exact (Framed.append_append (by decide) returns (by decide)).2
      | property base name =>
          exact Framed.append_append (framed_encloseIf _ (ih base List.mem_cons_self)) (by decide)
            (framed_identifier (identifiers name List.mem_cons_self)).2
      | call name args => exact (framed_name shaped identifiers).append (framed_args ih).2
      | methodCall base name args =>
          obtain ⟨baseFramed, argsFramed⟩ := List.forall_mem_cons.mp ih
          have named := framed_identifier (identifiers name List.mem_cons_self)
          exact (Framed.append_append (framed_encloseIf _ baseFramed) (by decide) named.2).append
            (framed_args argsFramed).2
      | staticCall className name args =>
          obtain ⟨identifier, areIdentifiers⟩ := List.forall_mem_cons.mp identifiers
          exact (Framed.append_append (framed_name shaped areIdentifiers) (by decide)
            (framed_identifier identifier).2).append (framed_args ih).2
      | new className args =>
          exact (Framed.append (by decide) (framed_name shaped identifiers).2).append
            (framed_args ih).2
      | assign target value =>
          exact Framed.append_append (ih target (by simp [parts])) (by decide)
            (framed_operandText _ (ih value (by simp [parts]))).2
      | binary op left right =>
          have symbol : Finished op.symbol.toList := by cases op <;> decide
          have before := framed_operandText op.leftStrength (ih left (by simp [parts]))
          exact ((before.append (by decide)).append symbol).append (by decide) |>.append
            (framed_operandText _ (ih right (by simp [parts]))).2
      | not operand =>
          exact Framed.append (by decide) (framed_operandText _ (ih operand List.mem_cons_self)).2
      | instanceOf operand className =>
          exact Framed.append_append (framed_operandText _ (ih operand List.mem_cons_self))
            (by decide) (framed_name shaped identifiers).2
      | cast kind operand =>
          have opening : Framed ("(" ++ kind.keyword ++ ") ") := by cases kind <;> decide
          exact opening.append (framed_operandText _ (ih operand List.mem_cons_self)).2
      | ternary condition yes no =>
          have before := framed_operandText (Precedence.ternary + 1)
            (ih condition (by simp [parts]))
          have after := framed_operandText (Precedence.ternary + 1) (ih no (by simp [parts]))
          cases yes with
          | none => exact Framed.append_append before (by decide) after.2
          | some yes =>
              have between := framed_operandText (Precedence.ternary + 1)
                (ih yes (by simp [parts]))
              exact Framed.append_append (Framed.append_append before (by decide) between.2)
                (by decide) after.2
      | isset args => exact Framed.append (by decide) (framed_args ih).2
      | arrow isStatic params body =>
          obtain ⟨bodyFramed, defaultsFramed⟩ := List.forall_mem_cons.mp ih
          have opening : Framed ((if isStatic then "static " else "") ++ "fn") := by
            cases isStatic <;> decide
          rw [Expr.text, paramTexts_eq_map]
          refine Framed.append_append (opening.append (framed_callList ?_).2) (by decide)
            bodyFramed.2
          refine List.forall_mem_map.mpr fun param paramMem => not_mem_paramText ?_ ?_ ?_
          · exact identifiers _ (List.mem_map_of_mem paramMem)
          · exact simple param paramMem
          · exact fun part partMem =>
              defaultsFramed part (List.mem_flatMap.mpr ⟨param, paramMem, partMem⟩)
      | matching subject arms =>
          obtain ⟨subjectFramed, armsFramed⟩ := List.forall_mem_cons.mp ih
          rw [Expr.text, armTexts_eq_map]
          refine Framed.append_append
            (Framed.append_append (by decide) subjectFramed.2.2 (by decide)) ?_ (by decide)
          refine Text.not_mem_join (by decide) (List.forall_mem_map.mpr fun arm armMem => ?_)
          exact (framed_armText fun part partMem =>
            armsFramed part (List.mem_flatMap.mpr ⟨arm, armMem, partMem⟩)).2.2

/-! ## Texts at a depth -/

/-- A framed text begins with no gap, at any depth. -/
theorem exists_start_atDepth (depth : Nat) {text : String} (framed : Framed text) :
    ∃ c later, atDepth depth text = c :: later ∧ c ∉ gaps := by
  obtain ⟨starts, -⟩ := framed
  cases charsEq : text.toList with
  | nil => simp [charsEq] at starts
  | cons c rest =>
      have visible : c ∉ gaps := by simpa [charsEq] using starts
      have notBreak : c ≠ '\n' := fun isBreak => visible (isBreak ▸ by decide)
      exact ⟨c, deeper depth rest, by simp [atDepth, charsEq, deeper_cons, notBreak], visible⟩

theorem deeper_identifier {word : String} (identifier : isIdentifier word = true) (depth : Nat) :
    deeper depth word.toList = word.toList :=
  deeper_of_unbroken (fun isBreak => absurd (isWord_of_mem_identifier identifier _ isBreak)
    (by decide)) depth

theorem deeper_name {name : Name} (identifiers : ∀ part ∈ name.parts, isIdentifier part = true)
    (depth : Nat) : deeper depth name.text.toList = name.text.toList :=
  deeper_of_unbroken (fun isBreak => absurd (isNameChar_of_mem_text identifiers _ isBreak)
    (by decide)) depth

end RestPlugin.Php
