import RestPlugin.Proofs.Php.Operands

/-!
# Expressions read back by how they begin

A variable, a literal, a name or a keyword tells from its first characters which expression follows,
and the reader finds the parts of that expression where they are written.
-/

namespace RestPlugin.Php

open Reader

/-! ## Names and keywords -/

/-- A word at the beginning is a keyword or the beginning of a name. -/
theorem head_of_start {c : Char} (start : isIdentifierStart c = true) (rest : List Char) :
    result (head (c :: rest)) =
      match keyword? (wordOf (c :: rest)) with
      | some keyword => result (headed keyword (afterWord (c :: rest)))
      | none => result (named (nameOf (c :: rest)) (afterName (c :: rest))) := by
  have notDigit : Text.isDigit c = false := by
    rw [Text.isDigit, Bool.and_eq_false_iff, decide_eq_false_iff_not, decide_eq_false_iff_not]
    right
    intro le
    simp only [isIdentifierStart, Text.isLetter, Text.isUpper, Text.isLower, Bool.or_eq_true,
      Bool.and_eq_true, beq_iff_eq, decide_eq_true_eq] at start
    rcases start with rfl | ⟨ge, -⟩ | ⟨ge, -⟩
    · exact absurd le (by decide)
    · exact absurd (Char.le_trans ge le) (by decide)
    · exact absurd (Char.le_trans ge le) (by decide)
  rw [head, List.takeWhile_cons_of_neg (by simp [notDigit]), List.isEmpty_nil, if_pos rfl]
  · cases keyword? (wordOf (c :: rest)) with
    | none => exact result_ask _ _
    | some keyword => exact result_ask _ _
  all_goals
    rintro later ⟨⟩
    exact absurd start (by decide)

/-- A keyword is read as itself where its word ends. -/
theorem head_keyword (keyword : Keyword) {rest : List Char}
    (stops : ∀ c ∈ rest.head?, Text.isWord c = false) :
    result (head (keyword.text.toList ++ rest)) = result (headed keyword rest) := by
  have identifier : isIdentifier keyword.text = true := by cases keyword <;> decide
  obtain ⟨c, later, charsEq, start⟩ := exists_start_of_isIdentifier identifier
  have found := head_of_start start (later ++ rest)
  rw [← List.cons_append, ← charsEq, wordOf_append identifier stops,
    afterWord_append identifier stops, keyword?_text] at found
  exact found

theorem wordOf_name {name : Name} {part : String} {parts : List String} {rest : List Char}
    (partsEq : name.parts = part :: parts) (identifier : isIdentifier part = true)
    (stops : ∀ c ∈ rest.head?, Text.isWord c = false) :
    wordOf (name.text.toList ++ rest) = part := by
  rw [Name.text, partsEq]
  cases parts with
  | nil => exact wordOf_append identifier stops
  | cons second parts =>
      rw [Text.join]
      · rw [String.toList_append, String.toList_append, List.append_assoc, List.append_assoc]
        refine wordOf_append identifier ?_
        rintro c ⟨⟩
        decide
      · simp

/-- A name that is no keyword is read as itself where it ends. -/
theorem head_name {name : Name} {rest : List Char} (nonempty : name.parts ≠ [])
    (identifiers : ∀ part ∈ name.parts, isIdentifier part = true)
    (free : ∀ part ∈ name.parts, ∀ keyword : Keyword, keyword.text ≠ part)
    (stops : ∀ c ∈ rest.head?, isNameChar c = false) :
    result (head (name.text.toList ++ rest)) = result (named name rest) := by
  obtain ⟨c, later, charsEq, start⟩ := exists_start_of_name nonempty identifiers
  obtain ⟨part, parts, partsEq⟩ := List.exists_cons_of_ne_nil nonempty
  have isPart : part ∈ name.parts := partsEq ▸ List.mem_cons_self
  have stopsWord : ∀ c ∈ rest.head?, Text.isWord c = false := fun c isHead =>
    (Bool.or_eq_false_iff.mp (stops c isHead)).1
  have found := head_of_start start (later ++ rest)
  rw [← List.cons_append, ← charsEq, wordOf_name partsEq (identifiers part isPart) stopsWord,
    keyword?_eq_none (free part isPart), nameOf_append nonempty identifiers stops,
    afterName_append identifiers stops] at found
  exact found

/-! ## Atoms -/

theorem readable_var {name : String} (identifier : isIdentifier name = true) :
    Readable (.var name) := by
  intro depth least rest strong follows
  refine read_of_head ?_
  have opened : atDepth depth (Expr.var name).text ++ rest = '$' :: (name.toList ++ rest) := by
    simp [Expr.text, atDepth, deeper_cons, deeper_identifier identifier]
  have stops : ∀ c ∈ rest.head?, Text.isWord c = false := follows.stops (by decide)
  rw [opened, head, wordOf_append identifier stops, afterWord_append identifier stops, result_pure]

/-- A text without line breaks can be read. -/
theorem readable_string {value : String} (unbroken : '\n' ∉ value.toList) :
    Readable (.string value) := by
  intro depth least rest strong follows
  refine read_of_head ?_
  have opened : atDepth depth (Expr.string value).text ++ rest =
      '\'' :: (value.toList.flatMap quoteChar ++ '\'' :: rest) := by
    rw [Expr.text, atDepth_of_unbroken]
    · simp [quote]
    · rw [quote, String.toList_ofList, List.mem_cons, List.mem_append, List.mem_singleton]
      rintro (isQuote | inQuoted | isQuote)
      · exact absurd isQuote (by decide)
      · exact unbroken (mem_of_mem_quoted (by decide) inQuoted)
      · exact absurd isQuote (by decide)
  rw [opened, head, quoted_append]
  simp

/-- Decimal digits are read as their number where they end. -/
theorem head_digits (n : Nat) {rest : List Char}
    (stops : ∀ c ∈ rest.head?, Text.isDigit c = false) :
    result (head (Nat.toDigits 10 n ++ rest)) = some (.int n, rest) := by
  have digits : ∀ c ∈ Nat.toDigits 10 n, Text.isDigit c = true :=
    fun c member => Json.isDigit_of_mem_toDigits member
  obtain ⟨c, later, charsEq⟩ := List.exists_cons_of_ne_nil
    (Nat.toDigits_ne_nil (n := n) (b := 10))
  have isDigit : Text.isDigit c = true := digits c (charsEq ▸ List.mem_cons_self)
  have nonempty : (Nat.toDigits 10 n).isEmpty = false := by
    rw [charsEq]
    rfl
  rw [head, takeWhile_append digits stops, nonempty, numberOf, takeWhile_append digits stops,
    Nat.ofDigitChars_toDigits (by decide) (by decide), afterNumber, dropWhile_append digits stops]
  · rfl
  all_goals
    rw [charsEq, List.cons_append]
    intro tail isOther
    rw [(List.cons.inj isOther).1] at isDigit
    exact absurd isDigit (by decide)

/-- An integer can be read. -/
theorem readable_int (value : Int) : Readable (.int value) := by
  intro depth least rest strong follows
  refine read_of_head ?_
  have stops : ∀ c ∈ rest.head?, Text.isDigit c = false := follows.stops (by decide)
  have unbroken : '\n' ∉ (toString value).toList := fun isBreak =>
    absurd (isNumeric_of_mem_toString value _ isBreak) (by decide)
  rw [Expr.text, atDepth_of_unbroken depth unbroken]
  cases value with
  | ofNat n =>
      rw [toList_toString_ofNat]
      exact head_digits n stops
  | negSucc n =>
      have digits : ∀ c ∈ Nat.toDigits 10 (n + 1), Text.isDigit c = true :=
        fun c member => Json.isDigit_of_mem_toDigits member
      rw [toList_toString_negSucc, List.cons_append, head, numberOf, takeWhile_append digits stops,
        Nat.ofDigitChars_toDigits (by decide) (by decide), afterNumber,
        dropWhile_append digits stops]
      rfl

/-- A name without a double colon after it is a constant or, with arguments, a call. -/
theorem named_of_stops {name : Name} {rest : List Char}
    (stops : ∀ c ∈ rest.head?, (c == ':') = false) :
    result (named name rest) = (result (arguments? rest)).bind fun found =>
      some (found.1.elim (.constant name) (.call name), found.2) := by
  have apart : after [':', ':'] rest = none := by
    cases rest with
    | nil => rfl
    | cons c rest =>
        have other : ':' ≠ c := Ne.symm (beq_eq_false_iff_ne.mp (stops c rfl))
        exact if_neg other
  rw [named, apart]
  simp only [result_bind, result_ask, Phrase.reading, result_pure]

section Names

variable {name : Name} (nonempty : name.parts ≠ [])
  (identifiers : ∀ part ∈ name.parts, isIdentifier part = true)
  (free : ∀ part ∈ name.parts, ∀ keyword : Keyword, keyword.text ≠ part)

include nonempty identifiers free

theorem readable_constant : Readable (.constant name) := by
  intro depth least rest strong follows
  refine read_of_head ?_
  rw [Expr.text, atDepth, deeper_name identifiers,
    head_name nonempty identifiers free (follows.stops (by decide)),
    named_of_stops (follows.stops (by decide)), arguments?_of_follows follows]
  rfl

theorem readable_classConstant {constant : String} (identifier : isIdentifier constant = true) :
    Readable (.classConstant name constant) := by
  intro depth least rest strong follows
  refine read_of_head ?_
  have opened : atDepth depth (Expr.classConstant name constant).text ++ rest =
      name.text.toList ++ ([':', ':'] ++ (constant.toList ++ rest)) := by
    simp [Expr.text, atDepth, deeper_cons, deeper_name identifiers, deeper_identifier identifier]
  have stops : ∀ c ∈ rest.head?, Text.isWord c = false := follows.stops (by decide)
  rw [opened, head_name nonempty identifiers free (by rintro c ⟨⟩; decide), named, after_append]
  simp only [result_bind, result_ask, Phrase.reading]
  rw [wordOf_append identifier stops, afterWord_append identifier stops,
    arguments?_of_follows follows]
  rfl

theorem readable_call {args : List Expr} (readable : ∀ arg ∈ args, Readable arg) :
    Readable (.call name args) := by
  intro depth least rest strong follows
  refine read_of_head ?_
  have opened : atDepth depth (Expr.call name args).text ++ rest =
      name.text.toList ++ (atDepth depth (callList (argTexts args)) ++ rest) := by
    simp [Expr.text, atDepth, deeper_name identifiers]
  rw [opened, head_name nonempty identifiers free (stops_callList (by decide) _ _ _),
    named_of_stops (stops_callList (by decide) _ _ _), arguments?_append readable]
  rfl

/-- A static call can be read if its arguments can. -/
theorem readable_staticCall {method : String} {args : List Expr}
    (identifier : isIdentifier method = true) (readable : ∀ arg ∈ args, Readable arg) :
    Readable (.staticCall name method args) := by
  intro depth least rest strong follows
  refine read_of_head ?_
  have opened : atDepth depth (Expr.staticCall name method args).text ++ rest =
      name.text.toList ++ ([':', ':'] ++ (method.toList ++
        (atDepth depth (callList (argTexts args)) ++ rest))) := by
    simp [Expr.text, atDepth, deeper_cons, deeper_name identifiers, deeper_identifier identifier]
  have stops : ∀ c ∈ (atDepth depth (callList (argTexts args)) ++ rest).head?,
      Text.isWord c = false := stops_callList (by decide) _ _ _
  rw [opened, head_name nonempty identifiers free (by rintro c ⟨⟩; decide), named, after_append]
  simp only [result_bind, result_ask, Phrase.reading]
  rw [wordOf_append identifier stops, afterWord_append identifier stops,
    arguments?_append readable]
  rfl

end Names

/-- The making of an object can be read if its arguments can. -/
theorem readable_new {name : Name} {args : List Expr} (nonempty : name.parts ≠ [])
    (identifiers : ∀ part ∈ name.parts, isIdentifier part = true)
    (readable : ∀ arg ∈ args, Readable arg) : Readable (.new name args) := by
  intro depth least rest strong follows
  refine read_of_head ?_
  have opened : atDepth depth (Expr.new name args).text ++ rest = Keyword.new.text.toList ++
      ([' '] ++ (name.text.toList ++ (atDepth depth (callList (argTexts args)) ++ rest))) := by
    simp [Expr.text, atDepth, Keyword.text, deeper_cons, deeper_name identifiers]
  have stops : ∀ c ∈ (atDepth depth (callList (argTexts args)) ++ rest).head?,
      isNameChar c = false := stops_callList (by decide) _ _ _
  rw [opened, head_keyword .new (by rintro c ⟨⟩; decide), headed, after_append]
  simp only [result_bind, result_liftM, Option.bind_some, result_ask, Phrase.reading]
  rw [nameOf_append nonempty identifiers stops, afterName_append identifiers stops,
    arguments_append readable]
  rfl

theorem readable_isset {args : List Expr} (readable : ∀ arg ∈ args, Readable arg) :
    Readable (.isset args) := by
  intro depth least rest strong follows
  refine read_of_head ?_
  have opened : atDepth depth (Expr.isset args).text ++ rest =
      Keyword.isset.text.toList ++ (atDepth depth (callList (argTexts args)) ++ rest) := by
    simp [Expr.text, atDepth, Keyword.text, deeper_cons]
  rw [opened, head_keyword .isset (stops_callList (by decide) _ _ _), headed, result_bind,
    result_ask, Phrase.reading, arguments_append readable]
  rfl

/-! ## Arrays -/

theorem forall_mem_tabs (depth : Nat) : ∀ c ∈ List.replicate depth '\t', (c == '\t') = true := by
  intro c member
  rw [List.eq_of_mem_replicate member]
  rfl

/-- An item of an array can be read if its parts can. -/
theorem readsBefore_item {found : ArrayItem} (readable : ∀ part ∈ found.parts, Readable part)
    {close : List Char} (isClose : close ∈ [[' ', ')'], [',', '\n']]) (depth : Nat) :
    ReadsBefore close (ask .item) itemText depth found := by
  intro mark isMark rest
  rw [result_ask, Phrase.reading]
  have ends : ∀ mark ∈ [[',', ' '], [' ', ')'], [',', '\n']], mark ∈ closers ∧
      after [' ', '=', '>', ' '] (mark ++ rest) = none := by
    simp [closers, after]
  have isEnd : mark ∈ [[',', ' '], [' ', ')'], [',', '\n']] := by
    rcases List.mem_pair.mp isMark with rfl | rfl
    · exact List.mem_cons_self
    · exact List.mem_cons_of_mem _ isClose
  obtain ⟨isCloser, noArrow⟩ := ends mark isEnd
  have follows := follows_closer isCloser rest
  obtain ⟨key, value⟩ := found
  have valueRead :
      result (expression 0 (atDepth depth (operandText (Precedence.assign + 1) value) ++
        (mark ++ rest))) = some (value, mark ++ rest) :=
    read_operand_of_le (readable value List.mem_cons_self) (Nat.zero_le _) (by decide) follows
  cases key with
  | none =>
      rw [itemText, item, result_bind, result_ask, Phrase.reading, valueRead]
      simp only [Option.bind_some, noArrow, result_pure]
  | some key =>
      have keyReadable : Readable key := readable key (by simp [ArrayItem.parts])
      have opened : atDepth depth (itemText (.mk (some key) value)) ++ (mark ++ rest) =
          atDepth depth (operandText 0 key) ++ ([' ', '=', '>', ' '] ++
            (atDepth depth (operandText (Precedence.assign + 1) value) ++ (mark ++ rest))) := by
        simp [itemText, atDepth, deeper_cons]
      rw [opened, item, result_bind, result_ask, Phrase.reading,
        read_operand_of_le keyReadable le_rfl (by decide) (follows_closer (by decide) _)]
      simp only [Option.bind_some, after_append, result_bind, result_ask, Phrase.reading, valueRead,
        result_pure]

/-- A line that holds an item is read, and the lines below it are read as they stand. -/
theorem rows_line {first : ArrayItem} (readable : ∀ part ∈ first.parts, Readable part)
    (framed : Framed (itemText first)) (depth : Nat) {tail rest : List Char}
    {found : List ArrayItem} (below : result (rows tail) = some (found, rest)) :
    result (rows (List.replicate depth '\t' ++
      (atDepth depth (itemText first) ++ ([',', '\n'] ++ tail)))) =
        some (first :: found, rest) := by
  obtain ⟨c, chars, starts, visible⟩ := exists_start_atDepth depth framed
  have dropped : (List.replicate depth '\t' ++ (atDepth depth (itemText first) ++
      ([',', '\n'] ++ tail))).dropWhile (· == '\t') =
        atDepth depth (itemText first) ++ ([',', '\n'] ++ tail) := by
    refine dropWhile_append (forall_mem_tabs depth) ?_
    rw [starts]
    rintro d ⟨⟩
    exact beq_eq_false_iff_ne.mpr fun isTab => visible (isTab ▸ by decide)
  have lineRead : ReadsBefore [',', '\n'] (ask .item) itemText depth first :=
    readsBefore_item readable (by decide) _
  rw [rows, dropped]
  split
  next isClosed =>
    rw [starts] at isClosed
    exact absurd (List.cons.inj isClosed).1 fun isParen => visible (isParen ▸ by decide)
  next =>
    rw [result_bind, lineRead [',', '\n'] (by decide)]
    simp only [Option.bind_some, result_bind, result_liftM, after_append, result_ask,
      Phrase.reading, below, result_pure]

/-- Items on lines of their own can be read one after another. -/
theorem rows_append {found : List ArrayItem}
    (readable : ∀ item ∈ found, ∀ part ∈ item.parts, Readable part)
    (framed : ∀ item ∈ found, Framed (itemText item)) (depth : Nat) (rest : List Char) :
    result (rows (List.replicate depth '\t' ++
      (atDepth depth (String.join ((found.map itemText).map itemLines)) ++ ')' :: rest))) =
        some (found, rest) := by
  induction found with
  | nil =>
      have opened : atDepth depth (String.join (([].map itemText).map itemLines)) = [] := rfl
      rw [opened, List.nil_append, rows, List.dropWhile_append_of_pos (forall_mem_tabs depth)]
      rfl
  | cons first found ih =>
      obtain ⟨firstReadable, laterReadable⟩ := List.forall_mem_cons.mp readable
      obtain ⟨firstFramed, laterFramed⟩ := List.forall_mem_cons.mp framed
      have opened : List.replicate depth '\t' ++
          (atDepth depth (String.join (((first :: found).map itemText).map itemLines)) ++
            ')' :: rest) = List.replicate (depth + 1) '\t' ++
              (atDepth (depth + 1) (itemText first) ++ ([',', '\n'] ++
                (List.replicate depth '\t' ++ (atDepth depth (String.join
                  ((found.map itemText).map itemLines)) ++ ')' :: rest)))) := by
        rw [List.map_cons, List.map_cons, String.join_cons, atDepth_append,
          atDepth_itemLines depth firstFramed.2, List.replicate_succ']
        simp
      rw [opened]
      exact rows_line firstReadable firstFramed (depth + 1) (ih laterReadable laterFramed)

/-- An array can be read if its items can. -/
theorem readable_array {found : List ArrayItem}
    (readable : ∀ item ∈ found, ∀ part ∈ item.parts, Readable part)
    (framed : ∀ item ∈ found, Framed (itemText item)) : Readable (.array found) := by
  intro depth least rest strong follows
  refine read_of_head ?_
  rw [Expr.text, itemTexts_eq_map]
  cases found with
  | nil =>
      have opened : atDepth depth (arrayText (countKeys []) ([].map itemText)) ++ rest =
          Keyword.array.text.toList ++ ('(' :: ')' :: rest) := by
        simp [arrayText, atDepth, deeper_cons, Keyword.text]
      rw [opened, head_keyword .array (by rintro c ⟨⟩; decide), headed, result_pure]
  | cons first found =>
      rw [List.map_cons, arrayText]
      · rw [← List.map_cons]
        split
        · have opened : atDepth depth ("array( " ++
              Text.join ", " ((first :: found).map itemText) ++ " )") ++ rest =
                Keyword.array.text.toList ++ ('(' :: ' ' ::
                  (atDepth depth (Text.join ", " ((first :: found).map itemText)) ++
                    ([' ', ')'] ++ rest))) := by
            simp [atDepth, deeper_cons, Keyword.text]
          rw [opened, head_keyword .array (by rintro c ⟨⟩; decide), headed, result_bind,
            read_join (result_ask .items) (fun _ => rfl) (by simp) (fun item member =>
              readsBefore_item (readable item member) (by decide) depth) rest]
          rfl
        · have opened : atDepth depth ("array(\n" ++
              String.join (((first :: found).map itemText).map itemLines) ++ ")") ++ rest =
                Keyword.array.text.toList ++ (['(', '\n'] ++ (List.replicate depth '\t' ++
                  (atDepth depth (String.join (((first :: found).map itemText).map itemLines)) ++
                    ')' :: rest))) := by
            simp [atDepth, deeper_cons, Keyword.text]
          rw [opened, head_keyword .array (by rintro c ⟨⟩; decide), headed]
          · rw [after_append]
            simp only [result_bind, result_liftM, Option.bind_some, result_ask, Phrase.reading]
            rw [rows_append readable framed]
            rfl
          · simp
          · simp
      · simp

/-! ## Arrow functions -/

theorem param_append {name : String} {type : Option String} (identifier : isIdentifier name = true)
    (types : ∀ text ∈ type, isIdentifier text = true) (depth : Nat) {rest : List Char}
    (stops : ∀ c ∈ rest.head?, Text.isWord c = false) :
    result (param (atDepth depth (typeText type ++ "$" ++ name) ++ rest)) =
      result (defaulted name type rest) := by
  cases type with
  | none =>
      have opened : atDepth depth (typeText none ++ "$" ++ name) ++ rest =
          '$' :: (name.toList ++ rest) := by
        simp [typeText, atDepth, deeper_cons, deeper_identifier identifier]
      rw [opened, param, wordOf_append identifier stops, afterWord_append identifier stops]
      exact result_ask _ _
  | some type =>
      have typeIdentifier : isIdentifier type = true := types type rfl
      have opened : atDepth depth (typeText (some type) ++ "$" ++ name) ++ rest =
          type.toList ++ ([' ', '$'] ++ (name.toList ++ rest)) := by
        simp [typeText, atDepth, deeper_cons, deeper_identifier identifier,
          deeper_identifier typeIdentifier]
      have typeStops : ∀ c ∈ ([' ', '$'] ++ (name.toList ++ rest)).head?,
          Text.isWord c = false := by
        rintro c ⟨⟩
        decide
      rw [opened, param, wordOf_append typeIdentifier typeStops,
        afterWord_append typeIdentifier typeStops, after_append]
      · simp only [result_bind, result_liftM, Option.bind_some, result_ask, Phrase.reading]
        rw [wordOf_append identifier stops, afterWord_append identifier stops]
      · obtain ⟨c, later, charsEq, start⟩ := exists_start_of_isIdentifier typeIdentifier
        rw [charsEq]
        intro tail isDollar
        rw [(List.cons.inj isDollar).1] at start
        exact absurd start (by decide)

/-- A parameter can be read if its default can. -/
theorem readsBefore_param {found : Param} (identifier : isIdentifier found.name = true)
    (types : ∀ type ∈ found.type?, isIdentifier type = true)
    (readable : ∀ part ∈ found.parts, Readable part) (depth : Nat) :
    ReadsBefore [' ', ')'] (ask .param) paramText depth found := by
  intro mark isMark rest
  rw [result_ask, Phrase.reading]
  have ends : ∀ mark ∈ [[',', ' '], [' ', ')']], mark ∈ closers ∧
      after [' ', '=', ' '] (mark ++ rest) = none := by
    simp [closers, after]
  obtain ⟨isCloser, noDefault⟩ := ends mark isMark
  have follows := follows_closer isCloser rest
  obtain ⟨name, type, default⟩ := found
  have declared {tail : List Char} (stops : ∀ c ∈ tail.head?, Text.isWord c = false) :
      result (param (atDepth depth (typeText type ++ "$" ++ name) ++ tail)) =
        result (defaulted name type tail) :=
    param_append identifier types depth stops
  cases default with
  | none => rw [paramText, declared (follows.stops (by decide)), defaulted, noDefault, result_pure]
  | some value =>
      have valueReadable : Readable value := readable value (by simp [Param.parts])
      have opened : atDepth depth (paramText (.mk name type (some value))) ++ (mark ++ rest) =
          atDepth depth (typeText type ++ "$" ++ name) ++ ([' ', '=', ' '] ++
            (atDepth depth (operandText 0 value) ++ (mark ++ rest))) := by
        simp [paramText, atDepth, deeper_cons]
      rw [opened, declared (by rintro c ⟨⟩; decide), defaulted, after_append]
      simp only [result_bind, result_ask, Phrase.reading]
      rw [read_operand_of_le valueReadable le_rfl (by decide) follows]
      rfl

/-- Parameters in parentheses can be read one after another. -/
theorem parameters_append {found : List Param}
    (identifiers : ∀ param ∈ found, isIdentifier param.name = true)
    (types : ∀ param ∈ found, ∀ type ∈ param.type?, isIdentifier type = true)
    (readable : ∀ param ∈ found, ∀ part ∈ param.parts, Readable part) (depth : Nat)
    (rest : List Char) :
    result (parameters (atDepth depth (callList (paramTexts found)) ++ rest)) =
      some (found, rest) := by
  rw [paramTexts_eq_map]
  refine read_callList (fun rest => by rw [parameters, result_pure]) ?_ (result_ask .params)
    (fun param member => readsBefore_param (identifiers param member) (types param member)
      (readable param member) depth) rest
  intro rest
  rw [parameters, after_append]
  · rfl
  · simp

/-- An arrow function can be read if its parameters and its body can. -/
theorem readable_arrow (isStatic : Bool) {found : List Param} {body : Expr}
    (identifiers : ∀ param ∈ found, isIdentifier param.name = true)
    (types : ∀ param ∈ found, ∀ type ∈ param.type?, isIdentifier type = true)
    (readable : ∀ param ∈ found, ∀ part ∈ param.parts, Readable part)
    (bodyReadable : Readable body) : Readable (.arrow isStatic found body) := by
  intro depth least rest strong follows
  refine read_of_head ?_
  let tail := atDepth depth (callList (paramTexts found)) ++
    ([' ', '=', '>', ' '] ++ (atDepth depth (operandText 0 body) ++ rest))
  have lambdaRead : result (lambda isStatic tail) = some (.arrow isStatic found body, rest) := by
    rw [lambda, result_bind, result_ask, Phrase.reading,
      parameters_append identifiers types readable]
    simp only [Option.bind_some, result_bind, result_liftM, after_append, result_ask,
      Phrase.reading]
    rw [read_operand_of_le bodyReadable le_rfl (le_refl Precedence.ternary) follows]
    rfl
  have stops : ∀ c ∈ tail.head?, Text.isWord c = false := stops_callList (by decide) _ _ _
  cases isStatic with
  | false =>
      have opened : atDepth depth (Expr.arrow false found body).text ++ rest =
          Keyword.arrow.text.toList ++ tail := by
        simp [Expr.text, atDepth, deeper_cons, Keyword.text, tail]
      rw [opened, head_keyword .arrow stops, headed, result_ask, Phrase.reading, lambdaRead]
  | true =>
      have opened : atDepth depth (Expr.arrow true found body).text ++ rest =
          Keyword.staticArrow.text.toList ++ ([' ', 'f', 'n'] ++ tail) := by
        simp [Expr.text, atDepth, deeper_cons, Keyword.text, tail]
      rw [opened, head_keyword .staticArrow (by rintro c ⟨⟩; decide), headed, after_append]
      exact (result_ask _ _).trans lambdaRead

/-! ## Match expressions -/

/-- The conditions of a match arm as they are written. -/
def shownConditions : List Expr → List Expr
  | [] => [.constant ⟨["default"]⟩]
  | condition :: conditions => condition :: conditions

theorem shownConditions_ne_nil (conditions : List Expr) : shownConditions conditions ≠ [] := by
  cases conditions with
  | nil => exact List.cons_ne_nil _ _
  | cons condition conditions => exact List.cons_ne_nil _ _

theorem armText_eq (conditions : List Expr) (body : Expr) :
    armText (.mk conditions body) =
      Text.join ", " ((shownConditions conditions).map (operandText 0)) ++ " => " ++
        operandText 0 body := by
  cases conditions with
  | nil => rfl
  | cons condition conditions => rfl

theorem eq_of_isDefault {conditions : List Expr} (default : isDefault conditions = true) :
    conditions = [.constant ⟨["default"]⟩] := by
  unfold isDefault at default
  split at default
  · rfl
  · cases default

/-- The conditions of an arm can be told from how they are shown, unless one is the word for
the default. -/
theorem eq_of_shownConditions {conditions : List Expr}
    (notDefault : Expr.constant ⟨["default"]⟩ ∉ conditions) :
    (if isDefault (shownConditions conditions) = true then []
      else shownConditions conditions) = conditions := by
  cases conditions with
  | nil => rfl
  | cons condition conditions =>
      refine if_neg fun default => notDefault ?_
      have shown := eq_of_isDefault default
      rw [shownConditions] at shown
      rw [shown]
      exact List.mem_cons_self

/-- An arm can be read if its parts can. -/
theorem readsBefore_arm {found : MatchArm} (readable : ∀ part ∈ found.parts, Readable part)
    (notDefault : Expr.constant ⟨["default"]⟩ ∉ found.parts) (depth : Nat) :
    ReadsBefore [' ', '\x7d'] (ask .arm) armText depth found := by
  intro mark isMark rest
  have isCloser : mark ∈ closers := by
    rcases List.mem_pair.mp isMark with rfl | rfl <;> decide
  obtain ⟨conditions, body⟩ := found
  obtain ⟨bodyReadable, conditionsReadable⟩ := List.forall_mem_cons.mp readable
  have shownReadable : ∀ shown ∈ shownConditions conditions, Readable shown := by
    cases conditions with
    | nil =>
        refine List.forall_mem_singleton.mpr (readable_constant (List.cons_ne_nil _ _) ?_ ?_)
        · exact List.forall_mem_singleton.mpr (by decide)
        · rintro part partMem keyword rfl
          rw [List.mem_singleton] at partMem
          cases keyword <;> exact absurd partMem (by decide)
    | cons condition conditions => exact conditionsReadable
  have opened : atDepth depth (armText (.mk conditions body)) ++ (mark ++ rest) =
      atDepth depth (Text.join ", " ((shownConditions conditions).map (operandText 0))) ++
        ([' ', '=', '>', ' '] ++ (atDepth depth (operandText 0 body) ++ (mark ++ rest))) := by
    rw [armText_eq]
    simp [atDepth, deeper_cons]
  rw [result_ask, Phrase.reading, opened, arm, result_bind, read_join
    (result_ask (.exprs 0 [' ', '=', '>', ' '])) (fun _ => rfl) (shownConditions_ne_nil conditions)
    (fun shown member => readsBefore_operand (shownReadable shown member) (by decide) 0 depth)]
  simp only [Option.bind_some, result_bind, result_ask, Phrase.reading]
  rw [read_operand_of_le bodyReadable le_rfl (by decide) (follows_closer isCloser rest),
    eq_of_shownConditions fun member => notDefault (List.mem_cons_of_mem _ member)]
  rfl

/-- A match can be read if its subject and its arms can. -/
theorem readable_matching {subject : Expr} {found : List MatchArm}
    (subjectReadable : Readable subject)
    (readable : ∀ arm ∈ found, ∀ part ∈ arm.parts, Readable part)
    (notDefault : ∀ arm ∈ found, Expr.constant ⟨["default"]⟩ ∉ arm.parts)
    (framed : ∀ arm ∈ found, Framed (armText arm)) : Readable (.matching subject found) := by
  intro depth least rest strong follows
  refine read_of_head ?_
  let tail := atDepth depth (Text.join ", " (found.map armText)) ++ ([' ', '\x7d'] ++ rest)
  have opened : atDepth depth (Expr.matching subject found).text ++ rest =
      Keyword.matching.text.toList ++ ([' ', '(', ' '] ++ (atDepth depth (operandText 0 subject) ++
        ([' ', ')'] ++ ([' ', '\x7b', ' '] ++ tail)))) := by
    simp [Expr.text, atDepth, deeper_cons, Keyword.text, armTexts_eq_map, tail]
  have skipped : after [' ', ')', ' ', '\x7b', ' '] ([' ', ')'] ++ ([' ', '\x7b', ' '] ++ tail)) =
      some tail :=
    after_append [' ', ')', ' ', '\x7b', ' '] tail
  rw [opened, head_keyword .matching (by rintro c ⟨⟩; decide), headed, after_append]
  simp only [result_bind, result_liftM, Option.bind_some, result_ask, Phrase.reading]
  rw [read_operand_of_le subjectReadable le_rfl (by decide) (follows_closer (by decide) _)]
  simp only [Option.bind_some, skipped, tail]
  cases found with
  | nil => rfl
  | cons first found =>
      have armsRead := read_join (result_ask .arms) (fun _ => rfl) (List.cons_ne_nil first found)
        (fun arm member => readsBefore_arm (readable arm member) (notDefault arm member) depth) rest
      obtain ⟨c, later, starts, visible⟩ := exists_start_atDepth depth
        (framed_join (List.cons_ne_nil _ _) (List.forall_mem_map.mpr framed))
      split
      next isBlank =>
        rw [← List.map_cons] at starts
        rw [starts] at isBlank
        exact absurd (List.cons.inj isBlank).1 fun isSpace => visible (isSpace ▸ by decide)
      next => rw [result_bind, armsRead, Option.bind_some, result_pure]

end RestPlugin.Php
