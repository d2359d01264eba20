import RestPlugin.Json.Reader
import RestPlugin.Number.Range
import RestPlugin.Proofs.Except
import RestPlugin.Proofs.Json.Number

/-!
# Reading written scalars

Strings of any characters, integers of 64 bits, truth values and `null` are read back from their
texts.  A float is read as the same value wherever it stands.
-/

namespace RestPlugin.Json

open Number Source

/-! ## Strings -/

theorem hexUnit?_of_lt : ∀ n < 0x20,
    hexUnit? '0' '0' (hexDigit (n / 16)) (hexDigit (n % 16)) = some n := by
  decide

theorem utf8Size_hexDigit : ∀ n < 16, (hexDigit n).utf8Size = 1 := by
  decide

/-- A control character is read back from its escape. -/
theorem readEscape_control {c : Char} (control : c.toNat < 0x20) (offset : Nat) (rest : List Char) :
    readEscape ⟨offset, 'u' :: '0' :: '0' :: hexDigit (c.toNat / 16) :: hexDigit (c.toNat % 16) ::
      rest⟩ = .ok (c, ⟨offset + 1 + 4, rest⟩) := by
  have high := utf8Size_hexDigit (c.toNat / 16) (by omega)
  have low := utf8Size_hexDigit (c.toNat % 16) (by omega)
  have unit : readUnit ⟨offset + 1, '0' :: '0' :: hexDigit (c.toNat / 16) ::
      hexDigit (c.toNat % 16) :: rest⟩ = .ok (c.toNat, ⟨offset + 1 + 4, rest⟩) := by
    have four :
        ¬ Text.byteLength (['0', '0', hexDigit (c.toNat / 16), hexDigit (c.toNat % 16)]) < 4 := by
      simp only [Text.byteLength, high, low]
      decide
    simp only [readUnit, List.take_succ_cons, List.take_zero, four, if_false,
      hexUnit?_of_lt c.toNat control]
  have small : (decide (c.toNat < 0xD800) || decide (0xDFFF < c.toNat)) = true := by
    simp only [Bool.or_eq_true, decide_eq_true_eq]
    omega
  simp only [readEscape, unit, ok_bind]
  simp [small, Char.ofNat_toNat]

/-- One character of a string literal is read back, with whatever the rest is read as. -/
theorem readChars_escapeChar (c : Char) {fuel : Nat} {chars more rest : List Char}
    (read : ∀ offset, ∃ after, readChars fuel ⟨offset, more⟩ = .ok (chars, ⟨after, rest⟩))
    (offset : Nat) :
    ∃ after, readChars (fuel + 1) ⟨offset, escapeChar c ++ more⟩ =
      .ok (c :: chars, ⟨after, rest⟩) := by
  have escaped : ∀ escape next, readEscape ⟨offset + 1, escape ++ more⟩ = .ok (c, ⟨next, more⟩) →
      ∃ after, readChars (fuel + 1) ⟨offset, '\\' :: (escape ++ more)⟩ =
        .ok (c :: chars, ⟨after, rest⟩) := by
    intro escape next escapeEq
    obtain ⟨after, restEq⟩ := read next
    refine ⟨after, ?_⟩
    simp [readChars, escapeEq, restEq]
  unfold escapeChar
  split
  next eq => exact escaped ['"'] _ (by rw [beq_iff_eq.mp eq]; rfl)
  split
  next eq => exact escaped ['\\'] _ (by rw [beq_iff_eq.mp eq]; rfl)
  split
  next eq => exact escaped ['b'] _ (by rw [beq_iff_eq.mp eq]; rfl)
  split
  next eq => exact escaped ['t'] _ (by rw [beq_iff_eq.mp eq]; rfl)
  split
  next eq => exact escaped ['n'] _ (by rw [beq_iff_eq.mp eq]; rfl)
  split
  next eq => exact escaped ['f'] _ (by rw [beq_iff_eq.mp eq]; rfl)
  split
  next eq => exact escaped ['r'] _ (by rw [beq_iff_eq.mp eq]; rfl)
  split
  next control =>
    exact escaped ['u', '0', '0', hexDigit (c.toNat / 16), hexDigit (c.toNat % 16)] _
      (readEscape_control control (offset + 1) more)
  next noQuote noBackslash _ _ _ _ _ noControl =>
    obtain ⟨after, restEq⟩ := read (offset + c.utf8Size)
    refine ⟨after, ?_⟩
    simp [readChars, noQuote, noBackslash, noControl, restEq]

/-- The characters of a string literal are read back one by one. -/
theorem readChars_escape (chars rest : List Char) {fuel : Nat} (enough : chars.length < fuel)
    (offset : Nat) :
    ∃ after, readChars fuel ⟨offset, chars.flatMap escapeChar ++ '"' :: rest⟩ =
      .ok (chars, ⟨after, rest⟩) := by
  induction chars generalizing fuel offset with
  | nil =>
      obtain ⟨fuel, rfl⟩ := Nat.exists_eq_add_of_lt enough
      exact ⟨offset + 1, rfl⟩
  | cons c chars ih =>
      cases fuel with
      | zero => exact absurd enough (Nat.not_lt_zero _)
      | succ fuel =>
          rw [List.flatMap_cons, List.append_assoc]
          exact readChars_escapeChar c (ih (Nat.lt_of_succ_lt_succ enough)) offset

theorem length_le_flatMap_escapeChar (chars : List Char) :
    chars.length ≤ (chars.flatMap escapeChar).length := by
  induction chars with
  | nil => exact le_rfl
  | cons c chars ih =>
      have positive : 1 ≤ (escapeChar c).length := by
        unfold escapeChar
        repeat' split
        all_goals exact Nat.succ_le_succ (Nat.zero_le _)
      rw [List.flatMap_cons, List.length_append, List.length_cons]
      omega

/-- A string literal after its opening quote is read back. -/
theorem readString_quote (text : String) (rest : List Char) (offset : Nat) :
    ∃ after, readString ⟨offset, text.toList.flatMap escapeChar ++ '"' :: rest⟩ =
      .ok (text, ⟨after, rest⟩) := by
  have enough : text.toList.length <
      (text.toList.flatMap escapeChar ++ '"' :: rest).length + 1 := by
    have := length_le_flatMap_escapeChar text.toList
    rw [List.length_append]
    omega
  obtain ⟨after, read⟩ := readChars_escape text.toList rest enough offset
  exact ⟨after, by simp only [readString, read, ok_bind, String.ofList_toList]⟩

/-! ## Blanks -/

theorem skipBlanks_append {blanks : List Char} (allBlank : ∀ c ∈ blanks, isSpace c = true)
    (offset : Nat) (rest : List Char) :
    skipBlanks offset (blanks ++ rest) = skipBlanks (offset + blanks.length) rest := by
  induction blanks generalizing offset with
  | nil => rfl
  | cons b blanks ih =>
      have blank : isSpace b = true := allBlank b List.mem_cons_self
      rw [List.cons_append, skipBlanks, blank, if_pos rfl,
        ih (fun c member => allBlank c (List.mem_cons_of_mem b member)), List.length_cons]
      congr 1
      omega

/-- Blanks are skipped up to what is none. -/
theorem skip_append {blanks : List Char} (allBlank : ∀ c ∈ blanks, isSpace c = true) {c : Char}
    (notSpace : isSpace c = false) (offset : Nat) (rest : List Char) :
    (Cursor.mk offset (blanks ++ c :: rest)).skip = ⟨offset + blanks.length, c :: rest⟩ := by
  rw [Cursor.skip, skipBlanks_append allBlank, skipBlanks, notSpace]
  rfl

/-! ## Scalars -/

/-- A scan that ends before `rest` with a tree for `value`. -/
def Yields (scan : Scan Node) (value : Json) (rest : List Char) : Prop :=
  ∃ node offset, scan = (node, some ⟨offset, rest⟩) ∧ node.toJson = .ok value

/-- A value starts neither with a blank nor with a closing bracket. -/
theorem Yields.head {fuel levels offset : Nat} {text rest : List Char} {value : Json}
    (yields : Yields (readValue fuel levels ⟨offset, text⟩) value rest) :
    ∃ c more, text = c :: more ∧ isSpace c = false ∧ c ≠ ']' := by
  obtain ⟨node, after, scanEq, -⟩ := yields
  cases fuel with
  | zero =>
      rw [readValue] at scanEq
      cases scanEq
  | succ fuel =>
      cases text with
      | nil =>
          simp only [readValue] at scanEq
          cases scanEq
      | cons c more =>
          refine ⟨c, more, rfl, ?_, ?_⟩
          · by_contra space
            simp only [isSpace, Bool.not_eq_false, Bool.or_eq_true, beq_iff_eq] at space
            rcases space with ((rfl | rfl) | rfl) | rfl <;>
              simp [readValue, scanScalar, Text.isDigit] at scanEq
          · rintro rfl
            simp [readValue, scanScalar, Text.isDigit] at scanEq

/-- Reading a value that starts with a digit or a sign reads a number. -/
theorem readValue_number {negative : Bool} {fuel levels offset : Nat} {text rest : List Char}
    {scalar : Scalar}
    (read : ∀ offset, ∃ after, readNumber negative ⟨offset, text⟩ = .ok (scalar, ⟨after, rest⟩)) :
    Yields (readValue (fuel + 1) levels ⟨offset, (if negative then ['-'] else []) ++ text⟩)
      (Node.scalarJson scalar) rest := by
  cases negative with
  | true =>
      obtain ⟨after, readEq⟩ := read (offset + 1)
      refine ⟨.scalar scalar, after, ?_, rfl⟩
      simp [readValue, readEq, scanScalar]
  | false =>
      obtain ⟨after, readEq⟩ := read offset
      refine ⟨.scalar scalar, after, ?_, rfl⟩
      cases text with
      | nil => cases readEq
      | cons c more =>
          have digit : Text.isDigit c = true := by
            by_contra other
            rw [Bool.not_eq_true] at other
            simp [readNumber, other] at readEq
          have others : c ≠ '"' ∧ c ≠ '[' ∧ c ≠ '\x7b' ∧ c ≠ 'n' ∧ c ≠ 't' ∧ c ≠ 'f' ∧ c ≠ '-' := by
            refine ⟨?_, ?_, ?_, ?_, ?_, ?_, ?_⟩ <;>
              · rintro rfl
                exact absurd digit (by decide)
          simp [readValue, others, digit, readEq, scanScalar]

/-- The text of an integer in range is read as the integer. -/
theorem readValue_int {value : Int} (least : leastSigned ≤ value)
    (greatest : value ≤ greatestUnsigned)
    (fuel levels offset : Nat) {rest : List Char} (ends : Ends rest) :
    Yields (readValue (fuel + 1) levels ⟨offset, (toString value).toList ++ rest⟩) (int value)
      rest := by
  simp only [leastSigned] at least
  simp only [greatestUnsigned] at greatest
  have fits : value.natAbs ≤ maxSignificand := by
    simp only [maxSignificand]
    omega
  have text : (toString value).toList =
      (if decide (value < 0) then ['-'] else []) ++ Nat.toDigits 10 value.natAbs := by
    rw [Int.toString_eq_repr, Int.repr_eq_if]
    by_cases nonneg : 0 ≤ value
    · have natAbsEq : value.toNat = value.natAbs := by omega
      simp [nonneg, not_lt.mpr nonneg, natAbsEq]
    · have natAbsEq : (-value).toNat = value.natAbs := by omega
      simp [nonneg, not_le.mp nonneg, natAbsEq]
  have scalarEq : Node.scalarJson (integerOf (decide (value < 0)) value.natAbs) = int value := by
    by_cases nonneg : 0 ≤ value
    · have natAbsEq : (value.natAbs : Int) = value := Int.natAbs_of_nonneg nonneg
      simp [integerOf, not_lt.mpr nonneg, natAbsEq, Node.scalarJson]
    · have natAbsEq : -(value.natAbs : Int) = value := by omega
      have inRange :
          (value.natAbs == 0 || decide (9223372036854775808 < value.natAbs)) = false := by
        simp only [Bool.or_eq_false_iff, beq_eq_false_iff_ne, decide_eq_false_iff_not]
        omega
      rw [decide_eq_true (not_le.mp nonneg), integerOf, inRange, natAbsEq]
      rfl
  rw [text, List.append_assoc, ← scalarEq]
  exact readValue_number fun offset => readNumber_toDigits fits _ offset ends

/-- The text of the null value is read as the null value. -/
theorem readValue_null (fuel levels offset : Nat) (rest : List Char) :
    Yields (readValue (fuel + 1) levels ⟨offset, "null".toList ++ rest⟩) null rest := by
  refine ⟨.scalar .null, offset + 1 + 1 + 1 + 1, ?_, rfl⟩
  simp [readValue, readWord, scanScalar, Except.map]

/-- The text of a truth value is read as the truth value. -/
theorem readValue_bool (value : Bool) (fuel levels offset : Nat) (rest : List Char) :
    Yields (readValue (fuel + 1) levels ⟨offset, (scalarText (bool value)).toList ++ rest⟩)
      (bool value) rest := by
  cases value with
  | true =>
      refine ⟨.scalar (.bool true), offset + 1 + 1 + 1 + 1, ?_, rfl⟩
      simp [scalarText, readValue, readWord, scanScalar, Except.map]
  | false =>
      refine ⟨.scalar (.bool false), offset + 1 + 1 + 1 + 1 + 1, ?_, rfl⟩
      simp [scalarText, readValue, readWord, scanScalar, Except.map]

theorem readValue_str (text : String) (fuel levels offset : Nat) (rest : List Char) :
    Yields (readValue (fuel + 1) levels ⟨offset, (quote text).toList ++ rest⟩) (str text) rest := by
  obtain ⟨after, read⟩ := readString_quote text rest (offset + 1)
  refine ⟨.str text, after, ?_, rfl⟩
  simp [readValue, quote, quoteChars, read, scanText]

/-- What is read from a text that starts with a value and ends in blanks. -/
theorem parse_eq_ok {text : String} {value : Json} {blanks : List Char}
    (allBlank : ∀ c ∈ blanks, isSpace c = true)
    (yields : Yields (readValue (4 * text.length + 4) maxDepth ⟨0, text.toList⟩) value blanks) :
    parse text = .ok value := by
  obtain ⟨c, more, textEq, notSpace, -⟩ := yields.head
  obtain ⟨node, after, scanEq, nodeEq⟩ := yields
  have start : skipBlanks 0 text.toList = ⟨0, text.toList⟩ := by
    rw [textEq, skipBlanks, notSpace]
    rfl
  have skipped : (skipBlanks after blanks).rest = [] := by
    have toEnd := skipBlanks_append allBlank after []
    rw [List.append_nil] at toEnd
    rw [toEnd, skipBlanks]
  have noFlaw : trailingFlaw ⟨after, blanks⟩ = none := by
    simp [trailingFlaw, Cursor.skip, skipped]
  simp only [parse, readDocument, start, scanEq, Document.toJson, nodeEq, ok_bind,
    Option.bind_some, noFlaw, Flaw.check]

/-- The value that a float is read as from its text. -/
def rereadFloat (value : Binary64) : Json :=
  match parse (numberLayout.write value) with
  | .ok value => value
  | .error _ => null

/-- A float is read as the same value wherever it stands. -/
theorem readValue_float {value : Binary64} (proper : value.Proper) (fuel levels offset : Nat)
    {rest : List Char} (ends : Ends rest) :
    Yields (readValue (fuel + 1) levels ⟨offset, (numberLayout.write value).toList ++ rest⟩)
      (rereadFloat value) rest := by
  have everywhere : ∃ json, ∀ fuel levels offset rest, Ends rest →
      Yields (readValue (fuel + 1) levels ⟨offset, (numberLayout.write value).toList ++ rest⟩)
        json rest := by
    cases value with
    | nan => exact ⟨null, fun fuel levels offset rest _ => readValue_null fuel levels offset rest⟩
    | infinite negative =>
        refine ⟨null, fun fuel levels offset rest _ => ?_⟩
        cases negative <;> exact readValue_null fuel levels offset rest
    | finite negative mantissa exponent =>
        obtain ⟨x, reads⟩ := exists_readsFloat_magnitude proper negative
        refine ⟨float x, fun fuel levels offset rest ends => ?_⟩
        rw [toList_write_finite, List.append_assoc]
        exact readValue_number fun offset => reads offset rest ends
  obtain ⟨json, yields⟩ := everywhere
  have alone := yields (4 * (numberLayout.write value).length + 3) maxDepth 0 [] (by simp [Ends])
  rw [List.append_nil] at alone
  have parsed : parse (numberLayout.write value) = .ok json := parse_eq_ok (by simp) alone
  rw [rereadFloat, parsed]
  exact yields fuel levels offset rest ends

end RestPlugin.Json
