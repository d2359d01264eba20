import RestPlugin.Source.Node
import RestPlugin.Text.Ascii

/-!
# JSON numbers

A number is an integer when it has neither fraction nor exponent and fits into 64 bits, signed or
unsigned; otherwise it is a binary floating-point number.  The digits are collected into a 64-bit
significand, further digits only count for the exponent, and the result is the significand times or
over a power of ten.  A number that is too large is malformed.
-/

namespace RestPlugin.Json

open Number Source

/-- A place in a text: the characters left and the byte offset of the first of them. -/
structure Cursor where
  offset : Nat
  rest : List Char
deriving Repr, Inhabited

/-- The largest significand. -/
def maxSignificand : Nat := 18446744073709551615

/-- The largest exponent that is read digit by digit. -/
def maxExponent : Nat := 2147483647

/-- The value of a digit. -/
def digitValue (c : Char) : Nat := c.toNat - '0'.toNat

/-- Appends digits to a significand while it stays within 64 bits, and counts the digits taken. -/
def absorb : Nat → Nat → List Char → Nat × Nat
  | significand, taken, [] => (significand, taken)
  | significand, taken, c :: rest =>
      let next := significand * 10 + digitValue c
      if maxSignificand < next then (significand, taken) else absorb next (taken + 1) rest

/-- The run of digits at a cursor, and the cursor after it. -/
def digitRun (cursor : Cursor) : List Char × Cursor :=
  let run := cursor.rest.takeWhile Text.isDigit
  (run, ⟨cursor.offset + run.length, cursor.rest.drop run.length⟩)

/-- The largest power of ten by which a number is scaled in one step. -/
def scaleStep : Nat := 308

/-- The number `significand * 10 ^ exponent`, or nothing if it is too large.  Exponents below the
largest step are applied in several divisions, of which three give zero. -/
def scaled (x : Binary64) : Nat → Int → Option Binary64
  | 0, _ => some x
  | count + 1, exponent =>
      if exponent.natAbs ≤ scaleStep then
        if 0 ≤ exponent then
          let y := x.timesPowerOfTen exponent.natAbs
          if y.isInfinite then none else some y
        else some (x.overPowerOfTen exponent.natAbs)
      else if x.sameValue (.ofInt 0) then some x
      else if 0 ≤ exponent then none
      else scaled (x.overPowerOfTen scaleStep) count (exponent + scaleStep)

/-- The floating-point number of a significand and an exponent, read up to a cursor. -/
def floatOf (negative : Bool) (significand : Nat) (exponent : Int) (cursor : Cursor) :
    Except Flaw (Scalar × Cursor) :=
  match scaled (.ofInt significand) 4 exponent with
  | none => .error (.malformed cursor.offset)
  | some x => .ok (.float (if negative then x.neg else x), cursor)

/-- Appends digits to an exponent; an overflow reports the number of digits taken. -/
def absorbExponent : Nat → Nat → List Char → Except Nat Nat
  | exponent, _, [] => .ok exponent
  | exponent, taken, c :: rest =>
      let next := exponent * 10 + digitValue c
      if maxExponent < next then .error (taken + 1) else absorbExponent next (taken + 1) rest

/-- The exponent of a number; the cursor stands after the exponent mark. -/
def readExponent (negative : Bool) (significand : Nat) (base : Int) (cursor : Cursor) :
    Except Flaw (Scalar × Cursor) :=
  let (below, cursor) : Bool × Cursor :=
    match cursor.rest with
    | '+' :: rest => (false, ⟨cursor.offset + 1, rest⟩)
    | '-' :: rest => (true, ⟨cursor.offset + 1, rest⟩)
    | _ => (false, cursor)
  match cursor.rest with
  | [] => .error (.malformed cursor.offset)
  | c :: _ =>
      if !Text.isDigit c then .error (.malformed (cursor.offset + 1))
      else
        let (run, after) := digitRun cursor
        match absorbExponent 0 0 run with
        | .ok exponent =>
            floatOf negative significand (if below then base - exponent else base + exponent) after
        | .error taken =>
            if significand != 0 && !below then .error (.malformed (cursor.offset + taken))
            else .ok (.float (.finite negative 0 Binary64.leastExponent), after)

/-- What follows the digits of a number that is no integer: an exponent or the end. -/
def readTail (negative : Bool) (significand : Nat) (exponent : Int) (cursor : Cursor) :
    Except Flaw (Scalar × Cursor) :=
  match cursor.rest with
  | c :: rest =>
      if c == 'e' || c == 'E' then
        readExponent negative significand exponent ⟨cursor.offset + 1, rest⟩
      else floatOf negative significand exponent cursor
  | [] => floatOf negative significand exponent cursor

/-- The fraction of a number; the cursor stands after the decimal point. -/
def readFraction (negative : Bool) (significand : Nat) (base : Int) (cursor : Cursor) :
    Except Flaw (Scalar × Cursor) :=
  match cursor.rest with
  | [] => .error (.malformed cursor.offset)
  | c :: _ =>
      if !Text.isDigit c then .error (.malformed (cursor.offset + 1))
      else
        let (run, after) := digitRun cursor
        let (significand, taken) := absorb significand 0 run
        readTail negative significand (base - taken) after

/-- The integer with a significand and a sign, as a float when it is out of range or minus zero. -/
def integerOf (negative : Bool) (significand : Nat) : Scalar :=
  if !negative then .int significand
  else if significand == 0 || 9223372036854775808 < significand then
    .float (Binary64.ofInt significand).neg
  else .int (-(significand : Int))

/-- A number; the cursor stands at its first digit, after the sign. -/
def readNumber (negative : Bool) (cursor : Cursor) : Except Flaw (Scalar × Cursor) :=
  match cursor.rest with
  | [] => .error (.malformed cursor.offset)
  | c :: rest =>
      if !Text.isDigit c then .error (.malformed (cursor.offset + 1))
      else if c == '0' && rest.head?.any Text.isDigit then .error (.malformed (cursor.offset + 2))
      else
        let (run, after) := digitRun cursor
        let (significand, taken) := absorb 0 0 run
        let dropped := run.length - taken
        match after.rest with
        | '.' :: rest => readFraction negative significand dropped ⟨after.offset + 1, rest⟩
        | _ =>
            if dropped == 0 && !(after.rest.head?.any fun d => d == 'e' || d == 'E') then
              .ok (integerOf negative significand, after)
            else readTail negative significand dropped after

end RestPlugin.Json
