import RestPlugin.Number.Range
import RestPlugin.Toml.Moment

/-!
# TOML numbers, truth values and moments

An unquoted scalar is the longest run of characters that can belong to one; it has to be a truth
value, an integer, a float or a moment as a whole.  A number may be well written and still be too
large; that is a flaw only where the number is used.
-/

namespace RestPlugin.Toml

open Number Source

/-- Removes the underscores of a number.  Each has to stand between two digits. -/
def stripUnderscores (isDigit : Char → Bool) : List Char → Option (List Char)
  | [] => some []
  | [c] => if isDigit c then some [c] else none
  | c :: '_' :: d :: rest =>
      if isDigit c && isDigit d then (stripUnderscores isDigit (d :: rest)).map (c :: ·) else none
  | c :: rest => if isDigit c then (stripUnderscores isDigit rest).map (c :: ·) else none

/-- Digits in a base with underscores, at least one. -/
def basedNumber? (base : Nat) (l : List Char) : Option Nat := do
  let digits ← stripUnderscores (fun c => (Json.hexValue? c).any (· < base)) l
  if digits.isEmpty then none else some (digitsValue base digits)

/-- Decimal digits with underscores and without a leading zero. -/
def wholeDigits? (l : List Char) : Option (List Char) := do
  let digits ← stripUnderscores Text.isDigit l
  match digits with
  | [] => none
  | '0' :: _ :: _ => none
  | digits => some digits

/-- Splits off a sign. -/
def splitSign : List Char → Bool × List Char
  | '+' :: rest => (false, rest)
  | '-' :: rest => (true, rest)
  | l => (false, l)

/-- An integer, which has a meaning in the range of 64 bits, signed or unsigned. -/
def integerNode (n : Int) : Node :=
  if leastSigned ≤ n && n ≤ greatestUnsigned then .scalar (.int n) else .meaningless

/-- The integer that a text writes. -/
def integer? (l : List Char) : Option Int :=
  match l with
  | '0' :: 'x' :: rest => (basedNumber? 16 rest).map fun n => n
  | '0' :: 'o' :: rest => (basedNumber? 8 rest).map fun n => n
  | '0' :: 'b' :: rest => (basedNumber? 2 rest).map fun n => n
  | l => do
      let (negative, digits) := splitSign l
      let digits ← wholeDigits? digits
      let n := digitsValue 10 digits
      some (if negative then -(n : Int) else n)

/-- The exponent of a float, after its mark. -/
def exponent? (l : List Char) : Option Int := do
  let (negative, digits) := splitSign l
  let digits ← stripUnderscores Text.isDigit digits
  if digits.isEmpty then none
  else
    let n := digitsValue 10 digits
    some (if negative then -(n : Int) else n)

/-- The largest exponent taken into account; beyond it a number is zero or too large. -/
def exponentBound : Int := 5000

/-- The number with the given digits before and after the point, which has a meaning if it is
finite. -/
def floatNode (negative : Bool) (whole fraction : List Char) (exponent : Int) : Node :=
  let digits := digitsValue 10 (whole ++ fraction)
  let exponent := exponent - fraction.length
  let value : Binary64 :=
    if digits == 0 || exponent + (whole ++ fraction).length < -exponentBound then
      .finite negative 0 Binary64.leastExponent
    else if exponentBound < exponent then .infinite negative
    else .ofDecimal negative digits exponent
  if value.isInfinite then .meaningless else .scalar (.float value)

/-- The float that a text writes. -/
def float? (l : List Char) : Option Node :=
  let (negative, body) := splitSign l
  if body == ['i', 'n', 'f'] then some (.scalar (.float (.infinite negative)))
  else if body == ['n', 'a', 'n'] then some (.scalar (.float .nan))
  else
    let isMark (c : Char) : Bool := c == 'e' || c == 'E'
    let number := body.takeWhile fun c => !isMark c
    let mark := body.drop number.length
    let whole := number.takeWhile (· != '.')
    let afterWhole := number.drop whole.length
    do
      let whole ← wholeDigits? whole
      let fraction ← match afterWhole with
        | [] => if mark.isEmpty then none else some []
        | _ :: fraction => do
            let digits ← stripUnderscores Text.isDigit fraction
            if digits.isEmpty then none else some digits
      let exponent ← match mark with
        | [] => some 0
        | _ :: exponent => exponent? exponent
      some (floatNode negative whole fraction exponent)

/-- A character that can belong to an unquoted scalar. -/
def isScalarChar (c : Char) : Bool :=
  Text.isWord c || c == '+' || c == '-' || c == '.' || c == ':'

/-- The run of characters of an unquoted scalar.  A date may be followed by a space and a time. -/
def scalarRun (l : List Char) : List Char × List Char :=
  let run := l.takeWhile isScalarChar
  let rest := l.drop run.length
  match readDate run, rest with
  | some (_, []), ' ' :: d :: more =>
      if Text.isDigit d then
        let time := (d :: more).takeWhile isScalarChar
        (run ++ ' ' :: time, (d :: more).drop time.length)
      else (run, rest)
  | _, _ => (run, rest)

/-- The value that a whole text writes without quotes. -/
def scalar? (l : List Char) : Option Node :=
  if l == ['t', 'r', 'u', 'e'] then some (.scalar (.bool true))
  else if l == ['f', 'a', 'l', 's', 'e'] then some (.scalar (.bool false))
  else
    match integer? l with
    | some n => some (integerNode n)
    | none =>
        match float? l with
        | some node => some node
        | none => (moment? l).map Moment.toNode

/-- An unquoted scalar. -/
def scalar : Reader Node := fun l =>
  let (run, rest) := scalarRun l
  (scalar? run).map (·, rest)

end RestPlugin.Toml
