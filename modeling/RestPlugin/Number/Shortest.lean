import RestPlugin.Number.Binary64

/-!
# Shortest decimal texts

A finite binary number is written with the fewest decimal digits that still read back as the same
number, and of those with the digits nearest to it.  How the digits are laid out is a separate
decision, held in a `Layout`.
-/

namespace RestPlugin.Number

/-- The decimal number `digits * 10 ^ exponent`. -/
structure Decimal where
  digits : Nat
  exponent : Int
deriving DecidableEq, Repr, Inhabited

/-- Which of two equally near decimals is taken. -/
inductive Tie where
  | toEven
  | up
deriving DecidableEq, Repr

/-- The numbers that round to a given positive binary number, as multiples of one fraction: the
value and both ends of the interval, with `closed` telling whether the ends belong to it. -/
structure Interval where
  low : Nat
  value : Nat
  high : Nat
  unit : Nat
  closed : Bool

/-- The interval of a positive finite number `mantissa * 2 ^ exponent`.  The neighbour below a power
of two is nearer than the one above. -/
def Interval.of (mantissa : Nat) (exponent : Int) : Interval :=
  let below := if mantissa == Nat.pow 2 52 && Binary64.leastExponent < exponent then 1 else 2
  let (factor, unit) := Binary64.scaleDown 1 1 (2 - exponent)
  ⟨(4 * mantissa - below) * factor, 4 * mantissa * factor, (4 * mantissa + 2) * factor, unit,
    mantissa % 2 == 0⟩

/-- Whether the decimal `digits * num / den` lies in the interval. -/
def Interval.contains (range : Interval) (digits num den : Nat) : Bool :=
  let point := digits * num * range.unit
  if range.closed then range.low * den ≤ point && point ≤ range.high * den
  else range.low * den < point && point < range.high * den

/-- The power of ten `10 ^ exponent` as a fraction. -/
def powerOfTen (exponent : Int) : Nat × Nat :=
  if 0 ≤ exponent then (Nat.pow 10 exponent.toNat, 1) else (1, Nat.pow 10 (-exponent).toNat)

/-- The multiple of `10 ^ exponent` that lies in the interval and is nearest to its value. -/
def Interval.onGrid (range : Interval) (tie : Tie) (exponent : Int) : Option Decimal :=
  let (num, den) := powerOfTen exponent
  let step := num * range.unit
  let value := range.value * den
  let below := value / step
  let rest := value % step
  let fitsBelow := 0 < below && range.contains below num den
  let fitsAbove := range.contains (below + 1) num den
  let takeAbove :=
    if fitsBelow && fitsAbove then
      if 2 * rest < step then false
      else if step < 2 * rest then true
      else
        match tie with
        | .up => true
        | .toEven => below % 2 == 1
    else fitsAbove
  if takeAbove then some ⟨below + 1, exponent⟩
  else if fitsBelow then some ⟨below, exponent⟩
  else none

/-- Tries grids from coarse to fine, at most `count` of them. -/
def Interval.search (range : Interval) (tie : Tie) : Nat → Int → Decimal
  | 0, exponent => ⟨range.value / range.unit, exponent⟩
  | count + 1, exponent =>
      match range.onGrid tie exponent with
      | some decimal => decimal
      | none => range.search tie count (exponent - 1)

/-- The largest `e` with `10 ^ e ≤ num / den`, searched downwards from a bound. -/
def floorLogTen (num den : Nat) : Nat → Int → Int
  | 0, e => e
  | count + 1, e =>
      let (p, q) := powerOfTen e
      if p * den ≤ num * q then e else floorLogTen num den count (e - 1)

/-- Moves trailing zeros of the digits into the exponent. -/
def Decimal.stripZeros : Nat → Decimal → Decimal
  | 0, decimal => decimal
  | count + 1, decimal =>
      if decimal.digits != 0 && decimal.digits % 10 == 0 then
        stripZeros count ⟨decimal.digits / 10, decimal.exponent + 1⟩
      else decimal

/-- The shortest decimal that reads back as the positive number `mantissa * 2 ^ exponent`. -/
def shortest (tie : Tie) (mantissa : Nat) (exponent : Int) : Decimal :=
  let (num, den) := (Binary64.finite false mantissa exponent).ratio
  let guess := (Binary64.floorLog num den * 30103) / 100000 + 1
  let top := floorLogTen num den 4 guess
  let found := (Interval.of mantissa exponent).search tie 18 (top + 1)
  found.stripZeros 20

/-- The digits of a decimal as characters. -/
def Decimal.digitChars (decimal : Decimal) : List Char := Nat.toDigits 10 decimal.digits

/-- How the digits of a number are laid out: from `10 ^ positionalFrom` up to but not including
`10 ^ positionalTo` without an exponent, and outside with one. -/
structure Layout where
  tie : Tie
  positionalFrom : Option Int
  positionalTo : Option Int
  wholeSuffix : String
  zero : String
  infinite : String
  minusInfinite : String
  nan : String

/-- Digits without an exponent: `point` is the number of digits before the decimal point. -/
def positional (wholeSuffix : String) (digits : List Char) (point : Int) : List Char :=
  if point ≤ 0 then
    '0' :: '.' :: (List.replicate (-point).toNat '0' ++ digits)
  else if point.toNat < digits.length then
    digits.take point.toNat ++ '.' :: digits.drop point.toNat
  else
    digits ++ List.replicate (point.toNat - digits.length) '0' ++ wholeSuffix.toList

/-- Digits with one before the point and an exponent with an explicit sign. -/
def scientific (digits : List Char) (exponent : Int) : List Char :=
  let sign := if exponent < 0 then '-' else '+'
  let mark := 'e' :: sign :: Nat.toDigits 10 exponent.natAbs
  match digits with
  | [] => mark
  | [d] => d :: mark
  | d :: rest => d :: '.' :: (rest ++ mark)

/-- The text of a number under a layout. -/
def Layout.write (layout : Layout) : Binary64 → String
  | .nan => layout.nan
  | .infinite negative => if negative then layout.minusInfinite else layout.infinite
  | .finite negative mantissa exponent =>
      let sign := if negative then ['-'] else []
      if mantissa == 0 then String.ofList (sign ++ layout.zero.toList)
      else
        let decimal := shortest layout.tie mantissa exponent
        let digits := decimal.digitChars
        let point := digits.length + decimal.exponent
        let inFrom := layout.positionalFrom.all fun least => least < point
        let inTo := layout.positionalTo.all fun bound => point ≤ bound
        String.ofList <| sign ++
          if inFrom && inTo then positional layout.wholeSuffix digits point
          else scientific digits (point - 1)

end RestPlugin.Number
