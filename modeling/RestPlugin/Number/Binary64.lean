/-!
# Binary floating-point numbers

The 64-bit binary format, with every finite number held as its exact value
`± mantissa * 2 ^ exponent`.  Rounding is to the nearest number of the format and, halfway between
two, to the one with the even mantissa; it is done on exact fractions of natural numbers, so no
machine arithmetic is involved.
-/

namespace RestPlugin.Number

/-- A number of the 64-bit binary format.  A finite number is normal, with a mantissa of 53 bits, or
has the least exponent. -/
inductive Binary64 where
  | finite (negative : Bool) (mantissa : Nat) (exponent : Int)
  | infinite (negative : Bool)
  | nan
deriving DecidableEq, Repr, Inhabited

namespace Binary64

/-- The number of bits of a normal mantissa. -/
def precision : Nat := 53

/-- The exponent of the numbers next to zero. -/
def leastExponent : Int := -1074

/-- The exponent of the largest finite numbers. -/
def greatestExponent : Int := 971

/-- The numerator and denominator of `num / den` divided by `2 ^ e`. -/
def scaleDown (num den : Nat) (e : Int) : Nat × Nat :=
  if 0 ≤ e then (num, den * Nat.pow 2 e.toNat) else (num * Nat.pow 2 (-e).toNat, den)

/-- The quotient rounded to the nearest natural number, a half going to the even neighbour. -/
def roundDiv (num den : Nat) : Nat :=
  let quotient := num / den
  let twice := 2 * (num % den)
  if twice < den then quotient
  else if den < twice then quotient + 1
  else if quotient % 2 == 0 then quotient else quotient + 1

/-- The largest `e` with `2 ^ e ≤ num / den`, for positive arguments. -/
def floorLog (num den : Nat) : Int :=
  let guess : Int := (num.log2 : Int) - (den.log2 : Int)
  let (scaledNum, scaledDen) := scaleDown num den guess
  if scaledDen ≤ scaledNum then guess else guess - 1

/-- The number nearest to the fraction `± num / den`. -/
def ofRatio (negative : Bool) (num den : Nat) : Binary64 :=
  if num == 0 then finite negative 0 leastExponent
  else
    let e := max (floorLog num den - (precision - 1)) leastExponent
    let (scaledNum, scaledDen) := scaleDown num den e
    let mantissa := roundDiv scaledNum scaledDen
    let (mantissa, e) :=
      if mantissa == Nat.pow 2 precision then (Nat.pow 2 (precision - 1), e + 1) else (mantissa, e)
    if greatestExponent < e then infinite negative else finite negative mantissa e

/-- The number nearest to an integer. -/
def ofInt (n : Int) : Binary64 := ofRatio (n < 0) n.natAbs 1

/-- The number nearest to `± digits * 10 ^ exponent`. -/
def ofDecimal (negative : Bool) (digits : Nat) (exponent : Int) : Binary64 :=
  if 0 ≤ exponent then ofRatio negative (digits * Nat.pow 10 exponent.toNat) 1
  else ofRatio negative digits (Nat.pow 10 (-exponent).toNat)

/-- The number with the other sign. -/
def neg : Binary64 → Binary64
  | finite negative mantissa exponent => finite (!negative) mantissa exponent
  | infinite negative => infinite (!negative)
  | nan => nan

/-- Whether a number is infinite. -/
def isInfinite : Binary64 → Bool
  | infinite _ => true
  | _ => false

/-- The exact magnitude of a finite number as a fraction, and zero for the others. -/
def ratio : Binary64 → Nat × Nat
  | finite _ mantissa exponent => scaleDown mantissa 1 (-exponent)
  | _ => (0, 1)

/-- The magnitude of a finite number times ten to the power `k`, rounded once for the power and
once for the product. -/
def timesPowerOfTen (x : Binary64) (k : Nat) : Binary64 :=
  match x, ofDecimal false 1 k with
  | finite negative m e, finite n p q =>
      let (num, den) := (finite negative m e).ratio
      let (num', den') := (finite n p q).ratio
      ofRatio negative (num * num') (den * den')
  | finite negative m e, other => if m == 0 then finite negative m e else other
  | other, _ => other

/-- The magnitude of a finite number divided by ten to the power `k`, rounded once for the power
and once for the quotient. -/
def overPowerOfTen (x : Binary64) (k : Nat) : Binary64 :=
  match x, ofDecimal false 1 k with
  | finite negative m e, finite n p q =>
      let (num, den) := (finite negative m e).ratio
      let (num', den') := (finite n p q).ratio
      ofRatio negative (num * den') (den * num')
  | finite negative _ _, _ => finite negative 0 leastExponent
  | other, _ => other

/-- Numeric equality: zeros of either sign are equal, and the undefined number differs from
itself. -/
def sameValue : Binary64 → Binary64 → Bool
  | finite negative m e, finite negative' m' e' =>
      m == m' && e == e' && (negative == negative' || m == 0)
  | infinite negative, infinite negative' => negative == negative'
  | _, _ => false

end Binary64

end RestPlugin.Number
