import Mathlib.Algebra.Order.Field.Power
import Mathlib.Data.Nat.Log
import Mathlib.Data.Rat.Cast.Order
import Mathlib.Tactic.FieldSimp
import Mathlib.Tactic.Linarith
import Mathlib.Tactic.NormNum
import Mathlib.Tactic.Positivity
import Mathlib.Tactic.Ring
import RestPlugin.Number.Binary64

/-!
# Bounds for rounded numbers

Rounding works on fractions of natural numbers.  Here a fraction is taken as the rational number it
stands for.  A rounded number exceeds what it was rounded from by at most half a unit in its last
place, and rounding gives a finite number for everything below the middle between the largest finite
number and the next power of two.
-/

namespace RestPlugin.Number

/-- The rational number of a numerator and a denominator. -/
def fraction (pair : Nat × Nat) : ℚ := pair.1 / pair.2

namespace Binary64

theorem two_zpow_pos (e : Int) : (0 : ℚ) < 2 ^ e := zpow_pos two_pos e

theorem two_zpow_sub (e f : Int) : (2 : ℚ) ^ (e - f) = 2 ^ e / 2 ^ f := zpow_sub₀ two_ne_zero e f

/-! ## Scaling -/

/-- Scaling down divides the fraction by a power of two. -/
theorem fraction_scaleDown (num den : Nat) (e : Int) :
    fraction (scaleDown num den e) = num / den / 2 ^ e := by
  unfold scaleDown fraction
  split
  next nonneg =>
    obtain ⟨n, rfl⟩ := Int.eq_ofNat_of_zero_le nonneg
    simp [div_div]
  next negative =>
    obtain ⟨n, rfl⟩ : ∃ n : Nat, e = -n := ⟨(-e).toNat, by omega⟩
    simp [zpow_neg, mul_div_right_comm]

theorem scaleDown_snd_pos (num : Nat) {den : Nat} (positive : 0 < den) (e : Int) :
    0 < (scaleDown num den e).2 := by
  unfold scaleDown
  split
  · exact Nat.mul_pos positive (Nat.pow_pos Nat.two_pos)
  · exact positive

/-- Numerator and denominator compare as their fraction compares with one. -/
theorem snd_le_fst_iff (pair : Nat × Nat) (positive : 0 < pair.2) :
    pair.2 ≤ pair.1 ↔ 1 ≤ fraction pair := by
  rw [fraction, one_le_div (by exact_mod_cast positive)]
  exact Nat.cast_le.symm

/-! ## Rounding to a natural number -/

/-- A rounded quotient exceeds the quotient by at most one half. -/
theorem roundDiv_le (num : Nat) {den : Nat} (positive : 0 < den) :
    (roundDiv num den : ℚ) ≤ num / den + 1 / 2 := by
  have euclid : den * (num / den) + num % den = num := Nat.div_add_mod num den
  have twice : 2 * (den * roundDiv num den) ≤ 2 * num + den := by
    simp only [roundDiv]
    split
    · omega
    · split
      · rw [Nat.mul_add_one]
        omega
      · split
        · omega
        · rw [Nat.mul_add_one]
          omega
  have twiceCast : 2 * ((den : ℚ) * roundDiv num den) ≤ 2 * num + den := by exact_mod_cast twice
  have denPos : (0 : ℚ) < den := by exact_mod_cast positive
  rw [div_add_div _ _ denPos.ne' two_ne_zero, le_div_iff₀ (by positivity)]
  linarith

/-! ## The binary logarithm -/

theorem log2_bounds {n : Nat} (positive : 0 < n) :
    (2 : ℚ) ^ (n.log2 : Int) ≤ n ∧ (n : ℚ) < 2 ^ ((n.log2 : Int) + 1) := by
  constructor
  · exact_mod_cast Nat.log2_self_le positive.ne'
  · exact_mod_cast Nat.lt_log2_self

/-- The logarithm of a fraction lies between the power of two below it and the one above. -/
theorem floorLog_bounds {num den : Nat} (numPos : 0 < num) (denPos : 0 < den) :
    (2 : ℚ) ^ floorLog num den ≤ num / den ∧ (num / den : ℚ) < 2 ^ (floorLog num den + 1) := by
  obtain ⟨numLow, numHigh⟩ := log2_bounds numPos
  obtain ⟨denLow, denHigh⟩ := log2_bounds denPos
  have denCast : (0 : ℚ) < den := by exact_mod_cast denPos
  -- The difference of the two logarithms is right or one too large.
  have below : (2 : ℚ) ^ ((num.log2 : Int) - den.log2 - 1) ≤ num / den := by
    rw [le_div_iff₀ denCast]
    calc (2 : ℚ) ^ ((num.log2 : Int) - den.log2 - 1) * den
        ≤ 2 ^ ((num.log2 : Int) - den.log2 - 1) * 2 ^ ((den.log2 : Int) + 1) :=
          mul_le_mul_of_nonneg_left denHigh.le (two_zpow_pos _).le
      _ = 2 ^ (num.log2 : Int) := by rw [← zpow_add₀ two_ne_zero]; congr 1; ring
      _ ≤ num := numLow
  have above : (num / den : ℚ) < 2 ^ ((num.log2 : Int) - den.log2 + 1) := by
    rw [div_lt_iff₀ denCast]
    calc (num : ℚ) < 2 ^ ((num.log2 : Int) + 1) := numHigh
      _ = 2 ^ ((num.log2 : Int) - den.log2 + 1) * 2 ^ (den.log2 : Int) := by
          rw [← zpow_add₀ two_ne_zero]; congr 1; ring
      _ ≤ _ := mul_le_mul_of_nonneg_left denLow (two_zpow_pos _).le
  have decided := snd_le_fst_iff _ (scaleDown_snd_pos num denPos ((num.log2 : Int) - den.log2))
  rw [fraction_scaleDown, one_le_div (two_zpow_pos _)] at decided
  simp only [floorLog]
  split
  next large => exact ⟨decided.mp large, above⟩
  next small =>
    refine ⟨below, ?_⟩
    rw [sub_add_cancel]
    exact not_le.mp fun large => small (decided.mpr large)

/-- A fraction below a power of two has a smaller logarithm. -/
theorem floorLog_lt_of_lt {num den : Nat} (numPos : 0 < num) (denPos : 0 < den) {e : Int}
    (small : (num / den : ℚ) < 2 ^ e) : floorLog num den < e :=
  (zpow_lt_zpow_iff_right₀ one_lt_two).mp ((floorLog_bounds numPos denPos).1.trans_lt small)

/-- A fraction from a power of two on has at least this logarithm. -/
theorem le_floorLog_of_le {num den : Nat} (numPos : 0 < num) (denPos : 0 < den) {e : Int}
    (large : (2 : ℚ) ^ e ≤ num / den) : e ≤ floorLog num den :=
  Int.lt_add_one_iff.mp
    ((zpow_lt_zpow_iff_right₀ one_lt_two).mp (large.trans_lt (floorLog_bounds numPos denPos).2))

/-! ## Rounding to a number of the format -/

/-- The magnitude of a finite number as a rational number, and zero for the others. -/
def magnitude (x : Binary64) : ℚ := fraction x.ratio

theorem magnitude_nonneg (x : Binary64) : 0 ≤ x.magnitude := by
  rw [magnitude, fraction]
  positivity

/-- The magnitude of a finite number is its mantissa times its power of two. -/
theorem magnitude_finite (negative : Bool) (mantissa : Nat) (exponent : Int) :
    (finite negative mantissa exponent).magnitude = mantissa * 2 ^ exponent := by
  simp [magnitude, ratio, fraction_scaleDown]

/-- The exponent of the numbers among which a fraction is rounded. -/
def gridExponent (num den : Nat) : Int := max (floorLog num den - (precision - 1)) leastExponent

/-- The mantissa to which a fraction is rounded, before it is brought below `2 ^ 53`. -/
def roundedMantissa (num den : Nat) : Nat :=
  roundDiv (scaleDown num den (gridExponent num den)).1 (scaleDown num den (gridExponent num den)).2

/-- A rounded mantissa exceeds the fraction on its grid by at most one half. -/
theorem roundedMantissa_le (num : Nat) {den : Nat} (positive : 0 < den) :
    (roundedMantissa num den : ℚ) ≤ num / den / 2 ^ gridExponent num den + 1 / 2 := by
  have rounded := roundDiv_le (scaleDown num den (gridExponent num den)).1
    (scaleDown_snd_pos num positive (gridExponent num den))
  have scaled := fraction_scaleDown num den (gridExponent num den)
  rw [fraction] at scaled
  rw [← scaled]
  exact rounded

/-- A positive fraction is rounded to its mantissa on its grid, where a mantissa of 54 bits moves to
the next grid and an exponent that is too large gives the infinite number. -/
theorem ofRatio_eq (negative : Bool) {num : Nat} (positive : 0 < num) (den : Nat) :
    ofRatio negative num den =
      if roundedMantissa num den = 2 ^ 53 then
        if greatestExponent < gridExponent num den + 1 then infinite negative
        else finite negative (2 ^ 52) (gridExponent num den + 1)
      else if greatestExponent < gridExponent num den then infinite negative
      else finite negative (roundedMantissa num den) (gridExponent num den) := by
  have nonzero : (num == 0) = false := beq_false_of_ne positive.ne'
  have unfolded : ofRatio negative num den =
      let rounded := if roundedMantissa num den == 2 ^ 53 then (2 ^ 52, gridExponent num den + 1)
        else (roundedMantissa num den, gridExponent num den)
      if greatestExponent < rounded.2 then infinite negative
      else finite negative rounded.1 rounded.2 := by
    rw [ofRatio, nonzero]
    rfl
  rw [unfolded]
  by_cases carries : roundedMantissa num den = 2 ^ 53
  · rw [if_pos carries, if_pos (beq_of_eq carries)]
  · rw [if_neg carries, if_neg (ne_true_of_eq_false (beq_false_of_ne carries))]

/-- Rounding adds at most half a step of the grid. -/
theorem magnitude_ofRatio_le (negative : Bool) {num den : Nat} (numPos : 0 < num)
    (denPos : 0 < den) :
    (ofRatio negative num den).magnitude ≤ num / den + 2 ^ (gridExponent num den - 1) := by
  have rounded := mul_le_mul_of_nonneg_right (roundedMantissa_le num denPos)
    (two_zpow_pos (gridExponent num den)).le
  have bound : (roundedMantissa num den : ℚ) * 2 ^ gridExponent num den ≤
      num / den + 2 ^ (gridExponent num den - 1) := by
    rw [add_mul, div_mul_cancel₀ _ (two_zpow_pos _).ne'] at rounded
    rwa [two_zpow_sub, zpow_one, div_eq_inv_mul _ (2 : ℚ), ← one_div]
  have nonneg : (0 : ℚ) ≤ num / den + 2 ^ (gridExponent num den - 1) := by positivity
  have infiniteZero : (infinite negative).magnitude = 0 := by simp [magnitude, ratio, fraction]
  rw [ofRatio_eq negative numPos]
  split
  next carries =>
    split
    · rwa [infiniteZero]
    · have carried : (finite negative (2 ^ 52) (gridExponent num den + 1)).magnitude =
          roundedMantissa num den * 2 ^ gridExponent num den := by
        rw [magnitude_finite, carries, zpow_add_one₀ two_ne_zero]
        push_cast
        ring
      rwa [carried]
  next =>
    split
    · rwa [infiniteZero]
    · rwa [magnitude_finite]

/-- The middle between the largest finite number and the next power of two. -/
def overflowBound : Nat := (2 ^ 54 - 1) * 2 ^ 970

theorem overflowBound_cast : (overflowBound : ℚ) = (2 ^ 53 - 1 / 2) * 2 ^ greatestExponent := by
  have top : (2 : ℚ) ^ greatestExponent = 2 * 2 ^ 970 :=
    (zpow_natCast 2 971).trans (pow_succ' 2 970)
  have factor : ((2 ^ 54 - 1 : Nat) : ℚ) = (2 ^ 53 - 1 / 2) * 2 := by norm_num
  rw [overflowBound, Nat.cast_mul, Nat.cast_pow, Nat.cast_ofNat, factor, mul_assoc, top]

theorem overflowBound_lt : (overflowBound : ℚ) < 2 ^ (1024 : Int) := by
  have top : (2 : ℚ) ^ (1024 : Int) = 2 ^ 53 * 2 ^ greatestExponent := by
    rw [← zpow_natCast, ← zpow_add₀ two_ne_zero]
    rfl
  rw [overflowBound_cast, top]
  exact mul_lt_mul_of_pos_right (by norm_num) (two_zpow_pos _)

/-- Every fraction below the bound is rounded to a finite number. -/
theorem exists_ofRatio_eq_finite (negative : Bool) (num : Nat) {den : Nat} (denPos : 0 < den)
    (small : (num / den : ℚ) < overflowBound) :
    ∃ mantissa exponent, ofRatio negative num den = finite negative mantissa exponent := by
  rcases Nat.eq_zero_or_pos num with rfl | numPos
  · exact ⟨0, leastExponent, rfl⟩
  have logSmall : floorLog num den < 1024 :=
    floorLog_lt_of_lt numPos denPos (small.trans overflowBound_lt)
  have gridSmall : gridExponent num den ≤ greatestExponent := by
    simp only [gridExponent, greatestExponent, precision, leastExponent]
    omega
  rw [ofRatio_eq negative numPos]
  split
  next carries =>
    -- On the last grid the mantissa cannot reach `2 ^ 53`.
    have notLast : gridExponent num den ≠ greatestExponent := by
      intro gridEq
      have rounded := roundedMantissa_le num denPos
      rw [gridEq, carries] at rounded
      have scaled : (num / den : ℚ) / 2 ^ greatestExponent < 2 ^ 53 - 1 / 2 := by
        rw [div_lt_iff₀ (two_zpow_pos _)]
        exact small.trans_eq overflowBound_cast
      push_cast at rounded
      linarith
    rw [if_neg (by omega)]
    exact ⟨_, _, rfl⟩
  next =>
    rw [if_neg (not_lt.mpr gridSmall)]
    exact ⟨_, _, rfl⟩

/-- A number as the format holds it: a finite number is normal or has the least exponent. -/
def Proper : Binary64 → Prop
  | finite _ mantissa exponent =>
      mantissa < 2 ^ 53 ∧ leastExponent ≤ exponent ∧ exponent ≤ greatestExponent ∧
        (2 ^ 52 ≤ mantissa ∨ exponent = leastExponent)
  | infinite _ | nan => True

instance : DecidablePred Proper
  | finite _ mantissa exponent =>
      inferInstanceAs (Decidable (mantissa < 2 ^ 53 ∧ leastExponent ≤ exponent ∧
        exponent ≤ greatestExponent ∧ (2 ^ 52 ≤ mantissa ∨ exponent = leastExponent)))
  | infinite _ | nan => .isTrue trivial

/-! ## Products with powers of ten -/

theorem ratio_snd_pos (x : Binary64) : 0 < x.ratio.2 := by
  cases x with
  | finite negative mantissa exponent => exact scaleDown_snd_pos mantissa Nat.one_pos _
  | infinite negative => exact Nat.one_pos
  | nan => exact Nat.one_pos

theorem gridExponent_natural {n : Nat} (positive : 0 < n) :
    gridExponent n 1 = (n.log2 : Int) - 52 := by
  have bounds := log2_bounds positive
  have below : floorLog n 1 < n.log2 + 1 :=
    floorLog_lt_of_lt positive Nat.one_pos (by simpa using bounds.2)
  have above : (n.log2 : Int) ≤ floorLog n 1 :=
    le_floorLog_of_le positive Nat.one_pos (by simpa using bounds.1)
  simp only [gridExponent, precision, leastExponent]
  omega

/-- The middle between the two largest finite numbers. -/
def safeBound : Nat := (2 ^ 54 - 3) * 2 ^ 970

/-- The largest significand of 58 bits whose product with a power of ten stays within the bound. -/
def safeSignificand (k : Nat) : Nat := min (safeBound / 10 ^ k) (2 ^ 58)

/-- Whether a power of ten can be rounded, and its product with its largest significand, each
rounded up by half a unit, is still finite. -/
def powerIsSafe (k : Nat) : Bool :=
  match ofDecimal false 1 k with
  | finite negative mantissa exponent =>
      let (num, den) := (finite negative mantissa exponent).ratio
      (2 ^ 53 * safeSignificand k + 2 ^ (safeSignificand k).log2) * num <
        2 ^ 53 * overflowBound * den
  | _ => false

theorem powerIsSafe_of_lt : ∀ k < 309, powerIsSafe k = true := by decide +kernel

/-- Every power of ten up to the largest is rounded to a finite number, whose product with its
largest significand stays finite. -/
theorem exists_ofDecimal_safe {k : Nat} (small : k < 309) :
    ∃ negative mantissa exponent, ofDecimal false 1 k = finite negative mantissa exponent ∧
      (2 ^ 53 * (safeSignificand k : ℚ) + 2 ^ (safeSignificand k).log2) *
        (finite negative mantissa exponent).magnitude < 2 ^ 53 * overflowBound := by
  have safe := powerIsSafe_of_lt k small
  rw [powerIsSafe] at safe
  split at safe
  next negative mantissa exponent powerEq =>
    refine ⟨negative, mantissa, exponent, powerEq, ?_⟩
    have denPos : (0 : ℚ) < (finite negative mantissa exponent).ratio.2 := by
      exact_mod_cast ratio_snd_pos _
    rw [magnitude, fraction, mul_div_assoc', div_lt_iff₀ denPos]
    exact_mod_cast of_decide_eq_true safe
  next => cases safe

theorem lt_of_pow_le_safeBound {k : Nat} (small : 10 ^ k ≤ safeBound) : k < 309 := by
  have logLt : Nat.log 10 safeBound < 309 := by decide +kernel
  exact (Nat.le_log_of_pow_le (Nat.one_lt_succ_succ 8) small).trans_lt logLt

theorem ofInt_natural (n : Nat) : ofInt n = ofRatio false n 1 := by
  have nonneg : decide ((n : Int) < 0) = false := decide_eq_false (by omega)
  rw [ofInt, nonneg, Int.natAbs_natCast]

/-- A natural number is rounded up by at most one in 53 binary digits. -/
theorem magnitude_ofInt_le {n bound : Nat} (positive : 0 < n) (small : n ≤ bound) :
    2 ^ 53 * (ofInt n).magnitude ≤ 2 ^ 53 * bound + 2 ^ bound.log2 := by
  have rounded := magnitude_ofRatio_le false positive Nat.one_pos
  rw [← ofInt_natural, gridExponent_natural positive, Nat.cast_one, div_one] at rounded
  have logLe : n.log2 ≤ bound.log2 :=
    (Nat.le_log2 (positive.trans_le small).ne').mpr ((Nat.log2_self_le positive.ne').trans small)
  have smallCast : (n : ℚ) ≤ bound := by exact_mod_cast small
  have halves : (2 : ℚ) ^ 53 * 2 ^ ((n.log2 : Int) - 52 - 1) = 2 ^ n.log2 := by
    rw [← zpow_natCast, ← zpow_natCast, ← zpow_add₀ two_ne_zero]
    congr 1
    push_cast
    ring
  calc (2 : ℚ) ^ 53 * (ofInt n).magnitude
      ≤ 2 ^ 53 * ((n : ℚ) + 2 ^ ((n.log2 : Int) - 52 - 1)) := by gcongr
    _ = 2 ^ 53 * (n : ℚ) + 2 ^ n.log2 := by rw [mul_add, halves]
    _ ≤ 2 ^ 53 * (bound : ℚ) + 2 ^ bound.log2 := by
        gcongr
        exact one_le_two

/-- A finite number times a safe power of ten is the rounded product. -/
theorem timesPowerOfTen_finite {k : Nat} (negative : Bool) (mantissa : Nat) (exponent : Int)
    {negative' : Bool} {mantissa' : Nat} {exponent' : Int}
    (powerEq : ofDecimal false 1 k = finite negative' mantissa' exponent') :
    (finite negative mantissa exponent).timesPowerOfTen k =
      ofRatio negative
        ((finite negative mantissa exponent).ratio.1 *
          (finite negative' mantissa' exponent').ratio.1)
        ((finite negative mantissa exponent).ratio.2 *
          (finite negative' mantissa' exponent').ratio.2) := by
  simp only [timesPowerOfTen, powerEq]

theorem fraction_mul (x y : Binary64) :
    ((x.ratio.1 * y.ratio.1 : Nat) : ℚ) / (x.ratio.2 * y.ratio.2 : Nat) =
      x.magnitude * y.magnitude := by
  rw [magnitude, magnitude, fraction, fraction, div_mul_div_comm]
  push_cast
  rfl

/-- Reading a significand of 58 bits with a power of ten gives a finite number as long as the
decimal is not larger than the middle between the two largest finite numbers.  The power of ten,
the significand and their product are each rounded. -/
theorem isInfinite_timesPowerOfTen {significand k : Nat} (positive : 0 < significand)
    (bits : significand ≤ 2 ^ 58) (small : significand * 10 ^ k ≤ safeBound) :
    ((ofInt significand).timesPowerOfTen k).isInfinite = false := by
  have kSmall : k < 309 := lt_of_pow_le_safeBound ((Nat.le_mul_of_pos_left _ positive).trans small)
  have significandSmall : ((significand : ℚ) / (1 : Nat)) < overflowBound := by
    have bound : significand < overflowBound := bits.trans_lt (by decide +kernel)
    rw [Nat.cast_one, div_one]
    exact_mod_cast bound
  obtain ⟨mantissa, exponent, significandEq⟩ :=
    exists_ofRatio_eq_finite false significand Nat.one_pos significandSmall
  have withinSafe : significand ≤ safeSignificand k :=
    le_min ((Nat.le_div_iff_mul_le (Nat.pow_pos (Nat.succ_pos 9))).mpr small) bits
  have rounded := magnitude_ofInt_le positive withinSafe
  obtain ⟨negative', mantissa', exponent', powerEq, safe⟩ := exists_ofDecimal_safe kSmall
  rw [ofInt_natural, significandEq] at rounded ⊢
  have product : (finite false mantissa exponent).magnitude *
      (finite negative' mantissa' exponent').magnitude < overflowBound := by
    have scaled := mul_le_mul_of_nonneg_right rounded
      (magnitude_nonneg (finite negative' mantissa' exponent'))
    rw [mul_assoc] at scaled
    exact (mul_lt_mul_iff_right₀ (pow_pos two_pos 53)).mp (scaled.trans_lt safe)
  rw [← fraction_mul] at product
  obtain ⟨m, e, productEq⟩ := exists_ofRatio_eq_finite false _
    (Nat.mul_pos (ratio_snd_pos _) (ratio_snd_pos _)) product
  rw [timesPowerOfTen_finite false mantissa exponent powerEq, productEq]
  rfl

end Binary64

end RestPlugin.Number
