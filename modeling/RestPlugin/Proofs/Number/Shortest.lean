import Mathlib.Tactic.LinearCombination
import RestPlugin.Number.Shortest
import RestPlugin.Proofs.Number.Binary64

/-!
# The decimal of a number

Seventeen digits are enough: the search for the shortest decimal of a finite number always ends on a
grid, with a decimal that lies in the interval of the numbers that round to it.  So the decimal is
not larger than the middle between the number and its successor.
-/

namespace RestPlugin.Number

open Binary64

/-! ## Powers of ten -/

theorem ten_zpow_pos (k : Int) : (0 : ℚ) < 10 ^ k := zpow_pos (by norm_num) k

theorem ten_zpow_le_ten_zpow {k l : Int} (le : k ≤ l) : (10 : ℚ) ^ k ≤ 10 ^ l :=
  zpow_le_zpow_right₀ (by norm_num) le

/-- The ratio of a power of ten is the power. -/
theorem fraction_powerOfTen (k : Int) : fraction (powerOfTen k) = 10 ^ k := by
  unfold powerOfTen fraction
  split
  next nonneg =>
    obtain ⟨n, rfl⟩ := Int.eq_ofNat_of_zero_le nonneg
    simp
  next negative =>
    obtain ⟨n, rfl⟩ : ∃ n : Nat, k = -n := ⟨(-k).toNat, by omega⟩
    simp [zpow_neg]

theorem powerOfTen_pos (k : Int) : 0 < (powerOfTen k).1 ∧ 0 < (powerOfTen k).2 := by
  unfold powerOfTen
  split
  · exact ⟨Nat.pow_pos (by decide), Nat.one_pos⟩
  · exact ⟨Nat.one_pos, Nat.pow_pos (by decide)⟩

theorem two_zpow_eq_quarters (e : Int) : (2 : ℚ) ^ e = 4 * 2 ^ (e - 2) := by
  rw [two_zpow_sub]
  norm_num
  ring

/-- The value of a decimal. -/
def Decimal.value (decimal : Decimal) : ℚ := decimal.digits * 10 ^ decimal.exponent

/-! ## Intervals -/

namespace Interval

/-- A multiple of the unit of an interval as a rational number. -/
def measure (range : Interval) (n : Nat) : ℚ := n / range.unit

/-- An interval around its value. -/
structure Proper (range : Interval) : Prop where
  unit_pos : 0 < range.unit
  low_lt : range.low < range.value
  lt_high : range.value < range.high

theorem measure_lt {range : Interval} (positive : 0 < range.unit) {a b : Nat} (less : a < b) :
    range.measure a < range.measure b := by
  have positiveCast : (0 : ℚ) < range.unit := by exact_mod_cast positive
  have lessCast : (a : ℚ) < b := by exact_mod_cast less
  exact div_lt_div_of_pos_right lessCast positiveCast

/-- Comparing a decimal with an end of an interval, without fractions. -/
theorem mul_le_iff (range : Interval) (positive : 0 < range.unit) (n digits : Nat) (k : Int) :
    n * (powerOfTen k).2 ≤ digits * (powerOfTen k).1 * range.unit ↔
      range.measure n ≤ digits * 10 ^ k := by
  have positiveCast : (0 : ℚ) < range.unit := by exact_mod_cast positive
  have denPos : (0 : ℚ) < (powerOfTen k).2 := by exact_mod_cast (powerOfTen_pos k).2
  rw [← fraction_powerOfTen, fraction, measure, mul_div_assoc', div_le_div_iff₀ positiveCast denPos]
  exact_mod_cast Iff.rfl

/-- Comparing digits with a boundary on whole numbers is comparing their values. -/
theorem le_mul_iff (range : Interval) (positive : 0 < range.unit) (n digits : Nat) (k : Int) :
    digits * (powerOfTen k).1 * range.unit ≤ n * (powerOfTen k).2 ↔
      digits * 10 ^ k ≤ range.measure n := by
  have positiveCast : (0 : ℚ) < range.unit := by exact_mod_cast positive
  have denPos : (0 : ℚ) < (powerOfTen k).2 := by exact_mod_cast (powerOfTen_pos k).2
  rw [← fraction_powerOfTen, fraction, measure, mul_div_assoc', div_le_div_iff₀ denPos positiveCast]
  exact_mod_cast Iff.rfl

variable {range : Interval} {tie : Tie}

theorem Proper.le_high_of_contains (proper : range.Proper) {digits : Nat} {k : Int}
    (contained : range.contains digits (powerOfTen k).1 (powerOfTen k).2 = true) :
    digits * 10 ^ k ≤ range.measure range.high := by
  rw [← range.le_mul_iff proper.unit_pos]
  simp only [contains] at contained
  split at contained
  · simp only [Bool.and_eq_true, decide_eq_true_eq] at contained
    exact contained.2
  · simp only [Bool.and_eq_true, decide_eq_true_eq] at contained
    exact contained.2.le

/-- A decimal outside an interval lies at its ends or beyond. -/
theorem Proper.outside (proper : range.Proper) {digits : Nat} {k : Int}
    (missed : range.contains digits (powerOfTen k).1 (powerOfTen k).2 = false) :
    digits * 10 ^ k ≤ range.measure range.low ∨ range.measure range.high ≤ digits * 10 ^ k := by
  rw [← range.le_mul_iff proper.unit_pos, ← range.mul_le_iff proper.unit_pos]
  simp only [contains] at missed
  split at missed
  · simp only [Bool.and_eq_false_iff, decide_eq_false_iff_not] at missed
    omega
  · simp only [Bool.and_eq_false_iff, decide_eq_false_iff_not] at missed
    omega

/-! ## Grids -/

/-- The multiple of the step below the value of an interval. -/
def below (range : Interval) (k : Int) : Nat :=
  range.value * (powerOfTen k).2 / ((powerOfTen k).1 * range.unit)

theorem Proper.below_bounds (proper : range.Proper) (k : Int) :
    range.below k * 10 ^ k ≤ range.measure range.value ∧
      range.measure range.value < (range.below k + 1 : Nat) * 10 ^ k := by
  have stepPos : 0 < (powerOfTen k).1 * range.unit :=
    Nat.mul_pos (powerOfTen_pos k).1 proper.unit_pos
  constructor
  · rw [← range.le_mul_iff proper.unit_pos, mul_assoc]
    exact Nat.div_mul_le_self _ _
  · rw [← not_le, ← range.le_mul_iff proper.unit_pos, not_le, mul_assoc]
    exact Nat.lt_mul_of_div_lt (Nat.lt_succ_self _) stepPos

/-- A grid gives the multiple above or below the value if it lies in the interval, and nothing if
neither does. -/
theorem onGrid_cases (range : Interval) (tie : Tie) (k : Int) :
    (range.onGrid tie k = some ⟨range.below k + 1, k⟩ ∧
      range.contains (range.below k + 1) (powerOfTen k).1 (powerOfTen k).2 = true) ∨
    (range.onGrid tie k = some ⟨range.below k, k⟩ ∧ 0 < range.below k ∧
      range.contains (range.below k) (powerOfTen k).1 (powerOfTen k).2 = true) ∨
    (range.onGrid tie k = none ∧
      (0 < range.below k →
        range.contains (range.below k) (powerOfTen k).1 (powerOfTen k).2 = false) ∧
      range.contains (range.below k + 1) (powerOfTen k).1 (powerOfTen k).2 = false) := by
  -- Which of two fitting multiples is taken does not matter here.
  have shape : ∃ choice : Bool, range.onGrid tie k =
      let fitsBelow := decide (0 < range.below k) &&
        range.contains (range.below k) (powerOfTen k).1 (powerOfTen k).2
      let fitsAbove := range.contains (range.below k + 1) (powerOfTen k).1 (powerOfTen k).2
      if (if fitsBelow && fitsAbove then choice else fitsAbove) then some ⟨range.below k + 1, k⟩
      else if fitsBelow then some ⟨range.below k, k⟩
      else none := ⟨_, rfl⟩
  obtain ⟨choice, eq⟩ := shape
  rw [eq]
  by_cases positive : 0 < range.below k <;> cases choice <;>
    cases range.contains (range.below k) (powerOfTen k).1 (powerOfTen k).2 <;>
    cases range.contains (range.below k + 1) (powerOfTen k).1 (powerOfTen k).2 <;>
    simp [positive]

/-- What a grid gives is a positive multiple of its step that lies in the interval. -/
theorem onGrid_eq_some {k : Int} {decimal : Decimal} (found : range.onGrid tie k = some decimal) :
    decimal.exponent = k ∧ 0 < decimal.digits ∧
      range.contains decimal.digits (powerOfTen k).1 (powerOfTen k).2 = true := by
  rcases range.onGrid_cases tie k with ⟨eq, fits⟩ | ⟨eq, positive, fits⟩ | ⟨eq, -⟩
  · rw [eq] at found
    cases found
    exact ⟨rfl, Nat.succ_pos _, fits⟩
  · rw [eq] at found
    cases found
    exact ⟨rfl, positive, fits⟩
  · rw [eq] at found
    cases found

/-- A grid that gives nothing is at least as wide as the interval. -/
theorem Proper.width_le_of_onGrid_eq_none (proper : range.Proper) {k : Int}
    (missed : range.onGrid tie k = none) :
    range.measure range.high - range.measure range.low ≤ 10 ^ k := by
  obtain ⟨belowLe, ltAbove⟩ := proper.below_bounds k
  have lowLt := measure_lt proper.unit_pos proper.low_lt
  have ltHigh := measure_lt proper.unit_pos proper.lt_high
  have lowNonneg : 0 ≤ range.measure range.low := by
    rw [measure]
    positivity
  rcases range.onGrid_cases tie k with ⟨eq, -⟩ | ⟨eq, -, -⟩ | ⟨-, missedBelow, missedAbove⟩
  · rw [eq] at missed
    cases missed
  · rw [eq] at missed
    cases missed
  · have belowLow : (range.below k : ℚ) * 10 ^ k ≤ range.measure range.low := by
      rcases Nat.eq_zero_or_pos (range.below k) with zero | positive
      · rw [zero, Nat.cast_zero, zero_mul]
        exact lowNonneg
      · rcases proper.outside (missedBelow positive) with atLow | atHigh
        · exact atLow
        · linarith
    have aboveHigh : range.measure range.high ≤ (range.below k + 1 : Nat) * 10 ^ k := by
      rcases proper.outside missedAbove with atLow | atHigh
      · linarith
      · exact atHigh
    have next : ((range.below k + 1 : Nat) : ℚ) * 10 ^ k = range.below k * 10 ^ k + 10 ^ k := by
      push_cast
      ring
    linarith

/-! ## The search -/

/-- The search takes its decimal from the first grid that gives one. -/
theorem search_eq_onGrid {count : Nat} {exponent : Int} {step : Nat} (inRange : step < count)
    (found : (range.onGrid tie (exponent - step)).isSome) :
    ∃ k, exponent - step ≤ k ∧ k ≤ exponent ∧
      range.onGrid tie k = some (range.search tie count exponent) := by
  induction count generalizing exponent step with
  | zero => exact absurd inRange (Nat.not_lt_zero step)
  | succ count ih =>
      cases here : range.onGrid tie exponent with
      | some decimal =>
          exact ⟨exponent, by omega, le_rfl, by simp only [here, search]⟩
      | none =>
          cases step with
          | zero =>
              rw [Int.natCast_zero, sub_zero, here] at found
              cases found
          | succ step =>
              have later : exponent - (step + 1 : Nat) = exponent - 1 - step := by omega
              rw [later] at found
              obtain ⟨k, atLeast, atMost, eq⟩ := ih (Nat.lt_of_succ_lt_succ inRange) found
              exact ⟨k, by omega, by omega, by simp only [search, here, eq]⟩

/-! ## The interval of a number -/

/-- The distance from a number to the lower end of its interval, in quarters of a unit. -/
def lowerGap (mantissa : Nat) (exponent : Int) : Nat :=
  if mantissa == 2 ^ 52 && leastExponent < exponent then 1 else 2

theorem measure_of (mantissa n : Nat) (exponent : Int) :
    (Interval.of mantissa exponent).measure (n * (scaleDown 1 1 (2 - exponent)).1) =
      n * 2 ^ (exponent - 2) := by
  have scaled := fraction_scaleDown 1 1 (2 - exponent)
  have unitEq : (Interval.of mantissa exponent).unit = (scaleDown 1 1 (2 - exponent)).2 := rfl
  rw [fraction, Nat.cast_one, div_one, one_div, ← zpow_neg, neg_sub] at scaled
  rw [measure, unitEq, Nat.cast_mul, mul_div_assoc, scaled]

theorem measure_low_of (mantissa : Nat) (exponent : Int) :
    (Interval.of mantissa exponent).measure (Interval.of mantissa exponent).low =
      (4 * mantissa - lowerGap mantissa exponent : Nat) * 2 ^ (exponent - 2) :=
  measure_of mantissa _ exponent

theorem measure_high_of (mantissa : Nat) (exponent : Int) :
    (Interval.of mantissa exponent).measure (Interval.of mantissa exponent).high =
      (4 * mantissa + 2 : Nat) * 2 ^ (exponent - 2) :=
  measure_of mantissa _ exponent

theorem proper_of {mantissa : Nat} (positive : 0 < mantissa) (exponent : Int) :
    (Interval.of mantissa exponent).Proper := by
  have factorPos : 0 < (scaleDown 1 1 (2 - exponent)).1 := by
    unfold scaleDown
    split
    · exact Nat.one_pos
    · exact Nat.mul_pos Nat.one_pos (Nat.pow_pos Nat.two_pos)
  constructor
  · exact scaleDown_snd_pos 1 Nat.one_pos _
  · refine Nat.mul_lt_mul_of_pos_right ?_ factorPos
    split <;> omega
  · exact Nat.mul_lt_mul_of_pos_right (by omega) factorPos

/-- The interval of a number is wider than its last of seventeen decimal digits. -/
theorem lt_width_of {mantissa : Nat} (positive : 0 < mantissa) (bits : mantissa < 2 ^ 53)
    (exponent : Int) {top : Int} (topLe : (10 : ℚ) ^ top ≤ mantissa * 2 ^ exponent) :
    (10 : ℚ) ^ (top - 16) <
      (Interval.of mantissa exponent).measure (Interval.of mantissa exponent).high -
      (Interval.of mantissa exponent).measure (Interval.of mantissa exponent).low := by
  have widthEq :
      (4 * mantissa + 2 : Nat) - ((4 * mantissa - lowerGap mantissa exponent : Nat) : ℚ) =
        2 + lowerGap mantissa exponent := by
    have gapLe : lowerGap mantissa exponent ≤ 4 * mantissa := by
      unfold lowerGap
      split <;> omega
    push_cast [gapLe]
    ring
  -- In quarters of a unit, a sixteenth decimal digit is less than three and less than four
  -- unless the mantissa is a power of two.
  have digit : (4 * mantissa : ℚ) / 10 ^ (16 : Nat) < 2 + lowerGap mantissa exponent := by
    rw [div_lt_iff₀ (by positivity)]
    unfold lowerGap
    split
    next power =>
      have mantissaEq : mantissa = 2 ^ 52 := by
        simp only [Bool.and_eq_true, beq_iff_eq] at power
        exact power.1
      rw [mantissaEq]
      norm_num
    next =>
      have bitsCast : (mantissa : ℚ) < 2 ^ 53 := by exact_mod_cast bits
      norm_num
      linarith
  rw [measure_high_of, measure_low_of, ← sub_mul, widthEq]
  calc (10 : ℚ) ^ (top - 16) = 10 ^ top / 10 ^ (16 : Nat) := by
        rw [zpow_sub₀ (by norm_num)]
        norm_num
    _ ≤ mantissa * 2 ^ exponent / 10 ^ (16 : Nat) := by gcongr
    _ = 4 * mantissa / 10 ^ (16 : Nat) * 2 ^ (exponent - 2) := by
        rw [two_zpow_eq_quarters exponent]
        ring
    _ < (2 + lowerGap mantissa exponent) * 2 ^ (exponent - 2) :=
        mul_lt_mul_of_pos_right digit (two_zpow_pos _)

end Interval

/-! ## Powers of two among the powers of ten -/

section Logarithm

variable {n d : Nat} (lower : (10 : ℚ) ^ n ≤ 2 ^ d) (upper : (2 : ℚ) ^ d ≤ 10 ^ (n + 1))
include lower upper

theorem two_pow_bounds (m : Nat) :
    (10 : ℚ) ^ (n * m : Int) ≤ (2 ^ m) ^ d ∧ ((2 : ℚ) ^ m) ^ d ≤ 10 ^ ((n + 1) * m : Int) := by
  have swap : ((2 : ℚ) ^ m) ^ d = (2 ^ d) ^ m := pow_right_comm 2 m d
  rw [swap, zpow_mul, zpow_mul, zpow_natCast, zpow_natCast, zpow_natCast, ← Nat.cast_succ,
    zpow_natCast]
  constructor
  · exact pow_le_pow_left₀ (by positivity) lower m
  · exact pow_le_pow_left₀ (by positivity) upper m

/-- Bounds for one power of two locate all others: the error grows with the exponent. -/
theorem two_zpow_bounds (log : Int) :
    (10 : ℚ) ^ ((n + 1) * log - |log|) ≤ (2 ^ log) ^ d ∧
      ((2 : ℚ) ^ log) ^ d ≤ 10 ^ ((n + 1) * log + |log|) := by
  obtain ⟨m, rfl | rfl⟩ := Int.eq_nat_or_neg log
  · obtain ⟨least, greatest⟩ := two_pow_bounds lower upper m
    rw [Nat.abs_cast, zpow_natCast]
    constructor
    · have exponent : (n + 1) * m - m = (n * m : Int) := by ring
      rw [exponent]
      exact least
    · exact greatest.trans (ten_zpow_le_ten_zpow (by omega))
  · obtain ⟨least, greatest⟩ := two_pow_bounds lower upper m
    rw [abs_neg, Nat.abs_cast, zpow_neg, zpow_natCast, inv_pow]
    constructor
    · calc (10 : ℚ) ^ ((n + 1) * -(m : Int) - m) ≤ 10 ^ (-((n + 1) * m : Int)) :=
            ten_zpow_le_ten_zpow (by rw [mul_neg]; omega)
        _ = (10 ^ ((n + 1) * m : Int))⁻¹ := zpow_neg 10 _
        _ ≤ _ := inv_anti₀ (by positivity) greatest
    · calc (((2 : ℚ) ^ m) ^ d)⁻¹ ≤ (10 ^ (n * m : Int))⁻¹ := inv_anti₀ (ten_zpow_pos _) least
        _ = 10 ^ ((n + 1) * -(m : Int) + m) := by
            rw [← zpow_neg]
            congr 1
            ring

end Logarithm

/-- Two to the power of 100000 has 30103 digits. -/
theorem ten_pow_bounds : (10 : ℚ) ^ 30102 ≤ 2 ^ 100000 ∧ (2 : ℚ) ^ 100000 ≤ 10 ^ (30102 + 1) := by
  exact_mod_cast (by decide +kernel : 10 ^ 30102 ≤ 2 ^ 100000 ∧ 2 ^ 100000 ≤ 10 ^ (30102 + 1))

theorem ten_zpow_le_two_zpow {log e : Int} (small : e * 100000 ≤ 30103 * log - |log|) :
    (10 : ℚ) ^ e ≤ 2 ^ log := by
  have least := (two_zpow_bounds ten_pow_bounds.1 ten_pow_bounds.2 log).1
  have raised : ((10 : ℚ) ^ e) ^ 100000 ≤ (2 ^ log) ^ 100000 := by
    rw [← zpow_natCast, ← zpow_mul]
    exact (ten_zpow_le_ten_zpow small).trans least
  exact le_of_pow_le_pow_left₀ (by decide) (two_zpow_pos log).le raised

theorem two_zpow_le_ten_zpow {log e : Int} (large : 30103 * log + |log| ≤ e * 100000) :
    (2 : ℚ) ^ log ≤ 10 ^ e := by
  have greatest := (two_zpow_bounds ten_pow_bounds.1 ten_pow_bounds.2 log).2
  have raised : ((2 : ℚ) ^ log) ^ 100000 ≤ (10 ^ e) ^ 100000 := by
    rw [← zpow_natCast (10 ^ e), ← zpow_mul]
    exact greatest.trans (ten_zpow_le_ten_zpow large)
  exact le_of_pow_le_pow_left₀ (by decide) (ten_zpow_pos e).le raised

/-! ## The decimal logarithm -/

/-- The search finds the logarithm if it starts at or above it and goes far enough. -/
theorem floorLogTen_bounds {num den : Nat} (denPos : 0 < den) (count : Nat) {e : Int}
    (above : (num / den : ℚ) < 10 ^ (e + 1)) (below : (10 : ℚ) ^ (e + 1 - count) ≤ num / den) :
    (10 : ℚ) ^ floorLogTen num den count e ≤ num / den ∧
      (num / den : ℚ) < 10 ^ (floorLogTen num den count e + 1) := by
  induction count generalizing e with
  | zero =>
      rw [Int.natCast_zero, sub_zero] at below
      exact absurd above (not_lt.mpr below)
  | succ count ih =>
      have denCast : (0 : ℚ) < den := by exact_mod_cast denPos
      have powerDen : (0 : ℚ) < (powerOfTen e).2 := by exact_mod_cast (powerOfTen_pos e).2
      have decided :
          (powerOfTen e).1 * den ≤ num * (powerOfTen e).2 ↔ (10 : ℚ) ^ e ≤ num / den := by
        rw [← fraction_powerOfTen, fraction, div_le_div_iff₀ powerDen denCast]
        exact_mod_cast Iff.rfl
      simp only [floorLogTen]
      split
      next atMost => exact ⟨decided.mp atMost, above⟩
      next tooLarge =>
        apply ih
        · rw [sub_add_cancel]
          exact not_le.mp fun atMost => tooLarge (decided.mpr atMost)
        · have shift : e - 1 + 1 - (count : Int) = e + 1 - (count + 1 : Nat) := by
            push_cast
            ring
          rw [shift]
          exact below

/-- The first guess for the decimal logarithm of a number with a given binary one. -/
def guessLogTen (log : Int) : Int := log * 30103 / 100000 + 1

/-- The guess is at most three too large and not too small. -/
theorem guessLogTen_bounds {log : Int} (least : -1074 ≤ log) (greatest : log ≤ 1023) :
    (10 : ℚ) ^ (guessLogTen log - 3) ≤ 2 ^ log ∧
      (2 : ℚ) ^ (log + 1) ≤ 10 ^ (guessLogTen log + 1) := by
  have size : |log| ≤ 1074 := abs_le.mpr ⟨least, by omega⟩
  have nextSize : |log + 1| ≤ 1074 := abs_le.mpr ⟨by omega, by omega⟩
  rw [guessLogTen]
  constructor
  · apply ten_zpow_le_two_zpow
    omega
  · apply two_zpow_le_ten_zpow
    omega

/-! ## Trailing zeros -/

/-- Stripping zeros keeps the value and does not add digits. -/
theorem Decimal.stripZeros_spec (count : Nat) (decimal : Decimal) (positive : 0 < decimal.digits) :
    (decimal.stripZeros count).value = decimal.value ∧
      0 < (decimal.stripZeros count).digits ∧
      (decimal.stripZeros count).digits ≤ decimal.digits ∧
      decimal.exponent ≤ (decimal.stripZeros count).exponent ∧
      (decimal.stripZeros count).exponent ≤ decimal.exponent + count := by
  induction count generalizing decimal with
  | zero => simp [stripZeros, positive]
  | succ count ih =>
      simp only [stripZeros]
      split
      next divisible =>
        simp only [Bool.and_eq_true, bne_iff_ne, beq_iff_eq] at divisible
        have tenTimes : decimal.digits / 10 * 10 = decimal.digits := by omega
        obtain ⟨valueEq, digitsPos, digitsLe, exponentGe, exponentLe⟩ :=
          ih ⟨decimal.digits / 10, decimal.exponent + 1⟩ (show 0 < decimal.digits / 10 by omega)
        simp only at digitsLe exponentGe exponentLe
        refine ⟨valueEq.trans ?_, digitsPos, by omega, by omega, by push_cast; omega⟩
        have tenTimesCast : ((decimal.digits / 10 : Nat) : ℚ) * 10 = decimal.digits := by
          exact_mod_cast tenTimes
        rw [value, value, zpow_add_one₀ (by norm_num), ← tenTimesCast]
        ring
      next => exact ⟨rfl, positive, le_rfl, le_rfl, by omega⟩

/-! ## The shortest decimal -/

/-- The decimal exponent of the first digit of a number. -/
def leadingExponent (mantissa : Nat) (exponent : Int) : Int :=
  let (num, den) := (Binary64.finite false mantissa exponent).ratio
  floorLogTen num den 4 (guessLogTen (floorLog num den))

/-- No positive number is below the least one. -/
theorem two_zpow_le_dyadic {mantissa : Nat} {exponent : Int} (positive : 0 < mantissa)
    (least : -1074 ≤ exponent) : (2 : ℚ) ^ (-1074 : Int) ≤ mantissa * 2 ^ exponent := by
  have positiveCast : (1 : ℚ) ≤ mantissa := by exact_mod_cast positive
  calc (2 : ℚ) ^ (-1074 : Int) ≤ 2 ^ exponent := zpow_le_zpow_right₀ one_le_two least
    _ ≤ mantissa * 2 ^ exponent := le_mul_of_one_le_left (two_zpow_pos _).le positiveCast

/-- No number of 53 bits reaches the first power of two that is not finite. -/
theorem dyadic_lt_two_zpow {mantissa : Nat} {exponent : Int} (bits : mantissa < 2 ^ 53)
    (greatest : exponent ≤ 971) : (mantissa : ℚ) * 2 ^ exponent < 2 ^ (1024 : Int) := by
  have bitsCast : (mantissa : ℚ) < 2 ^ (53 : Int) := by exact_mod_cast bits
  calc (mantissa : ℚ) * 2 ^ exponent < 2 ^ (53 : Int) * 2 ^ exponent :=
        mul_lt_mul_of_pos_right bitsCast (two_zpow_pos _)
    _ ≤ 2 ^ (53 : Int) * 2 ^ (971 : Int) :=
        mul_le_mul_of_nonneg_left (zpow_le_zpow_right₀ one_le_two greatest) (two_zpow_pos _).le
    _ = 2 ^ (1024 : Int) := by rw [← zpow_add₀ two_ne_zero]; rfl

/-- The logarithms that the search for a decimal starts from are right for every finite number. -/
theorem leadingExponent_bounds {mantissa : Nat} {exponent : Int} (positive : 0 < mantissa)
    (bits : mantissa < 2 ^ 53) (least : -1074 ≤ exponent) (greatest : exponent ≤ 971) :
    (10 : ℚ) ^ leadingExponent mantissa exponent ≤ mantissa * 2 ^ exponent ∧
      mantissa * 2 ^ exponent < (10 : ℚ) ^ (leadingExponent mantissa exponent + 1) ∧
      -1075 ≤ leadingExponent mantissa exponent ∧ leadingExponent mantissa exponent < 1024 := by
  have ratioEq := magnitude_finite false mantissa exponent
  rw [magnitude, fraction] at ratioEq
  have denPos := ratio_snd_pos (.finite false mantissa exponent)
  have numPos : 0 < (Binary64.finite false mantissa exponent).ratio.1 := by
    simp only [ratio, scaleDown]
    split
    · exact positive
    · exact Nat.mul_pos positive (Nat.pow_pos Nat.two_pos)
  have atLeast := two_zpow_le_dyadic positive least
  have lessThan := dyadic_lt_two_zpow bits greatest
  obtain ⟨logLe, ltLog⟩ := floorLog_bounds numPos denPos
  have guessed := guessLogTen_bounds
    (le_floorLog_of_le numPos denPos (by rw [ratioEq]; exact atLeast))
    (Int.lt_add_one_iff.mp (floorLog_lt_of_lt numPos denPos (by rw [ratioEq]; exact lessThan)))
  have started : guessLogTen (floorLog (finite false mantissa exponent).ratio.1
      (finite false mantissa exponent).ratio.2) + 1 - (4 : Nat) =
      guessLogTen (floorLog (finite false mantissa exponent).ratio.1
        (finite false mantissa exponent).ratio.2) - 3 := by
    push_cast
    ring
  obtain ⟨topLe, ltTop⟩ := floorLogTen_bounds denPos 4
    (ltLog.trans_le guessed.2) (by rw [started]; exact guessed.1.trans logLe)
  rw [ratioEq] at topLe ltTop
  refine ⟨topLe, ltTop, ?_, ?_⟩
  · by_contra small
    have tiny : (10 : ℚ) ^ (leadingExponent mantissa exponent + 1) ≤ 2 ^ (-1074 : Int) :=
      ten_zpow_le_two_zpow (by norm_num; omega)
    exact absurd (ltTop.trans_le tiny) (not_lt.mpr atLeast)
  · have huge : (10 : ℚ) ^ leadingExponent mantissa exponent < 10 ^ (1024 : Int) :=
      (topLe.trans_lt lessThan).trans_le (two_zpow_le_ten_zpow (by norm_num))
    exact (zpow_lt_zpow_iff_right₀ (by norm_num)).mp huge

/-- A decimal in the interval of a number that is a multiple of its seventeenth digit has a
significand of 58 bits. -/
theorem digits_le {digits mantissa : Nat} {exponent top k : Int} (positive : 0 < mantissa)
    (atLeast : top - 16 ≤ k) (ltTop : mantissa * 2 ^ exponent < (10 : ℚ) ^ (top + 1))
    (valueLe : digits * (10 : ℚ) ^ k ≤ (4 * mantissa + 2 : Nat) * 2 ^ (exponent - 2)) :
    digits ≤ 2 ^ 58 := by
  have positiveCast : (1 : ℚ) ≤ mantissa := by exact_mod_cast positive
  have gridLe : (10 : ℚ) ^ (top - 16) ≤ 10 ^ k := ten_zpow_le_ten_zpow atLeast
  have topEq : (10 : ℚ) ^ (top + 1) = 10 ^ 17 * 10 ^ (top - 16) := by
    rw [← zpow_natCast, ← zpow_add₀ (by norm_num)]
    congr 1
    push_cast
    ring
  have unitPos := two_zpow_pos (exponent - 2)
  have gridPos := ten_zpow_pos (top - 16)
  have digitsLe : (digits : ℚ) * 10 ^ (top - 16) ≤ 2 ^ 58 * 10 ^ (top - 16) :=
    calc (digits : ℚ) * 10 ^ (top - 16) ≤ digits * 10 ^ k :=
          mul_le_mul_of_nonneg_left gridLe (Nat.cast_nonneg digits)
      _ ≤ (4 * mantissa + 2 : Nat) * 2 ^ (exponent - 2) := valueLe
      _ ≤ 3 / 2 * (mantissa * 2 ^ exponent) := by
          rw [two_zpow_eq_quarters exponent]
          push_cast
          nlinarith
      _ ≤ 3 / 2 * (10 ^ 17 * 10 ^ (top - 16)) := by
          rw [← topEq]
          linarith
      _ ≤ 2 ^ 58 * 10 ^ (top - 16) := by linarith
  exact_mod_cast (mul_le_mul_iff_left₀ gridPos).mp digitsLe

/-- The shortest decimal of a finite number that is not zero.  It has a significand of 58 bits, does
not exceed the middle between the number and its successor, and its exponent is moderate. -/
theorem shortest_spec (tie : Tie) {mantissa : Nat} {exponent : Int} (positive : 0 < mantissa)
    (bits : mantissa < 2 ^ 53) (least : -1074 ≤ exponent) (greatest : exponent ≤ 971) :
    0 < (shortest tie mantissa exponent).digits ∧
      (shortest tie mantissa exponent).digits ≤ 2 ^ 58 ∧
      (shortest tie mantissa exponent).value ≤ (4 * mantissa + 2 : Nat) * 2 ^ (exponent - 2) ∧
      -1100 ≤ (shortest tie mantissa exponent).exponent ∧
      (shortest tie mantissa exponent).exponent ≤ 1100 := by
  obtain ⟨topLe, ltTop, topLeast, topGreatest⟩ :=
    leadingExponent_bounds positive bits least greatest
  have proper := Interval.proper_of positive exponent
  have found : ((Interval.of mantissa exponent).onGrid tie
      (leadingExponent mantissa exponent + 1 - (17 : Nat))).isSome := by
    rw [Option.isSome_iff_ne_none]
    intro missed
    have narrow := proper.width_le_of_onGrid_eq_none missed
    have wide := Interval.lt_width_of positive bits exponent topLe
    have same : leadingExponent mantissa exponent + 1 - (17 : Nat) =
        leadingExponent mantissa exponent - 16 := by
      push_cast
      ring
    rw [same] at narrow
    exact absurd narrow (not_le.mpr wide)
  obtain ⟨k, kLeast, kGreatest, onGridEq⟩ := Interval.search_eq_onGrid (by decide : 17 < 18) found
  obtain ⟨exponentEq, digitsPos, contained⟩ := Interval.onGrid_eq_some onGridEq
  have valueLe := proper.le_high_of_contains contained
  rw [Interval.measure_high_of] at valueLe
  obtain ⟨stripValue, stripPos, stripLe, stripGe, stripMost⟩ :=
    Decimal.stripZeros_spec 20 ((Interval.of mantissa exponent).search tie 18
      (leadingExponent mantissa exponent + 1)) digitsPos
  have shortestEq : shortest tie mantissa exponent = ((Interval.of mantissa exponent).search tie 18
      (leadingExponent mantissa exponent + 1)).stripZeros 20 := rfl
  rw [shortestEq]
  refine ⟨stripPos, stripLe.trans ?_, ?_, ?_, ?_⟩
  · exact digits_le positive (by push_cast at kLeast; omega) ltTop valueLe
  · rw [stripValue, Decimal.value, exponentEq]
    exact valueLe
  · rw [exponentEq] at stripGe
    push_cast at kLeast
    omega
  · rw [exponentEq] at stripMost
    push_cast at stripMost
    omega

theorem safeBound_cast :
    (safeBound : ℚ) = (2 ^ 55 - 6 : Nat) * 2 ^ (greatestExponent - 2) := by
  have unit : (2 : ℚ) ^ (greatestExponent - 2) = 2 ^ 969 := zpow_natCast 2 969
  have next : (2 : ℚ) ^ 970 = 2 * 2 ^ 969 := pow_succ' 2 969
  have factor : ((2 ^ 54 - 3 : Nat) : ℚ) * 2 = (2 ^ 55 - 6 : Nat) := by norm_num
  rw [safeBound, Nat.cast_mul, Nat.cast_pow, Nat.cast_ofNat, next, unit, ← mul_assoc, factor]

/-- The middle above every finite number but the largest is within the bound for reading. -/
theorem middle_le_safeBound {mantissa : Nat} {exponent : Int} (bits : mantissa < 2 ^ 53)
    (greatest : exponent ≤ greatestExponent)
    (notLargest : ¬ (mantissa = 2 ^ 53 - 1 ∧ exponent = greatestExponent)) :
    (4 * mantissa + 2 : Nat) * (2 : ℚ) ^ (exponent - 2) ≤ safeBound := by
  have unitPos := two_zpow_pos (greatestExponent - 2)
  rcases greatest.eq_or_lt with last | earlier
  · have mantissaLe : 4 * mantissa + 2 ≤ 2 ^ 55 - 6 := by
      have notTop : mantissa ≠ 2 ^ 53 - 1 := fun eq => notLargest ⟨eq, last⟩
      omega
    rw [safeBound_cast, last]
    exact mul_le_mul_of_nonneg_right (by exact_mod_cast mantissaLe) unitPos.le
  · have halved : (2 : ℚ) ^ (exponent - 2) ≤ 2 ^ (greatestExponent - 2) / 2 := by
      rw [div_eq_mul_inv, ← zpow_sub_one₀ (two_ne_zero' ℚ)]
      exact zpow_le_zpow_right₀ one_le_two (by omega)
    have bitsCast : (mantissa : ℚ) ≤ 2 ^ 53 := by exact_mod_cast bits.le
    calc (4 * mantissa + 2 : Nat) * (2 : ℚ) ^ (exponent - 2)
        ≤ (4 * mantissa + 2 : Nat) * (2 ^ (greatestExponent - 2) / 2) :=
          mul_le_mul_of_nonneg_left halved (Nat.cast_nonneg _)
      _ ≤ (2 ^ 55 - 6 : Nat) * 2 ^ (greatestExponent - 2) := by
          push_cast
          nlinarith
      _ = safeBound := safeBound_cast.symm

end RestPlugin.Number
