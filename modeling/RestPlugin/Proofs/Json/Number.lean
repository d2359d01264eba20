import RestPlugin.Json.Number
import RestPlugin.Json.Writer
import RestPlugin.Proofs.Number.Shortest

/-!
# Reading written numbers

Every number that is written in a JSON text can be read.  An integer of 64 bits is read as itself.
A finite number is written with few digits, so all of them count for its significand, and the
decimal is never so large that reading it overflows.
-/

namespace RestPlugin.Json

open Number Source

/-- What follows a value in a written text: nothing, or a character that starts
no part of a value. -/
def Ends (rest : List Char) : Prop := ∀ c ∈ rest.head?, c = ',' ∨ c = '\n'

/-- Whether a text does not continue a run of digits. -/
def StopsDigits (rest : List Char) : Prop := rest.head?.any Text.isDigit = false

theorem Ends.stopsDigits {rest : List Char} (ends : Ends rest) : StopsDigits rest := by
  cases rest with
  | nil => rfl
  | cons c rest => rcases ends c rfl with rfl | rfl <;> rfl

/-! ## Digits -/

theorem isDigit_eq (c : Char) : Text.isDigit c = c.isDigit := by
  simp only [Text.isDigit, Char.isDigit, Char.le_def]

theorem isDigit_of_mem_toDigits {n : Nat} {c : Char} (member : c ∈ Nat.toDigits 10 n) :
    Text.isDigit c = true := by
  rw [isDigit_eq]
  exact Nat.isDigit_of_mem_toDigits (by decide) (by decide) member

theorem isDigit_of_mem_zeros {count : Nat} {c : Char} (member : c ∈ List.replicate count '0') :
    Text.isDigit c = true := by
  rw [List.eq_of_mem_replicate member]
  rfl

theorem head?_toDigits_ne_zero {n : Nat} (positive : 0 < n) :
    (Nat.toDigits 10 n).head? ≠ some '0' := by
  induction n using Nat.strongRecOn with
  | ind n ih =>
      rw [Nat.toDigits_eq_if (by decide)]
      split
      next small =>
        have digits : ∀ d < 10, 0 < d → [Nat.digitChar d].head? ≠ some '0' := by decide
        exact digits n small positive
      next large =>
        rw [List.head?_append_of_ne_nil _ Nat.toDigits_ne_nil]
        exact ih (n / 10) (by omega) (by omega)

/-- A run of digits is read up to what is no digit. -/
theorem digitRun_append {digits tail : List Char} (offset : Nat)
    (allDigits : ∀ c ∈ digits, Text.isDigit c = true) (stops : StopsDigits tail) :
    digitRun ⟨offset, digits ++ tail⟩ = (digits, ⟨offset + digits.length, tail⟩) := by
  have taken : (digits ++ tail).takeWhile Text.isDigit = digits := by
    rw [List.takeWhile_append_of_pos allDigits]
    cases tail with
    | nil => simp
    | cons c tail =>
        have other : Text.isDigit c = false := stops
        simp [other]
  simp [digitRun, taken]

theorem le_ofDigitChars (run : List Char) (significand : Nat) :
    significand ≤ Nat.ofDigitChars 10 run significand := by
  induction run generalizing significand with
  | nil => exact le_rfl
  | cons c run ih =>
      rw [Nat.ofDigitChars_cons]
      exact (by omega : significand ≤ 10 * significand + (c.toNat - '0'.toNat)).trans (ih _)

/-- As long as their value fits into 64 bits, all digits are taken. -/
theorem absorb_eq {run : List Char} {significand : Nat} (taken : Nat)
    (fits : Nat.ofDigitChars 10 run significand ≤ maxSignificand) :
    absorb significand taken run = (Nat.ofDigitChars 10 run significand, taken + run.length) := by
  induction run generalizing significand taken with
  | nil => rfl
  | cons c run ih =>
      rw [Nat.ofDigitChars_cons, mul_comm] at fits ⊢
      have next := le_ofDigitChars run (significand * 10 + (c.toNat - '0'.toNat))
      rw [absorb, digitValue, if_neg (by omega), ih (taken + 1) fits, List.length_cons]
      congr 1
      omega

/-! ## The parts of a number -/

/-- The digits before the point or the exponent of a written number. -/
structure WholeDigits (digits : List Char) : Prop where
  nonempty : digits ≠ []
  allDigits : ∀ c ∈ digits, Text.isDigit c = true
  noLeadingZero : digits.head? = some '0' → digits.length = 1
  fits : Nat.ofDigitChars 10 digits 0 ≤ maxSignificand

variable {digits : List Char}

/-- What follows the whole digits of a number: nothing, a fraction or an exponent. -/
def readAfterWhole (negative : Bool) (significand : Nat) (cursor : Cursor) :
    Except Flaw (Scalar × Cursor) :=
  match cursor.rest with
  | '.' :: rest => readFraction negative significand 0 ⟨cursor.offset + 1, rest⟩
  | _ =>
      if !(cursor.rest.head?.any fun d => d == 'e' || d == 'E') then
        .ok (integerOf negative significand, cursor)
      else readTail negative significand 0 cursor

/-- The whole part of a number is read at once, and what follows decides the rest. -/
theorem WholeDigits.readNumber_eq (whole : WholeDigits digits) (negative : Bool) (offset : Nat)
    {tail : List Char} (stops : StopsDigits tail) :
    readNumber negative ⟨offset, digits ++ tail⟩ =
      readAfterWhole negative (Nat.ofDigitChars 10 digits 0) ⟨offset + digits.length, tail⟩ := by
  have run := digitRun_append offset whole.allDigits stops
  have absorbed := absorb_eq 0 whole.fits
  cases digits with
  | nil => exact absurd rfl whole.nonempty
  | cons c more =>
      have first : Text.isDigit c = true := whole.allDigits c List.mem_cons_self
      have noZero : (c == '0' && (more ++ tail).head?.any Text.isDigit) = false := by
        rw [Bool.and_eq_false_iff]
        rcases eq_or_ne c '0' with rfl | other
        · have moreNil : more = [] := by simpa using whole.noLeadingZero rfl
          rw [moreNil, List.nil_append]
          exact Or.inr stops
        · exact Or.inl (beq_false_of_ne other)
      rw [List.cons_append] at run ⊢
      simp only [readNumber, first, noZero, run, absorbed, Bool.not_true, Bool.false_eq_true,
        if_false, zero_add, Nat.sub_self, Nat.cast_zero, beq_self_eq_true, Bool.true_and]
      rfl

/-- Digits with nothing after them are read as an integer. -/
theorem WholeDigits.readNumber_integer (whole : WholeDigits digits) (negative : Bool) (offset : Nat)
    {rest : List Char} (ends : Ends rest) :
    readNumber negative ⟨offset, digits ++ rest⟩ =
      .ok (integerOf negative (Nat.ofDigitChars 10 digits 0), ⟨offset + digits.length, rest⟩) := by
  rw [whole.readNumber_eq negative offset ends.stopsDigits]
  cases rest with
  | nil => rfl
  | cons c rest => rcases ends c rfl with rfl | rfl <;> rfl

theorem WholeDigits.readNumber_fraction (whole : WholeDigits digits) (negative : Bool)
    (offset : Nat) (rest : List Char) :
    readNumber negative ⟨offset, digits ++ '.' :: rest⟩ =
      readFraction negative (Nat.ofDigitChars 10 digits 0) 0 ⟨offset + digits.length + 1, rest⟩ :=
  whole.readNumber_eq negative offset (show StopsDigits ('.' :: rest) from rfl)

theorem WholeDigits.readNumber_exponent (whole : WholeDigits digits) (negative : Bool)
    (offset : Nat) (rest : List Char) :
    readNumber negative ⟨offset, digits ++ 'e' :: rest⟩ =
      readExponent negative (Nat.ofDigitChars 10 digits 0) 0 ⟨offset + digits.length + 1, rest⟩ :=
  whole.readNumber_eq negative offset (show StopsDigits ('e' :: rest) from rfl)

/-- The digits of a fraction are taken into the significand, and the exponent is
lowered by as many. -/
theorem readFraction_eq {fraction tail : List Char} (negative : Bool) (significand : Nat)
    (base : Int) (offset : Nat) (nonempty : fraction ≠ [])
    (allDigits : ∀ c ∈ fraction, Text.isDigit c = true)
    (fits : Nat.ofDigitChars 10 fraction significand ≤ maxSignificand) (stops : StopsDigits tail) :
    readFraction negative significand base ⟨offset, fraction ++ tail⟩ =
      readTail negative (Nat.ofDigitChars 10 fraction significand) (base - fraction.length)
        ⟨offset + fraction.length, tail⟩ := by
  have run := digitRun_append offset allDigits stops
  have absorbed := absorb_eq 0 fits
  cases fraction with
  | nil => exact absurd rfl nonempty
  | cons c more =>
      have first : Text.isDigit c = true := allDigits c List.mem_cons_self
      rw [List.cons_append] at run ⊢
      simp only [readFraction, first, run, absorbed, Bool.not_true, Bool.false_eq_true, if_false,
        zero_add]

theorem readTail_of_ends (negative : Bool) (significand : Nat) (exponent : Int) (offset : Nat)
    {rest : List Char} (ends : Ends rest) :
    readTail negative significand exponent ⟨offset, rest⟩ =
      floatOf negative significand exponent ⟨offset, rest⟩ := by
  cases rest with
  | nil => rfl
  | cons c rest => rcases ends c rfl with rfl | rfl <;> rfl

theorem absorbExponent_eq {run : List Char} {exponent : Nat} (taken : Nat)
    (fits : Nat.ofDigitChars 10 run exponent ≤ maxExponent) :
    absorbExponent exponent taken run = .ok (Nat.ofDigitChars 10 run exponent) := by
  induction run generalizing exponent taken with
  | nil => rfl
  | cons c run ih =>
      rw [Nat.ofDigitChars_cons, mul_comm] at fits ⊢
      have next := le_ofDigitChars run (exponent * 10 + (c.toNat - '0'.toNat))
      rw [absorbExponent, digitValue, if_neg (by omega), ih (taken + 1) fits]

/-- The written exponent of a number is added to the one of its digits. -/
theorem readExponent_eq (negative : Bool) (significand : Nat) (base exponent : Int) (offset : Nat)
    {rest : List Char} (small : exponent.natAbs ≤ maxExponent) (ends : Ends rest) :
    ∃ after, readExponent negative significand base
        ⟨offset, (if exponent < 0 then '-' else '+') :: (Nat.toDigits 10 exponent.natAbs ++ rest)⟩ =
      floatOf negative significand (base + exponent) ⟨after, rest⟩ := by
  have allDigits : ∀ c ∈ Nat.toDigits 10 exponent.natAbs, Text.isDigit c = true :=
    fun c => isDigit_of_mem_toDigits
  have run := digitRun_append (offset + 1) allDigits ends.stopsDigits
  have absorbed : absorbExponent 0 0 (Nat.toDigits 10 exponent.natAbs) = .ok exponent.natAbs := by
    rw [absorbExponent_eq 0 (by rwa [Nat.ofDigitChars_ten_toDigits]),
      Nat.ofDigitChars_ten_toDigits]
  refine ⟨offset + 1 + (Nat.toDigits 10 exponent.natAbs).length, ?_⟩
  cases digitsEq : Nat.toDigits 10 exponent.natAbs with
  | nil => exact absurd digitsEq Nat.toDigits_ne_nil
  | cons c more =>
      have first : Text.isDigit c = true := allDigits c (by simp [digitsEq])
      rw [digitsEq, List.cons_append] at run
      rw [digitsEq] at absorbed
      by_cases below : exponent < 0
      · have sum : base - (exponent.natAbs : Int) = base + exponent := by omega
        simp only [readExponent, below, if_true, List.cons_append, first, Bool.not_true,
          Bool.false_eq_true, if_false, run, absorbed, sum]
      · have sum : base + (exponent.natAbs : Int) = base + exponent := by omega
        simp only [readExponent, below, if_false, List.cons_append, first, Bool.not_true,
          Bool.false_eq_true, run, absorbed, sum]

/-! ## Scaling -/

/-- Scaling down always gives a number. -/
theorem isSome_scaled_of_neg (x : Binary64) (count : Nat) {exponent : Int} (below : exponent < 0) :
    (scaled x count exponent).isSome := by
  induction count generalizing x exponent with
  | zero => rfl
  | succ count ih =>
      have notNonneg : ¬ 0 ≤ exponent := by omega
      rw [scaled]
      simp only [notNonneg, if_false]
      split
      · rfl
      next large =>
        split
        · rfl
        · apply ih
          simp only [scaleStep] at large ⊢
          omega

/-- A short significand scaled to a number below the bound gives a number. -/
theorem isSome_scaled_of_le {significand : Nat} {exponent : Int} (positive : 0 < significand)
    (bits : significand ≤ 2 ^ 58) (small : (significand : ℚ) * 10 ^ exponent ≤ Binary64.safeBound) :
    (scaled (.ofInt significand) 4 exponent).isSome := by
  rcases lt_or_ge exponent 0 with below | nonneg
  · exact isSome_scaled_of_neg _ _ below
  · obtain ⟨k, rfl⟩ := Int.eq_ofNat_of_zero_le nonneg
    have smallNat : significand * 10 ^ k ≤ Binary64.safeBound := by exact_mod_cast small
    have kSmall := Binary64.lt_of_pow_le_safeBound
      ((Nat.le_mul_of_pos_left (10 ^ k) positive).trans smallNat)
    have isFinite := Binary64.isInfinite_timesPowerOfTen positive bits smallNat
    rw [scaled, if_pos (by simp only [scaleStep, Int.natAbs_natCast]; omega), if_pos nonneg,
      Int.natAbs_natCast]
    simp only [isFinite, Bool.false_eq_true, if_false, Option.isSome_some]

/-- A number is read as the same value wherever it stands, and up to its end. -/
def ReadsFloat (negative : Bool) (text : List Char) (x : Binary64) : Prop :=
  ∀ offset rest, Ends rest →
    ∃ after, readNumber negative ⟨offset, text ++ rest⟩ = .ok (.float x, ⟨after, rest⟩)

theorem exists_floatOf_eq {significand : Nat} {exponent : Int}
    (isSome : (scaled (.ofInt significand) 4 exponent).isSome) (negative : Bool) :
    ∃ x, ∀ cursor, floatOf negative significand exponent cursor = .ok (.float x, cursor) := by
  obtain ⟨x, scaledEq⟩ := Option.isSome_iff_exists.mp isSome
  exact ⟨if negative then x.neg else x, fun cursor => by simp only [floatOf, scaledEq]⟩

/-! ## Written forms -/

theorem wholeDigits_zero : WholeDigits ['0'] where
  nonempty := List.cons_ne_nil '0' []
  allDigits := List.forall_mem_singleton.mpr rfl
  noLeadingZero _ := rfl
  fits := by decide

/-- A run of digits that starts like the digits of a positive number. -/
theorem wholeDigits_of_head {n : Nat} {digits : List Char} (positive : 0 < n)
    (head : digits.head? = (Nat.toDigits 10 n).head?)
    (allDigits : ∀ c ∈ digits, Text.isDigit c = true)
    (fits : Nat.ofDigitChars 10 digits 0 ≤ maxSignificand) : WholeDigits digits where
  nonempty := by
    rintro rfl
    exact Nat.toDigits_ne_nil (List.head?_eq_none_iff.mp head.symm)
  allDigits := allDigits
  noLeadingZero zero := absurd (head.symm.trans zero) (head?_toDigits_ne_zero positive)
  fits := fits

/-- A number with a fraction and no exponent is read as a float. -/
theorem exists_readsFloat_fraction {whole fraction : List Char} (isWhole : WholeDigits whole)
    (nonempty : fraction ≠ []) (allDigits : ∀ c ∈ fraction, Text.isDigit c = true)
    (fits : Nat.ofDigitChars 10 (whole ++ fraction) 0 ≤ maxSignificand) (negative : Bool) :
    ∃ x, ReadsFloat negative (whole ++ '.' :: fraction) x := by
  have below : (0 - fraction.length : Int) < 0 := by
    have := List.length_pos_iff.mpr nonempty
    omega
  obtain ⟨x, read⟩ := exists_floatOf_eq (isSome_scaled_of_neg
    (.ofInt (Nat.ofDigitChars 10 (whole ++ fraction) 0 : Nat)) 4 below) negative
  refine ⟨x, fun offset rest ends => ⟨offset + whole.length + 1 + fraction.length, ?_⟩⟩
  rw [Nat.ofDigitChars_append] at fits read
  rw [List.append_assoc, List.cons_append, isWhole.readNumber_fraction,
    readFraction_eq negative _ _ _ nonempty allDigits fits ends.stopsDigits,
    readTail_of_ends negative _ _ _ ends, read]

/-- One digit before the point, the others after it, and an exponent: the digits are read as one
number that the exponent moves back behind its first digit. -/
theorem exists_readNumber_scientific {d : Char} {more : List Char} (isWhole : WholeDigits [d])
    (allDigits : ∀ c ∈ more, Text.isDigit c = true)
    (fits : Nat.ofDigitChars 10 (d :: more) 0 ≤ maxSignificand) {exponent : Int}
    (small : exponent.natAbs ≤ maxExponent) (negative : Bool) (offset : Nat) {rest : List Char}
    (ends : Ends rest) :
    ∃ after, readNumber negative ⟨offset, scientific (d :: more) exponent ++ rest⟩ =
      floatOf negative (Nat.ofDigitChars 10 (d :: more) 0) (exponent + 1 - (d :: more).length)
        ⟨after, rest⟩ := by
  cases more with
  | nil =>
      obtain ⟨after, readEq⟩ := readExponent_eq negative (Nat.ofDigitChars 10 [d] 0) 0 exponent
        (offset + 1 + 1) small ends
      have shape : scientific [d] exponent ++ rest =
          [d] ++ 'e' :: (if exponent < 0 then '-' else '+') ::
            (Nat.toDigits 10 exponent.natAbs ++ rest) := rfl
      have exponentEq : 0 + exponent = exponent + 1 - ([d].length : Nat) := by simp
      refine ⟨after, ?_⟩
      rw [shape, isWhole.readNumber_exponent, List.length_singleton, readEq, exponentEq]
      rfl
  | cons d' more =>
      obtain ⟨after, readEq⟩ := readExponent_eq negative
        (Nat.ofDigitChars 10 (d :: d' :: more) 0) (0 - (d' :: more).length) exponent
        (offset + 1 + 1 + (d' :: more).length + 1) small ends
      have shape : scientific (d :: d' :: more) exponent ++ rest =
          [d] ++ '.' :: ((d' :: more) ++ 'e' :: (if exponent < 0 then '-' else '+') ::
            (Nat.toDigits 10 exponent.natAbs ++ rest)) := by
        simp [scientific]
      have exponentEq : (0 - (d' :: more).length : Int) + exponent =
          exponent + 1 - ((d :: d' :: more).length : Nat) := by
        simp only [List.length_cons]
        omega
      rw [← List.singleton_append, Nat.ofDigitChars_append] at fits readEq ⊢
      refine ⟨after, ?_⟩
      rw [List.singleton_append, shape, isWhole.readNumber_fraction, List.length_singleton,
        readFraction_eq negative _ _ _ (List.cons_ne_nil d' more) allDigits fits
          (show StopsDigits ('e' :: _) from rfl), ← exponentEq, ← readEq]
      rfl

/-- The digits of a positive number with an exponent are read as a float unless that overflows. -/
theorem exists_readsFloat_scientific {n : Nat} (positive : 0 < n) (fits : n ≤ maxSignificand)
    {exponent : Int} (small : exponent.natAbs ≤ maxExponent)
    (isSome : (scaled (.ofInt n) 4 (exponent + 1 - (Nat.toDigits 10 n).length)).isSome)
    (negative : Bool) :
    ∃ x, ReadsFloat negative (scientific (Nat.toDigits 10 n) exponent) x := by
  obtain ⟨x, read⟩ := exists_floatOf_eq isSome negative
  refine ⟨x, fun offset rest ends => ?_⟩
  have value : Nat.ofDigitChars 10 (Nat.toDigits 10 n) 0 = n := Nat.ofDigitChars_ten_toDigits
  have allDigits : ∀ c ∈ Nat.toDigits 10 n, Text.isDigit c = true :=
    fun c => isDigit_of_mem_toDigits
  cases digitsEq : Nat.toDigits 10 n with
  | nil => exact absurd digitsEq Nat.toDigits_ne_nil
  | cons d more =>
      rw [digitsEq] at value read allDigits
      have isWhole : WholeDigits [d] := by
        refine wholeDigits_of_head positive (by rw [digitsEq]; rfl) ?_ ?_
        · exact List.forall_mem_singleton.mpr (allDigits d List.mem_cons_self)
        · rw [← List.singleton_append, Nat.ofDigitChars_append] at value
          exact (le_ofDigitChars more _).trans (value.trans_le fits)
      obtain ⟨after, readEq⟩ := exists_readNumber_scientific isWhole
        (fun c member => allDigits c (List.mem_cons_of_mem d member)) (value.trans_le fits) small
        negative offset ends
      exact ⟨after, by rw [readEq, value, read]⟩

section Positional

variable {n : Nat}

/-- Digits after the point only, below some zeros. -/
theorem exists_readsFloat_after (fits : n ≤ maxSignificand) (zeros : Nat) (negative : Bool) :
    ∃ x, ReadsFloat negative ('0' :: '.' :: (List.replicate zeros '0' ++ Nat.toDigits 10 n)) x := by
  apply exists_readsFloat_fraction wholeDigits_zero
  · simp
  · intro c member
    rcases List.mem_append.mp member with zero | digit
    · exact isDigit_of_mem_zeros zero
    · exact isDigit_of_mem_toDigits digit
  · rw [Nat.ofDigitChars_append, Nat.ofDigitChars_append, Nat.ofDigitChars_replicate_zero]
    exact Nat.ofDigitChars_ten_toDigits.trans_le fits

/-- Digits on both sides of the point. -/
theorem exists_readsFloat_inside (positive : 0 < n) (fits : n ≤ maxSignificand) {point : Nat}
    (above : point ≠ 0) (inside : point < (Nat.toDigits 10 n).length) (negative : Bool) :
    ∃ x, ReadsFloat negative
      ((Nat.toDigits 10 n).take point ++ '.' :: (Nat.toDigits 10 n).drop point) x := by
  have value : Nat.ofDigitChars 10
      ((Nat.toDigits 10 n).take point ++ (Nat.toDigits 10 n).drop point) 0 = n := by
    rw [List.take_append_drop, Nat.ofDigitChars_ten_toDigits]
  apply exists_readsFloat_fraction
  · apply wholeDigits_of_head positive
    · rw [List.head?_take, if_neg above]
    · exact fun c member => isDigit_of_mem_toDigits (List.mem_of_mem_take member)
    · rw [Nat.ofDigitChars_append] at value
      exact (le_ofDigitChars _ _).trans (value.trans_le fits)
  · simpa using inside
  · exact fun c member => isDigit_of_mem_toDigits (List.mem_of_mem_drop member)
  · exact value.trans_le fits

theorem ofDigitChars_padded_le (n : Nat) {point : Nat}
    (length : (Nat.toDigits 10 n).length ≤ point) :
    Nat.ofDigitChars 10 (Nat.toDigits 10 n ++
      List.replicate (point - (Nat.toDigits 10 n).length) '0') 0 ≤ 10 ^ point := by
  have below : n < 10 ^ (Nat.toDigits 10 n).length :=
    (Nat.length_toDigits_le_iff (by decide)
      (List.length_pos_iff.mpr Nat.toDigits_ne_nil)).mp le_rfl
  rw [Nat.ofDigitChars_append, Nat.ofDigitChars_ten_toDigits, Nat.ofDigitChars_replicate_zero]
  calc 10 ^ (point - (Nat.toDigits 10 n).length) * n
      ≤ 10 ^ (point - (Nat.toDigits 10 n).length) * 10 ^ (Nat.toDigits 10 n).length :=
        Nat.mul_le_mul_left _ below.le
    _ = 10 ^ point := by rw [← pow_add, Nat.sub_add_cancel length]

/-- Digits before the point only, filled up with zeros. -/
theorem exists_readsFloat_before (positive : 0 < n) {point : Nat}
    (length : (Nat.toDigits 10 n).length ≤ point) (small : point ≤ 16) (negative : Bool) :
    ∃ x, ReadsFloat negative
      (Nat.toDigits 10 n ++ List.replicate (point - (Nat.toDigits 10 n).length) '0' ++
        ".0".toList) x := by
  have padded : Nat.ofDigitChars 10 (Nat.toDigits 10 n ++
      List.replicate (point - (Nat.toDigits 10 n).length) '0') 0 ≤ 10 ^ 16 :=
    (ofDigitChars_padded_le n length).trans (Nat.pow_le_pow_right (by decide) small)
  have suffix : ".0".toList = '.' :: List.replicate 1 '0' := rfl
  rw [suffix]
  apply exists_readsFloat_fraction
  · apply wholeDigits_of_head positive
    · exact List.head?_append_of_ne_nil _ Nat.toDigits_ne_nil
    · intro c member
      rcases List.mem_append.mp member with digit | zero
      · exact isDigit_of_mem_toDigits digit
      · exact isDigit_of_mem_zeros zero
    · exact padded.trans (by decide)
  · exact List.cons_ne_nil '0' []
  · exact fun c => isDigit_of_mem_zeros
  · rw [Nat.ofDigitChars_append, Nat.ofDigitChars_replicate_zero]
    simp only [maxSignificand]
    omega

/-- Every positional form is read as a float. -/
theorem exists_readsFloat_positional (positive : 0 < n) (fits : n ≤ maxSignificand) {point : Int}
    (small : point ≤ 16) (negative : Bool) :
    ∃ x, ReadsFloat negative (positional ".0" (Nat.toDigits 10 n) point) x := by
  unfold positional
  split
  next => exact exists_readsFloat_after fits _ negative
  next above =>
    split
    next inside => exact exists_readsFloat_inside positive fits (by omega) inside negative
    next outside =>
      exact exists_readsFloat_before positive (not_lt.mp outside) (by omega) negative

end Positional

/-! ## Integers -/

theorem wholeDigits_toDigits {n : Nat} (fits : n ≤ maxSignificand) :
    WholeDigits (Nat.toDigits 10 n) := by
  rcases Nat.eq_zero_or_pos n with rfl | positive
  · exact wholeDigits_zero
  · apply wholeDigits_of_head positive rfl
    · exact fun c => isDigit_of_mem_toDigits
    · exact Nat.ofDigitChars_ten_toDigits.trans_le fits

/-- The decimal digits of a number that fits are read as this integer. -/
theorem readNumber_toDigits {n : Nat} (fits : n ≤ maxSignificand) (negative : Bool) (offset : Nat)
    {rest : List Char} (ends : Ends rest) :
    ∃ after, readNumber negative ⟨offset, Nat.toDigits 10 n ++ rest⟩ =
      .ok (integerOf negative n, ⟨after, rest⟩) := by
  rw [(wholeDigits_toDigits fits).readNumber_integer negative offset ends,
    Nat.ofDigitChars_ten_toDigits]
  exact ⟨_, rfl⟩

/-! ## Floats -/

/-- The characters of the magnitude of a finite number. -/
def magnitudeChars (mantissa : Nat) (exponent : Int) : List Char :=
  (numberLayout.write (.finite false mantissa exponent)).toList

/-- A finite float is written as its sign and its magnitude. -/
theorem toList_write_finite (negative : Bool) (mantissa : Nat) (exponent : Int) :
    (numberLayout.write (.finite negative mantissa exponent)).toList =
      (if negative then ['-'] else []) ++ magnitudeChars mantissa exponent := by
  cases negative with
  | false => rfl
  | true =>
      simp only [magnitudeChars, Layout.write]
      split <;> simp

/-- The largest finite number is read back although its decimal is above the general bound. -/
theorem isSome_scaled_largest :
    (scaled (.ofInt (shortest .toEven (2 ^ 53 - 1) 971).digits) 4
      (shortest .toEven (2 ^ 53 - 1) 971).exponent).isSome := by
  decide +kernel

/-- The shortest digits of a proper float can be scaled back. -/
theorem isSome_scaled_shortest {mantissa : Nat} {exponent : Int} (positive : 0 < mantissa)
    (proper : (Binary64.finite false mantissa exponent).Proper) :
    (scaled (.ofInt (shortest .toEven mantissa exponent).digits) 4
      (shortest .toEven mantissa exponent).exponent).isSome := by
  obtain ⟨bits, least, greatest, -⟩ := proper
  obtain ⟨digitsPos, digitsLe, valueLe, -⟩ :=
    shortest_spec .toEven positive bits least greatest
  by_cases largest : mantissa = 2 ^ 53 - 1 ∧ exponent = Binary64.greatestExponent
  · rw [largest.1, largest.2]
    exact isSome_scaled_largest
  · exact isSome_scaled_of_le digitsPos digitsLe
      (valueLe.trans (middle_le_safeBound bits greatest largest))

/-- Every finite number is written so that it is read as a float again. -/
theorem exists_readsFloat_magnitude {mantissa : Nat} {exponent : Int}
    (proper : (Binary64.finite false mantissa exponent).Proper) (negative : Bool) :
    ∃ x, ReadsFloat negative (magnitudeChars mantissa exponent) x := by
  rcases Nat.eq_zero_or_pos mantissa with rfl | positive
  · have zeroChars : magnitudeChars 0 exponent = ['0'] ++ '.' :: ['0'] := by
      simp [magnitudeChars, Layout.write, numberLayout]
    rw [zeroChars]
    exact exists_readsFloat_fraction wholeDigits_zero (List.cons_ne_nil '0' [])
      (List.forall_mem_singleton.mpr rfl) (by decide) negative
  · have isSome := isSome_scaled_shortest positive proper
    obtain ⟨bits, least, greatest, -⟩ := proper
    obtain ⟨digitsPos, digitsLe, -, exponentLeast, exponentGreatest⟩ :=
      shortest_spec .toEven positive bits least greatest
    have fits : (shortest .toEven mantissa exponent).digits ≤ maxSignificand :=
      digitsLe.trans (by decide)
    have lengthLe : (Nat.toDigits 10 (shortest .toEven mantissa exponent).digits).length ≤ 20 :=
      (Nat.length_toDigits_le_iff (by decide) (by decide)).mpr (digitsLe.trans_lt (by decide))
    have nonzero : (mantissa == 0) = false := beq_false_of_ne positive.ne'
    simp only [magnitudeChars, Layout.write, nonzero, Bool.false_eq_true, if_false, List.nil_append,
      String.toList_ofList, Decimal.digitChars, numberLayout, Option.all_some, Bool.and_eq_true]
    split
    next inside =>
      exact exists_readsFloat_positional digitsPos fits (of_decide_eq_true inside.2) negative
    next =>
      apply exists_readsFloat_scientific digitsPos fits
      · simp only [maxExponent]
        omega
      · have exponentEq :
            ((Nat.toDigits 10 (shortest .toEven mantissa exponent).digits).length : Int) +
              (shortest .toEven mantissa exponent).exponent - 1 + 1 -
              (Nat.toDigits 10 (shortest .toEven mantissa exponent).digits).length =
            (shortest .toEven mantissa exponent).exponent := by ring
        rw [exponentEq]
        exact isSome

end RestPlugin.Json
