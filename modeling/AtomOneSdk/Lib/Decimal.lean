import Mathlib.Tactic

/-!
Contract: fixed-point decimals with eighteen fractional digits.

Owns: decimals as integer counts of `10^-18`, their multiplication and division
in the three rounding modes, and for each of them the two facts proofs need: how
far the result is from the exact value, and that rounding never crosses an
integer number of units.

Does **not** own: bit-length limits. The arithmetic is unbounded, and a division
by zero is the caller's panic.
-/

namespace AtomOneSdk.Lib

/-- A step that succeeds, in a computation that may overflow. -/
theorem some_bind {α β : Type} (value : α) (next : α → Option β) :
    (some value >>= next) = next value :=
  rfl

/-- Nearest integer to `numerator / denominator` for a positive denominator, ties
to the even one. -/
def roundHalfEvenPos (numerator denominator : Int) : Int :=
  let quotient := numerator / denominator
  let twice := 2 * (numerator % denominator)
  if twice < denominator then quotient
  else if denominator < twice then quotient + 1
  else if quotient % 2 = 0 then quotient else quotient + 1

/-- Nearest integer to `numerator / denominator`, ties to the even one. -/
def roundHalfEven (numerator denominator : Int) : Int :=
  if denominator < 0 then roundHalfEvenPos (-numerator) (-denominator)
  else roundHalfEvenPos numerator denominator

/-! A decimal is the integer number of its `10^-18` units; sums and comparisons are
those of the integers. -/

namespace Dec

def one : Int := 1000000000000000000

def ofInt (value : Int) : Int := value * one

/-- Product, rounded to nearest with ties to even. -/
def mul (left right : Int) : Int := roundHalfEven (left * right) one

def mulInt (left : Int) (right : Int) : Int := left * right

/-- Quotient cut off after thirty-six digits and then rounded to nearest, ties to even. -/
def quo (left right : Int) : Int := roundHalfEven ((left * one * one).tdiv right) one

def quoTruncate (left right : Int) : Int := (left * one).tdiv right

/-- Quotient, rounded up: the truncated quotient plus one when something was cut
off a positive result. -/
def quoRoundUp (left right : Int) : Int :=
  let quotient := (left * one).tdiv right
  let remainder := (left * one).tmod right
  if (0 < remainder ∧ 0 < right) ∨ (remainder < 0 ∧ right < 0) then quotient + 1 else quotient

def quoInt (left : Int) (right : Int) : Int := left.tdiv right

def roundInt (value : Int) : Int := roundHalfEven value one

def truncateInt (value : Int) : Int := value.tdiv one

@[simp] theorem one_eq : one = 1000000000000000000 := rfl

theorem one_pos : 0 < one := by decide

end Dec

/-! ## Rounding to nearest -/

section Rounding

variable {numerator denominator bound : Int} (positive : 0 < denominator)

include positive

/-- Twice the rounding error is at most the denominator. -/
theorem roundHalfEven_error :
    -denominator ≤ 2 * (roundHalfEven numerator denominator * denominator - numerator)
      ∧ 2 * (roundHalfEven numerator denominator * denominator - numerator) ≤ denominator := by
  have division := Int.mul_ediv_add_emod numerator denominator
  have low := Int.emod_nonneg numerator positive.ne'
  have high := Int.emod_lt_of_pos numerator positive
  have quotientCase : numerator / denominator * denominator
      = numerator - numerator % denominator := by
    rw [mul_comm]
    omega
  have nextCase : (numerator / denominator + 1) * denominator
      = numerator - numerator % denominator + denominator := by
    rw [add_mul, quotientCase, one_mul]
  simp only [roundHalfEven, not_lt.mpr positive.le, if_false, roundHalfEvenPos]
  split_ifs with below above even
  · rw [quotientCase]
    omega
  · rw [nextCase]
    omega
  · rw [quotientCase]
    omega
  · rw [nextCase]
    omega

/-- Rounding never goes below an integer that the exact value has reached. -/
theorem le_roundHalfEven (reached : bound * denominator ≤ numerator) :
    bound ≤ roundHalfEven numerator denominator := by
  have atMost : bound ≤ numerator / denominator := (Int.le_ediv_iff_mul_le positive).mpr reached
  simp only [roundHalfEven, not_lt.mpr positive.le, if_false, roundHalfEvenPos]
  split_ifs <;> omega

/-- Rounding never goes above an integer that the exact value has not passed. -/
theorem roundHalfEven_le (notPassed : numerator ≤ bound * denominator) :
    roundHalfEven numerator denominator ≤ bound := by
  have division := Int.mul_ediv_add_emod numerator denominator
  have low := Int.emod_nonneg numerator positive.ne'
  have quotientLe : numerator / denominator ≤ bound := by
    have monotone := Int.ediv_le_ediv positive notPassed
    rwa [Int.mul_ediv_cancel _ positive.ne'] at monotone
  simp only [roundHalfEven, not_lt.mpr positive.le, if_false, roundHalfEvenPos]
  by_cases strict : numerator / denominator < bound
  · split_ifs <;> omega
  · -- the quotient is the bound itself, so the remainder is zero and nothing is added
    have same : numerator / denominator = bound := le_antisymm quotientLe (not_lt.mp strict)
    have noRemainder : numerator % denominator = 0 := by
      rw [same, mul_comm] at division
      omega
    rw [noRemainder]
    simp [positive, same]

theorem roundHalfEven_nonneg (nonneg : 0 ≤ numerator) :
    0 ≤ roundHalfEven numerator denominator :=
  le_roundHalfEven positive (by simpa using nonneg)

theorem roundHalfEven_mono {numerator' : Int} (ordered : numerator ≤ numerator') :
    roundHalfEven numerator denominator ≤ roundHalfEven numerator' denominator := by
  by_contra above
  obtain ⟨_, highError⟩ := @roundHalfEven_error numerator denominator positive
  obtain ⟨lowError, _⟩ := @roundHalfEven_error numerator' denominator positive
  -- rounded values that differ leave no room between the two numerators
  have apart : (roundHalfEven numerator' denominator + 1) * denominator
      ≤ roundHalfEven numerator denominator * denominator :=
    mul_le_mul_of_nonneg_right (by omega) positive.le
  rw [add_mul, one_mul] at apart
  have same : numerator = numerator' := by omega
  rw [same] at above
  exact above (le_refl _)

/-- An even bound is reached from half a unit below it on. -/
theorem even_le_roundHalfEven_iff (even : bound % 2 = 0) :
    bound ≤ roundHalfEven numerator denominator
      ↔ (2 * bound - 1) * denominator ≤ 2 * numerator := by
  constructor
  · intro reached
    obtain ⟨_, highError⟩ := @roundHalfEven_error numerator denominator positive
    linarith [mul_le_mul_of_nonneg_right reached positive.le]
  · intro close
    have division := Int.mul_ediv_add_emod numerator denominator
    have high := Int.emod_lt_of_pos numerator positive
    -- a quotient further below the bound leaves more than the remainder
    have near : bound ≤ numerator / denominator + 1 := by
      by_contra far
      have apart : (numerator / denominator + 2) * denominator ≤ bound * denominator :=
        mul_le_mul_of_nonneg_right (by omega) positive.le
      linarith
    simp only [roundHalfEven, not_lt.mpr positive.le, if_false, roundHalfEvenPos]
    split_ifs with below above tie
    · by_contra missed
      have same : bound = numerator / denominator + 1 := by omega
      rw [same] at close
      linarith
    all_goals omega

/-! ## Truncation of non-negative values -/

theorem tdiv_mul_le (nonneg : 0 ≤ numerator) :
    numerator.tdiv denominator * denominator ≤ numerator := by
  rw [Int.tdiv_eq_ediv_of_nonneg nonneg]
  exact Int.ediv_mul_le numerator positive.ne'

theorem lt_tdiv_add_one_mul (nonneg : 0 ≤ numerator) :
    numerator < (numerator.tdiv denominator + 1) * denominator := by
  rw [Int.tdiv_eq_ediv_of_nonneg nonneg]
  exact Int.lt_ediv_add_one_mul_self numerator positive

theorem le_tdiv_iff (nonneg : 0 ≤ numerator) :
    bound ≤ numerator.tdiv denominator ↔ bound * denominator ≤ numerator := by
  rw [Int.tdiv_eq_ediv_of_nonneg nonneg]
  exact Int.le_ediv_iff_mul_le positive

theorem tdiv_le_of_le_mul (nonneg : 0 ≤ numerator) (notPassed : numerator ≤ bound * denominator) :
    numerator.tdiv denominator ≤ bound := by
  rw [Int.tdiv_eq_ediv_of_nonneg nonneg]
  have monotone := Int.ediv_le_ediv positive notPassed
  rwa [Int.mul_ediv_cancel _ positive.ne'] at monotone

omit positive

/-- The integer part does not pass a bound that the value does not pass. -/
theorem Dec.truncateInt_le {value : Int} (nonneg : 0 ≤ bound)
    (notPassed : value ≤ bound * Dec.one) : Dec.truncateInt value ≤ bound := by
  by_cases negative : value < 0
  · have mirrored : 0 ≤ (-value).tdiv Dec.one :=
      Int.tdiv_nonneg (by omega) Dec.one_pos.le
    rw [Int.neg_tdiv] at mirrored
    unfold Dec.truncateInt
    omega
  · exact tdiv_le_of_le_mul Dec.one_pos (not_lt.mp negative) notPassed

theorem Dec.le_truncateInt {value : Int} (nonneg : 0 ≤ bound)
    (reached : bound * Dec.one ≤ value) : bound ≤ Dec.truncateInt value := by
  have valueNonneg : 0 ≤ value := (mul_nonneg nonneg Dec.one_pos.le).trans reached
  exact (le_tdiv_iff Dec.one_pos valueNonneg).mpr reached

/-! ## Rational values -/

include positive in
theorem abs_roundHalfEven_sub_le :
    |(roundHalfEven numerator denominator : ℚ) - numerator / denominator| ≤ 1 / 2 := by
  obtain ⟨low, high⟩ := @roundHalfEven_error numerator denominator positive
  generalize roundHalfEven numerator denominator = rounded at low high ⊢
  have positiveQ : (0 : ℚ) < denominator := by exact_mod_cast positive
  have lowQ : -(denominator : ℚ) ≤ 2 * (rounded * denominator - numerator) := by exact_mod_cast low
  have highQ : 2 * (rounded * denominator - numerator) ≤ (denominator : ℚ) := by exact_mod_cast high
  have asFraction : (rounded : ℚ) - numerator / denominator
      = (rounded * denominator - numerator) / denominator := by field_simp
  rw [asFraction, abs_div, abs_of_pos positiveQ, div_le_iff₀ positiveQ, abs_le]
  constructor <;> linarith

end Rounding

namespace Dec

def toRat (value : Int) : ℚ := value / 10 ^ 18

theorem cast_one : ((one : Int) : ℚ) = 10 ^ 18 := by norm_num

theorem toRat_ofInt (value : Int) : toRat (ofInt value) = value := by
  rw [toRat, ofInt, Int.cast_mul, cast_one]
  field_simp

theorem toRat_mono : Monotone toRat := by
  intro left right ordered
  unfold toRat
  gcongr

theorem toRat_nonneg {value : Int} (nonneg : 0 ≤ value) : 0 ≤ toRat value := by
  unfold toRat
  positivity

/-- A product is off by at most half a unit. -/
theorem abs_toRat_mul_sub_le (left right : Int) :
    |toRat (mul left right) - toRat left * toRat right| ≤ 1 / 10 ^ 18 / 2 := by
  have close := @abs_roundHalfEven_sub_le (left * right) one one_pos
  have scaled : toRat (mul left right) - toRat left * toRat right
      = ((mul left right : ℚ) - (left * right : Int) / one) / 10 ^ 18 := by
    rw [cast_one]
    simp only [toRat, Int.cast_mul]
    field_simp
  rw [scaled, abs_div, abs_of_pos (show (0 : ℚ) < 10 ^ 18 by positivity), div_right_comm]
  exact div_le_div_of_nonneg_right close (by positivity)

/-- A quotient is off by at most half a unit and what is cut off behind thirty-six digits. -/
theorem abs_toRat_quo_sub_le {left right : Int} (positive : 0 < right) :
    |toRat (quo left right) - toRat left / toRat right| ≤ 1 / 10 ^ 18 / 2 + 1 / 10 ^ 36 := by
  have rounding := @abs_roundHalfEven_sub_le ((left * one * one).tdiv right) one one_pos
  have split := Int.mul_tdiv_add_tmod (left * one * one) right
  have restLow := Int.lt_tmod_of_pos (left * one * one) positive
  have restHigh := Int.tmod_lt_of_pos (left * one * one) positive
  rw [← quo] at rounding
  generalize quo left right = result at rounding ⊢
  generalize (left * one * one).tdiv right = digits at rounding split
  generalize (left * one * one).tmod right = rest at split restLow restHigh
  have positiveQ : (0 : ℚ) < right := by exact_mod_cast positive
  have cut : |(digits : ℚ) - left * one * one / right| ≤ 1 := by
    have splitQ : (right : ℚ) * digits + rest = left * one * one := by exact_mod_cast split
    have lowQ : -(right : ℚ) < rest := by exact_mod_cast restLow
    have highQ : (rest : ℚ) < right := by exact_mod_cast restHigh
    have asFraction : (digits : ℚ) - left * one * one / right = -rest / right := by
      rw [← splitQ]
      field_simp
      ring
    rw [asFraction, abs_div, abs_neg, abs_of_pos positiveQ, div_le_one positiveQ, abs_le]
    constructor <;> linarith
  have parts : toRat result - toRat left / toRat right
      = (result - digits / one) / 10 ^ 18 + (digits - left * one * one / right) / 10 ^ 36 := by
    rw [cast_one]
    simp only [toRat]
    field_simp
    ring
  rw [parts]
  apply (abs_add_le _ _).trans
  rw [abs_div, abs_div, abs_of_pos (show (0 : ℚ) < 10 ^ 18 by positivity),
    abs_of_pos (show (0 : ℚ) < 10 ^ 36 by positivity), div_right_comm]
  gcongr

theorem abs_toRat_quo_sub_le_unit {left right : Int} (positive : 0 < right) :
    |toRat (quo left right) - toRat left / toRat right| ≤ 1 / 10 ^ 18 :=
  (abs_toRat_quo_sub_le positive).trans (by norm_num)

theorem quo_nonneg {left right : Int} (nonneg : 0 ≤ left) (positive : 0 < right) :
    0 ≤ quo left right :=
  roundHalfEven_nonneg one_pos
    (Int.tdiv_nonneg (mul_nonneg (mul_nonneg nonneg one_pos.le) one_pos.le) positive.le)

theorem quo_le {left right bound : Int} (nonneg : 0 ≤ left) (positive : 0 < right)
    (notPassed : left * one ≤ bound * right) : quo left right ≤ bound := by
  apply roundHalfEven_le one_pos
  apply tdiv_le_of_le_mul positive (mul_nonneg (mul_nonneg nonneg one_pos.le) one_pos.le)
  linarith [mul_le_mul_of_nonneg_right notPassed one_pos.le]

theorem quo_mono {left left' right : Int} (positive : 0 < right) (ordered : left ≤ left') :
    quo left right ≤ quo left' right := by
  apply roundHalfEven_mono one_pos
  apply Int.tdiv_le_tdiv positive
  have onePos := one_pos
  gcongr

/-- A quotient is less than a unit below the exact value and at most half a unit above it. -/
theorem quo_error {left right : Int} (nonneg : 0 ≤ left) (positive : 0 < right) :
    left * one < (quo left right + 1) * right
      ∧ 2 * (quo left right * right - left * one) ≤ right := by
  have scaledNonneg : 0 ≤ left * one * one :=
    mul_nonneg (mul_nonneg nonneg one_pos.le) one_pos.le
  obtain ⟨lowError, highError⟩ :=
    @roundHalfEven_error ((left * one * one).tdiv right) one one_pos
  have cutLow := tdiv_mul_le positive scaledNonneg
  have cutHigh := lt_tdiv_add_one_mul positive scaledNonneg
  rw [← quo] at lowError highError
  generalize (left * one * one).tdiv right = digits at *
  constructor
  · have digitsLe : digits + 1 ≤ (quo left right + 1) * one := by
      rw [one_eq] at *
      omega
    apply lt_of_mul_lt_mul_right _ one_pos.le
    linarith [mul_le_mul_of_nonneg_right digitsLe positive.le]
  · apply le_of_mul_le_mul_right _ one_pos
    linarith [mul_le_mul_of_nonneg_right highError positive.le]

theorem truncateInt_quo {left right : Int} (nonneg : 0 ≤ left) (positive : 0 < right) :
    truncateInt (quo left right) = truncateInt (roundHalfEven (left * one) right) := by
  have scaledNonneg : 0 ≤ left * one := mul_nonneg nonneg one_pos.le
  have quoNonneg := quo_nonneg nonneg positive
  have onceNonneg := roundHalfEven_nonneg positive scaledNonneg
  -- whole numbers are even numbers of units, and both roundings reach those from one point on
  have reach (whole : Int) : whole ≤ truncateInt (quo left right)
      ↔ whole ≤ truncateInt (roundHalfEven (left * one) right) := by
    have even : whole * one % 2 = 0 := by
      rw [one_eq]
      omega
    rw [truncateInt, truncateInt, le_tdiv_iff one_pos quoNonneg, le_tdiv_iff one_pos onceNonneg,
      quo, even_le_roundHalfEven_iff one_pos even, even_le_roundHalfEven_iff positive even]
    have halves : (2 * (whole * one) - 1) * one
        = 2 * ((2 * (whole * one) - 1) * 500000000000000000) := by
      rw [one_eq]
      ring
    rw [halves, Int.mul_le_mul_left (by norm_num),
      le_tdiv_iff positive (mul_nonneg scaledNonneg one_pos.le)]
    rw [one_eq]
    constructor <;> intro <;> linarith
  exact le_antisymm ((reach _).mp le_rfl) ((reach _).mpr le_rfl)

end Dec

end AtomOneSdk.Lib
