import AtomOneSdk.DynamicFee.Properties

/-!
Contract: how far the base gas price and the learning rate follow the gas of the blocks.

Owns: the price without its floor as a function of the gas of the block, its direction,
its monotonicity and its distance from the exact value, the average utilization of a
window whose total fits into a machine integer, and what the learning rate makes of it.

Does **not** own: the bounds that price and learning rate keep.
-/

namespace AtomOneSdk.DynamicFee

open Lib

/-! ## The base gas price -/

/-- The price after a block, before the floor is applied. -/
def rawPrice (price rate : Int) (target gas : Nat) : Int :=
  Dec.mul price (Dec.one + Dec.mul rate (Dec.quo (Dec.ofInt ((gas : Int) - target))
    (Dec.ofInt target)))

section Price

variable {price rate : Int} {target gas : Nat}

theorem ofInt_pos (positive : 1 ≤ target) : 0 < Dec.ofInt target := by
  simp only [Dec.ofInt, Dec.one_eq]
  omega

theorem rawPrice_mono {gas' : Nat} (priceNonneg : 0 ≤ price) (rateNonneg : 0 ≤ rate)
    (positive : 1 ≤ target) (ordered : gas ≤ gas') :
    rawPrice price rate target gas ≤ rawPrice price rate target gas' := by
  have quotients : Dec.quo (Dec.ofInt ((gas : Int) - target)) (Dec.ofInt target)
      ≤ Dec.quo (Dec.ofInt ((gas' : Int) - target)) (Dec.ofInt target) := by
    apply Dec.quo_mono (ofInt_pos positive)
    simp only [Dec.ofInt, Dec.one_eq]
    omega
  have changes := roundHalfEven_mono Dec.one_pos (mul_le_mul_of_nonneg_left quotients rateNonneg)
  exact roundHalfEven_mono Dec.one_pos
    (mul_le_mul_of_nonneg_left (add_le_add_right changes Dec.one) priceNonneg)

/-- A block at the target leaves the price as it is. -/
theorem rawPrice_at_target : rawPrice price rate target target = price := by
  have still : Dec.mul rate (Dec.quo (Dec.ofInt ((target : Int) - target))
      (Dec.ofInt target)) = 0 := by
    simp [Dec.ofInt, Dec.quo, Dec.mul, roundHalfEven, roundHalfEvenPos]
  rw [rawPrice, still, add_zero]
  exact le_antisymm (roundHalfEven_le Dec.one_pos le_rfl) (le_roundHalfEven Dec.one_pos le_rfl)

/-- Three roundings: one unit of the quotient and half a unit of each product. -/
theorem abs_rawPrice_sub_le (priceNonneg : 0 ≤ price) (rateNonneg : 0 ≤ rate)
    (positive : 1 ≤ target) :
    |Dec.toRat (rawPrice price rate target gas)
        - Dec.toRat price * (1 + Dec.toRat rate * (((gas : ℚ) - target) / target))|
      ≤ 1 / 10 ^ 18 * (Dec.toRat price * (1 + Dec.toRat rate) + 1) := by
  have quotient := @Dec.abs_toRat_quo_sub_le_unit (Dec.ofInt ((gas : Int) - target)) _
    (ofInt_pos positive)
  rw [Dec.toRat_ofInt, Dec.toRat_ofInt] at quotient
  push_cast at quotient
  set avg := Dec.quo (Dec.ofInt ((gas : Int) - target)) (Dec.ofInt target) with isAvg
  have change := Dec.abs_toRat_mul_sub_le rate avg
  have next := Dec.abs_toRat_mul_sub_le price (Dec.one + Dec.mul rate avg)
  rw [show Dec.toRat (Dec.one + Dec.mul rate avg) = 1 + Dec.toRat (Dec.mul rate avg) by
    rw [Dec.toRat, Int.cast_add, Dec.cast_one, add_div, div_self (by positivity), Dec.toRat]]
      at next
  rw [rawPrice, ← isAvg]
  have priceQ := Dec.toRat_nonneg priceNonneg
  have rateQ := Dec.toRat_nonneg rateNonneg
  generalize Dec.toRat (Dec.mul price (Dec.one + Dec.mul rate avg)) = n at next ⊢
  generalize Dec.toRat (Dec.mul rate avg) = c at change next
  generalize Dec.toRat avg = a at quotient change
  generalize ((gas : ℚ) - target) / target = exact at quotient ⊢
  generalize Dec.toRat price = p at next priceQ ⊢
  generalize Dec.toRat rate = r at change rateQ ⊢
  have parts : n - p * (1 + r * exact)
      = (n - p * (1 + c)) + p * (c - r * a) + p * (r * (a - exact)) := by ring
  calc |n - p * (1 + r * exact)|
      ≤ |n - p * (1 + c)| + |p * (c - r * a)| + |p * (r * (a - exact))| := by
        rw [parts]
        exact abs_add_three _ _ _
    _ = |n - p * (1 + c)| + p * |c - r * a| + p * (r * |a - exact|) := by
        rw [abs_mul, abs_mul, abs_mul, abs_of_nonneg priceQ, abs_of_nonneg rateQ]
    _ ≤ 1 / 10 ^ 18 / 2 + p * (1 / 10 ^ 18 / 2) + p * (r * (1 / 10 ^ 18)) := by gcongr
    _ ≤ 1 / 10 ^ 18 * (p * (1 + r) + 1) := by
        rw [mul_add, mul_add, mul_add]
        linarith

end Price

section Update

variable {params : Params} {s : State} {maxBlockGas target gas : Nat}

/-- Without an overflow the new price is the raw price, or the floor if that is higher. -/
theorem updateBaseGasPrice_units (isTarget : getTargetBlockGas maxBlockGas params = some target)
    (recorded : s.window[s.index]? = some gas)
    (noOverflow : (s.newBaseGasPrice params maxBlockGas).isSome) :
    (s.updateBaseGasPrice params maxBlockGas).baseGasPrice.units
      = max (rawPrice s.baseGasPrice.units s.learningRate.units target gas)
          params.minBaseGasPrice.units := by
  obtain ⟨price, computed⟩ := Option.isSome_iff_exists.mp noOverflow
  rw [State.updateBaseGasPrice, computed]
  simp only [State.newBaseGasPrice, Option.bind_eq_bind, Option.bind_eq_some_iff, recorded,
    isTarget, Option.some.injEq, exists_eq_left'] at computed
  obtain ⟨current, isCurrent, targetDec, isTargetDec, difference, isDifference, avg, isAvg, change,
    isChange, adjustment, isAdjustment, raw, isRaw, floored⟩ := computed
  have currentUnits := BoundedDec.ofUnits?_eq_some.mp isCurrent
  have targetUnits := BoundedDec.ofUnits?_eq_some.mp isTargetDec
  have differenceUnits : difference.units = Dec.ofInt ((gas : Int) - target) := by
    rw [BoundedDec.ofUnits?_eq_some.mp isDifference, currentUnits, targetUnits, Dec.ofInt,
      Dec.ofInt, Dec.ofInt, sub_mul]
  rw [BoundedDec.quo] at isAvg
  split_ifs at isAvg
  have rawUnits : raw.units = rawPrice s.baseGasPrice.units s.learningRate.units target gas := by
    rw [BoundedDec.units_mul isRaw, BoundedDec.units_add isAdjustment,
      BoundedDec.units_mul isChange, BoundedDec.ofUnits?_eq_some.mp isAvg, differenceUnits,
      targetUnits]
    rfl
  cases floored
  dsimp only
  rw [← rawUnits]
  split_ifs <;> omega

/-- Without an overflow the price rises with the gas of the block, not against the side of the
target the block is on, and keeps within the roundings of the exact value. -/
theorem price_moves_with_demand (accepted : params.validateBasic = none)
    (isTarget : getTargetBlockGas maxBlockGas params = some target) (positive : 1 ≤ target)
    (floored : params.minBaseGasPrice.units ≤ s.baseGasPrice.units)
    (rateNonneg : 0 ≤ s.learningRate.units) (recorded : s.window[s.index]? = some gas)
    (noOverflow : (s.newBaseGasPrice params maxBlockGas).isSome) :
    let after (s : State) := (s.updateBaseGasPrice params maxBlockGas).baseGasPrice
    (target < gas → s.baseGasPrice.units ≤ (after s).units)
      ∧ (gas < target → (after s).units ≤ s.baseGasPrice.units)
      ∧ (gas = target → after s = s.baseGasPrice)
      ∧ (∀ more, gas ≤ more →
          let busier := { s with window := s.window.set s.index more }
          (busier.newBaseGasPrice params maxBlockGas).isSome →
            (after s).units ≤ (after busier).units)
      ∧ |Dec.toRat (after s).units - max (Dec.toRat params.minBaseGasPrice.units)
          (Dec.toRat s.baseGasPrice.units
            * (1 + Dec.toRat s.learningRate.units * (((gas : ℚ) - target) / target)))|
        ≤ 1 / 10 ^ 18
          * (Dec.toRat s.baseGasPrice.units * (1 + Dec.toRat s.learningRate.units) + 1) := by
  intro after
  have minNonneg := (Params.valid_of_validateBasic accepted).priceNonneg
  have priceNonneg := minNonneg.trans floored
  have units := updateBaseGasPrice_units isTarget recorded noOverflow
  have same := @rawPrice_at_target s.baseGasPrice.units s.learningRate.units target
  refine ⟨?_, ?_, ?_, ?_, ?_⟩
  · intro above
    have rising := rawPrice_mono priceNonneg rateNonneg positive above.le
    rw [same] at rising
    exact units ▸ le_max_of_le_left rising
  · intro below
    have falling := rawPrice_mono priceNonneg rateNonneg positive below.le
    rw [same] at falling
    exact units ▸ max_le falling floored
  · rintro rfl
    have kept : (after s).units = s.baseGasPrice.units := by
      rw [units, same]
      exact max_eq_left floored
    exact BoundedDec.ext kept
  · intro more ordered busier busierFits
    have inside : s.index < s.window.length := (List.getElem?_eq_some_iff.mp recorded).1
    have recordedMore : busier.window[busier.index]? = some more :=
      List.getElem?_set_self inside
    rw [units, updateBaseGasPrice_units isTarget recordedMore busierFits]
    exact max_le_max_right _ (rawPrice_mono priceNonneg rateNonneg positive ordered)
  · rw [units, Dec.toRat_mono.map_max, max_comm (Dec.toRat params.minBaseGasPrice.units)]
    exact (abs_max_sub_max_le_abs _ _ _).trans (abs_rawPrice_sub_le priceNonneg rateNonneg positive)

end Update

/-- A full block in a window of two raises the price of the sample parameters. -/
theorem full_block_raises_price :
    let s : State := ⟨.percent, .half, [30000000, 0], 0⟩
    15000000 < 30000000
      ∧ s.baseGasPrice.units ≤ (s.updateBaseGasPrice sampleParams 30000000).baseGasPrice.units := by
  intro s
  have moved := @price_moves_with_demand sampleParams s 30000000 15000000 30000000
    (by decide +kernel) (by decide +kernel) (by decide) (by decide) (by decide) rfl
    (by decide +kernel)
  exact ⟨by decide, moved.1 (by decide)⟩

/-! ## The learning rate -/

/-- The share of the gas of a window that was used, as a decimal. -/
def utilization (window : List Nat) (maxBlockGas : Nat) : Int :=
  Dec.quo (window.sum * Dec.one) (maxBlockGas * window.length * Dec.one)

section Rate

variable {params : Params} {s : State} {maxBlockGas : Nat}

/-- The average of a total that does not wrap around, and how far it is from the exact one. -/
theorem getAverageGas_close (gasPos : 0 < maxBlockGas) (small : maxBlockGas < 2 ^ 63)
    (nonempty : 0 < s.window.length) (short : s.window.length ≤ maxWindow)
    (slots : ∀ gas ∈ s.window, gas ≤ maxBlockGas) (noWrap : s.window.sum < 2 ^ 64) :
    ∃ avg, s.getAverageGas maxBlockGas = some avg
      ∧ avg.units = utilization s.window maxBlockGas
      ∧ |Dec.toRat avg.units - s.window.sum / (maxBlockGas * s.window.length)| ≤ 1 / 10 ^ 18
      ∧ 0 ≤ avg.units ∧ avg.units ≤ Dec.one := by
  obtain ⟨avg, isAvg, units⟩ := getAverageGas_returns gasPos small nonempty short
  have total : s.windowTotal = s.window.sum := by
    rw [s.windowTotal_eq, Nat.mod_eq_of_lt noWrap]
  have atMost : s.window.sum ≤ maxBlockGas * s.window.length := by
    rw [mul_comm]
    exact List.sum_le_card_nsmul _ _ slots
  have cellsPos : 0 < maxBlockGas * s.window.length := Nat.mul_pos gasPos nonempty
  rw [total] at units
  have isUsed : avg.units = utilization s.window maxBlockGas := units
  rw [← Nat.cast_mul] at units
  have divisorPos : 0 < Dec.ofInt ((maxBlockGas * s.window.length : Nat) : Int) :=
    ofInt_pos cellsPos
  have sumNonneg : 0 ≤ Dec.ofInt (s.window.sum : Nat) :=
    mul_nonneg (Int.natCast_nonneg _) Dec.one_pos.le
  refine ⟨avg, isAvg, isUsed, ?_, ?_, ?_⟩
  · have close := @Dec.abs_toRat_quo_sub_le_unit (Dec.ofInt (s.window.sum : Nat)) _ divisorPos
    rw [Dec.toRat_ofInt, Dec.toRat_ofInt] at close
    rw [units]
    simpa only [Dec.ofInt, Int.cast_natCast, Nat.cast_mul, Int.cast_mul] using close
  · rw [units]
    exact Dec.quo_nonneg sumNonneg divisorPos
  · rw [units]
    apply Dec.quo_le sumNonneg divisorPos
    rw [mul_comm Dec.one]
    apply mul_le_mul_of_nonneg_right _ Dec.one_pos.le
    apply mul_le_mul_of_nonneg_right _ Dec.one_pos.le
    exact_mod_cast atMost

/-- A product with a factor of at most one fits. -/
theorem mul_beta_fits (rate : BoundedDec) {beta : BoundedDec} (nonneg : 0 ≤ beta.units)
    (atMost : beta.units ≤ Dec.one) :
    ∃ product, rate.mul beta = some product
      ∧ product.units = Dec.mul rate.units beta.units := by
  apply BoundedDec.exists_ofUnits?
  have bound : |rate.units| * beta.units ≤ |rate.units| * Dec.one :=
    mul_le_mul_of_nonneg_left atMost (abs_nonneg _)
  have above : Dec.mul rate.units beta.units ≤ |rate.units| :=
    roundHalfEven_le Dec.one_pos
      ((mul_le_mul_of_nonneg_right (le_abs_self _) nonneg).trans bound)
  have below : -|rate.units| ≤ Dec.mul rate.units beta.units := by
    apply le_roundHalfEven Dec.one_pos
    have lower := mul_le_mul_of_nonneg_right (neg_abs_le rate.units) nonneg
    linarith
  have fits := rate.fits
  rw [Int.abs_eq_natAbs] at above below
  omega

/-- A utilization near an end of its range, where the learning rate is raised. -/
def Params.Raises (params : Params) (used : Int) : Prop :=
  used ≤ params.gamma.units ∨ Dec.one - params.gamma.units ≤ used

instance (params : Params) (used : Int) : Decidable (params.Raises used) :=
  inferInstanceAs (Decidable (_ ∨ _))

/-- The total of the window fits into a machine integer, and a raised learning rate into a
decimal, unless there is only one learning rate. -/
structure NoOverflow (params : Params) (s : State) (maxBlockGas : Nat) : Prop where
  total : s.window.sum < 2 ^ 64
  rate : params.Raises (utilization s.window maxBlockGas) →
    params.alpha.units + s.learningRate.units < decLimit
      ∨ params.minLearningRate = params.maxLearningRate

theorem outsideBand_eq (valid : params.Valid) (avg : BoundedDec) :
    State.outsideBand params avg = some (decide (params.Raises avg.units)) := by
  obtain ⟨upper, isUpper, upperUnits⟩ : ∃ upper, BoundedDec.one.sub params.gamma = some upper
      ∧ upper.units = Dec.one - params.gamma.units := by
    apply BoundedDec.exists_ofUnits?
    have gammaLe := valid.gammaLe
    have gammaNonneg := valid.gammaNonneg
    have limit : 2 ^ 256 ≤ decLimit := by decide
    simp only [BoundedDec.one, Dec.one_eq] at *
    omega
  unfold State.outsideBand Params.Raises
  by_cases inside : avg.units ≤ params.gamma.units <;>
    simp [inside, isUpper, upperUnits]

/-- A total that wraps around is far from the exact one. -/
theorem getAverageGas_far (gasPos : 0 < maxBlockGas) (small : maxBlockGas < 2 ^ 63)
    (nonempty : 0 < s.window.length) (short : s.window.length ≤ maxWindow)
    (wraps : 2 ^ 64 ≤ s.window.sum) {avg : BoundedDec}
    (isAvg : s.getAverageGas maxBlockGas = some avg) :
    1 / 10 ^ 18 < |Dec.toRat avg.units - s.window.sum / (maxBlockGas * s.window.length)| := by
  obtain ⟨other, isOther, units⟩ := getAverageGas_returns gasPos small nonempty short
  cases Option.some.inj (isOther.symm.trans isAvg)
  have cellsPos : 0 < maxBlockGas * s.window.length := Nat.mul_pos gasPos nonempty
  have cellsLe : maxBlockGas * s.window.length ≤ 2 ^ 63 * 1000000 :=
    Nat.mul_le_mul small.le short
  have less : s.windowTotal + 2 ^ 64 ≤ s.window.sum := by
    rw [s.windowTotal_eq]
    omega
  have close := @Dec.abs_toRat_quo_sub_le_unit (Dec.ofInt (s.windowTotal : Nat))
    (Dec.ofInt ((maxBlockGas * s.window.length : Nat) : Int)) (ofInt_pos cellsPos)
  rw [Dec.toRat_ofInt, Dec.toRat_ofInt, Int.cast_natCast, Int.cast_natCast, Dec.ofInt, Dec.ofInt,
    Nat.cast_mul, ← units] at close
  rw [← Nat.cast_mul]
  generalize s.windowTotal = total at less close
  generalize s.window.sum = sum at less ⊢
  generalize maxBlockGas * s.window.length = cells at cellsPos cellsLe close ⊢
  have cellsPosQ : (0 : ℚ) < cells := by exact_mod_cast cellsPos
  have cellsLeQ : (cells : ℚ) ≤ 2 ^ 63 * 1000000 := by exact_mod_cast cellsLe
  have lessQ : (total : ℚ) + 2 ^ 64 ≤ sum := by exact_mod_cast less
  have gap : (1 : ℚ) / 1000000 ≤ sum / cells - total / cells := by
    rw [← sub_div, le_div_iff₀ cellsPosQ]
    linarith
  rw [lt_abs]
  right
  linarith [(abs_le.mp close).2]

/-- The learning rate follows the formula unless raising it overflows, in which case it is reset
to its minimum. -/
theorem updateLearningRate_iff (valid : params.Valid) {avg : BoundedDec}
    (isAvg : s.getAverageGas maxBlockGas = some avg) :
    (s.updateLearningRate params maxBlockGas).learningRate.units
        = (if params.Raises avg.units then
            min (s.learningRate.units + params.alpha.units) params.maxLearningRate.units
          else
            max (Dec.mul s.learningRate.units params.beta.units) params.minLearningRate.units)
      ↔ (params.Raises avg.units → params.alpha.units + s.learningRate.units < decLimit
          ∨ params.minLearningRate = params.maxLearningRate) := by
  rw [State.updateLearningRate, State.newLearningRate, isAvg]
  simp only [some_bind, outsideBand_eq valid, decide_eq_true_eq]
  by_cases raises : params.Raises avg.units
  · simp only [raises, if_true, true_implies]
    have alphaNonneg := valid.alphaNonneg
    have rateFits := s.learningRate.fits
    by_cases fits : params.alpha.units + s.learningRate.units < decLimit
    · obtain ⟨raised, isRaised, units⟩ :=
        @BoundedDec.exists_ofUnits? (params.alpha.units + s.learningRate.units) (by omega)
      simp only [BoundedDec.add, isRaised, some_bind, Option.pure_def, Option.getD_some, fits,
        true_or, iff_true]
      split_ifs <;> omega
    · -- the sum is above every decimal, so only the maximum is right
      have maxFits := params.maxLearningRate.fits
      have overflows : params.alpha.add s.learningRate = none := dif_neg (by omega)
      rw [overflows, min_eq_right (by omega)]
      simp only [fits, false_or]
      exact BoundedDec.ext_iff.symm
  · obtain ⟨lowered, isLowered, units⟩ := mul_beta_fits s.learningRate valid.betaNonneg valid.betaLe
    simp only [raises, if_false, isLowered, some_bind, Option.pure_def, Option.getD_some,
      false_implies, iff_true]
    split_ifs <;> omega

/-- The learning rate reacts to the exact average of the window, up to the last digit, if and
only if nothing overflows. -/
theorem learning_rate_follows_utilization_iff (accepted : params.validateBasic = none)
    (gasPos : 0 < maxBlockGas) (small : maxBlockGas < 2 ^ 63) (nonempty : 0 < s.window.length)
    (short : s.window.length ≤ maxWindow) (slots : ∀ gas ∈ s.window, gas ≤ maxBlockGas) :
    (∃ avg, s.getAverageGas maxBlockGas = some avg
      ∧ |Dec.toRat avg.units - s.window.sum / (maxBlockGas * s.window.length)| ≤ 1 / 10 ^ 18
      ∧ 0 ≤ avg.units ∧ avg.units ≤ Dec.one
      ∧ (s.updateLearningRate params maxBlockGas).learningRate.units
        = if params.Raises avg.units then
            min (s.learningRate.units + params.alpha.units) params.maxLearningRate.units
          else
            max (Dec.mul s.learningRate.units params.beta.units) params.minLearningRate.units)
      ↔ NoOverflow params s maxBlockGas := by
  have valid := Params.valid_of_validateBasic accepted
  by_cases noWrap : s.window.sum < 2 ^ 64
  · obtain ⟨avg, isAvg, isUsed, close, low, high⟩ :=
      getAverageGas_close gasPos small nonempty short slots noWrap
    have follows := @updateLearningRate_iff params s maxBlockGas valid avg isAvg
    rw [isUsed] at follows
    constructor
    · rintro ⟨other, isOther, _, _, _, formula⟩
      cases Option.some.inj (isAvg.symm.trans isOther)
      rw [isUsed] at formula
      exact ⟨noWrap, follows.mp formula⟩
    · intro fits
      refine ⟨avg, isAvg, close, low, high, ?_⟩
      rw [isUsed]
      exact follows.mpr fits.rate
  · constructor
    · rintro ⟨avg, isAvg, close, _⟩
      exact absurd (getAverageGas_far gasPos small nonempty short (not_lt.mp noWrap) isAvg)
        (not_lt.mpr close)
    · exact fun fits => absurd fits.total noWrap

end Rate

/-- Two full slots and two units of gas add up to zero: a window that is two thirds full counts
as an empty one. -/
theorem full_window_counts_as_empty :
    let s : State := ⟨.percent, .percent, [2 ^ 63 - 1, 2 ^ 63 - 1, 2], 0⟩
    (∀ gas ∈ s.window, gas ≤ 2 ^ 63 - 1)
      ∧ (s.getAverageGas (2 ^ 63 - 1)).map BoundedDec.units = some 0
      ∧ (2 : ℚ) / 3 ≤ s.window.sum / ((2 ^ 63 - 1) * s.window.length) := by
  refine ⟨by decide, by decide +kernel, ?_⟩
  norm_num

/-- Half a window of gas is within the band of the sample parameters. -/
theorem half_full_window_lowers_rate :
    let s : State := ⟨.percent, .half, [20000000, 10000000], 0⟩
    ∃ avg, s.getAverageGas 30000000 = some avg ∧ 0 ≤ avg.units ∧ avg.units ≤ Dec.one
      ∧ (s.updateLearningRate sampleParams 30000000).learningRate.units
        = 475000000000000000 := by
  intro s
  have fits : NoOverflow sampleParams s 30000000 := ⟨by decide, fun _ => .inl (by decide +kernel)⟩
  obtain ⟨avg, isAvg, _, low, high, _⟩ := (@learning_rate_follows_utilization_iff sampleParams s
    30000000 (by decide +kernel) (by decide) (by decide) (by decide) (by decide)
    (by decide)).mpr fits
  exact ⟨avg, isAvg, low, high, by decide +kernel⟩

end AtomOneSdk.DynamicFee
