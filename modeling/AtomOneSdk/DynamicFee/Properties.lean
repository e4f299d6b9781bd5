import AtomOneSdk.DynamicFee.Keeper

/-!
Contract: the dynamic fee state stays well formed and the end blocker never stops.

Owns: what accepted parameters guarantee, that no value computed outside of a recover
panics, the invariant of the state with the limits its slots were recorded under, and
its preservation in every run.

Does **not** own: how well the price follows demand.
-/

namespace AtomOneSdk.DynamicFee

open Lib Lib.Action List

/-! ## Accepted parameters -/

/-- What `ValidateBasic` guarantees of the parameters it accepts. -/
structure Params.Valid (p : Params) : Prop where
  windowPos : 0 < p.window
  windowLe : p.window ≤ maxWindow
  alphaNonneg : 0 ≤ p.alpha.units
  betaNonneg : 0 ≤ p.beta.units
  betaLe : p.beta.units ≤ Dec.one
  gammaLe : p.gamma.units ≤ Dec.one
  gammaNonneg : 0 ≤ p.gamma.units
  priceNonneg : 0 ≤ p.minBaseGasPrice.units
  targetPos : 0 < p.targetBlockUtilization.units
  targetLe : p.targetBlockUtilization.units ≤ Dec.one
  gasPos : 0 < p.defaultMaxBlockGas
  gasLt : p.defaultMaxBlockGas < 2 ^ 63
  ratesNonneg : 0 ≤ p.minLearningRate.units
  ratesOrdered : p.minLearningRate.units ≤ p.maxLearningRate.units

theorem firstError_eq_none {checks : List (Bool × String)} :
    firstError checks = none ↔ ∀ check ∈ checks, check.1 = false := by
  induction checks with
  | nil => simp [firstError]
  | cons head rest ih =>
    rw [firstError, forall_mem_cons, ← ih]
    cases head.1 <;> simp

theorem Params.valid_of_validateBasic {p : Params} (accepted : p.validateBasic = none) :
    p.Valid := by
  have passed := firstError_eq_none.mp accepted
  simp only [Params.checks, forall_mem_cons, decide_eq_false_iff_not, not_or, not_lt,
    not_le] at passed
  obtain ⟨window, longest, alpha, beta, gamma, price, target, gas, most, minRate, _, ordered,
    _⟩ := passed
  have limit : maxDefaultMaxBlockGas = 2 ^ 63 - 1 := rfl
  have half : BoundedDec.half.units ≤ Dec.one := by decide
  exact ⟨by omega, longest, alpha, beta.1, beta.2, gamma.2.trans half, gamma.1, price, target.1,
    target.2, by omega, by omega, minRate, ordered⟩

/-! ## Values that are computed outside of a recover -/

theorem decOfNat_of_lt {value : Nat} (small : value < 2 ^ 128) :
    ∃ dec, decOfNat value = some dec ∧ dec.units = value * Dec.one := by
  apply BoundedDec.exists_ofUnits?
  have limit : 2 ^ 256 ≤ decLimit := by decide
  simp only [Dec.ofInt, Dec.one_eq]
  omega

/-- The target is at most the max block gas. -/
theorem getTargetBlockGas_returns {params : Params} (valid : params.Valid) {maxBlockGas : Nat}
    (small : maxBlockGas < 2 ^ 63) :
    ∃ target, getTargetBlockGas maxBlockGas params = some target ∧ target ≤ maxBlockGas := by
  obtain ⟨max, isMax, maxUnits⟩ := decOfNat_of_lt (show maxBlockGas < 2 ^ 128 by omega)
  have targetPos := valid.targetPos
  have targetLe := valid.targetLe
  have onePos := Dec.one_pos
  have productNonneg : 0 ≤ Dec.mul max.units params.targetBlockUtilization.units := by
    apply roundHalfEven_nonneg onePos
    rw [maxUnits]
    positivity
  have productLe : Dec.mul max.units params.targetBlockUtilization.units
      ≤ maxBlockGas * Dec.one := by
    apply roundHalfEven_le onePos
    rw [maxUnits]
    apply mul_le_mul_of_nonneg_left targetLe
    positivity
  have fits : (Dec.mul max.units params.targetBlockUtilization.units).natAbs < decLimit := by
    have limit : 2 ^ 256 ≤ decLimit := by decide
    simp only [Dec.one_eq] at productLe
    omega
  obtain ⟨product, isProduct, productUnits⟩ := BoundedDec.exists_ofUnits? fits
  have truncated : Dec.truncateInt product.units ≤ maxBlockGas := by
    rw [productUnits]
    exact tdiv_le_of_le_mul onePos productNonneg productLe
  refine ⟨_, by simp [getTargetBlockGas, isMax, BoundedDec.mul, isProduct]; rfl, ?_⟩
  split_ifs <;> omega

theorem foldl_total_mod (window : List Nat) :
    ∀ start < 2 ^ 64, window.foldl (fun sum gas => (sum + gas) % 2 ^ 64) start
      = (start + window.sum) % 2 ^ 64 := by
  induction window with
  | nil => exact fun start small => (Nat.mod_eq_of_lt small).symm
  | cons gas rest ih =>
    intro start _
    rw [List.foldl_cons, ih _ (Nat.mod_lt _ (by decide)), List.sum_cons, Nat.mod_add_mod, add_assoc]

theorem State.windowTotal_eq (s : State) : s.windowTotal = s.window.sum % 2 ^ 64 := by
  have total := foldl_total_mod s.window 0 (by decide)
  rwa [Nat.zero_add] at total

theorem mul_whole (left right : Int) :
    Dec.mul (left * Dec.one) (right * Dec.one) = left * right * Dec.one := by
  have exact : left * Dec.one * (right * Dec.one) = left * right * Dec.one * Dec.one := by ring
  apply le_antisymm
  · exact roundHalfEven_le Dec.one_pos (le_of_eq exact)
  · exact le_roundHalfEven Dec.one_pos (le_of_eq exact.symm)

/-- The average of a window that is not empty is defined. -/
theorem getAverageGas_returns {s : State} {maxBlockGas : Nat} (gasPos : 0 < maxBlockGas)
    (small : maxBlockGas < 2 ^ 63) (nonempty : 0 < s.window.length)
    (short : s.window.length ≤ maxWindow) :
    ∃ avg, s.getAverageGas maxBlockGas = some avg
      ∧ avg.units = Dec.quo (s.windowTotal * Dec.one)
          (maxBlockGas * s.window.length * Dec.one) := by
  have limit : 2 ^ 256 ≤ decLimit := by decide
  have longest : maxWindow = 1000000 := rfl
  have onePos := Dec.one_pos
  have totalLt : s.windowTotal < 2 ^ 64 := by
    rw [s.windowTotal_eq]
    exact Nat.mod_lt _ (by decide)
  unfold State.getAverageGas
  generalize s.windowTotal = total at totalLt ⊢
  generalize s.window.length = length at nonempty short ⊢
  obtain ⟨sum, isSum, sumUnits⟩ := decOfNat_of_lt (show total < 2 ^ 128 by omega)
  obtain ⟨multiple, isMultiple, multipleUnits⟩ := decOfNat_of_lt (show length < 2 ^ 128 by omega)
  obtain ⟨max, isMax, maxUnits⟩ := decOfNat_of_lt (show maxBlockGas < 2 ^ 128 by omega)
  -- the divisor is a positive whole number
  have product : (maxBlockGas : Int) * length ≤ 2 ^ 63 * 1000000 := by
    apply mul_le_mul
    · omega
    · omega
    · omega
    · norm_num
  have productPos : (1 : Int) ≤ maxBlockGas * length := by
    have positive : 0 < maxBlockGas * length := Nat.mul_pos gasPos nonempty
    exact_mod_cast positive
  have divisorUnits : Dec.mul max.units multiple.units = maxBlockGas * length * Dec.one := by
    rw [maxUnits, multipleUnits, mul_whole]
  generalize (maxBlockGas : Int) * length = cells at product productPos divisorUnits ⊢
  have divisorFits : (Dec.mul max.units multiple.units).natAbs < decLimit := by
    rw [divisorUnits, Dec.one_eq]
    omega
  obtain ⟨divisor, isDivisor, divisorIs⟩ := BoundedDec.exists_ofUnits? divisorFits
  have atLeast : Dec.one ≤ divisor.units := by
    rw [divisorIs, divisorUnits, Dec.one_eq]
    omega
  have divisorPos : 0 < divisor.units := lt_of_lt_of_le onePos atLeast
  have sumNonneg : 0 ≤ sum.units := by
    rw [sumUnits, Dec.one_eq]
    omega
  have quotientNonneg := Dec.quo_nonneg sumNonneg divisorPos
  have quotientLe : Dec.quo sum.units divisor.units ≤ sum.units :=
    Dec.quo_le sumNonneg divisorPos (mul_le_mul_of_nonneg_left atLeast sumNonneg)
  have quotientFits : (Dec.quo sum.units divisor.units).natAbs < decLimit := by
    have sumFits := sum.fits
    omega
  obtain ⟨avg, isAvg, avgUnits⟩ := BoundedDec.exists_ofUnits? quotientFits
  refine ⟨avg, ?_, ?_⟩
  · simp only [isSum, isMultiple, isMax, BoundedDec.mul, isDivisor, BoundedDec.quo,
      divisorPos.ne', if_false, some_bind, isAvg]
  · rw [avgUnits, sumUnits, divisorIs, divisorUnits]

/-- The differences of a window of small slots add up within 256 bits. -/
theorem netGas_loop (target : Nat) (targetLt : target < 2 ^ 64) (window : List Nat)
    (slots : ∀ gas ∈ window, gas < 2 ^ 64) :
    ∀ net : Int, net.natAbs + window.length * 2 ^ 64 < 2 ^ 256 →
      ∃ total, window.foldlM (fun net gas => do
          let diff ← State.checkedInt ((gas : Int) - target)
          State.checkedInt (net + diff)) net = some total := by
  induction window with
  | nil => exact fun net _ => ⟨net, rfl⟩
  | cons gas rest ih =>
    intro net room
    have gasLt := slots gas mem_cons_self
    rw [length_cons] at room
    have diffFits : ((gas : Int) - target).natAbs < 2 ^ 256 := by omega
    have netFits : (net + ((gas : Int) - target)).natAbs < 2 ^ 256 := by omega
    obtain ⟨total, isTotal⟩ := ih
      (fun other member => slots other (mem_cons_of_mem gas member))
      (net + ((gas : Int) - target)) (by omega)
    refine ⟨total, ?_⟩
    rw [foldlM_cons]
    simp only [State.checkedInt, diffFits, netFits, if_true, some_bind]
    exact isTotal

theorem getNetGas_returns {s : State} {params : Params} (valid : params.Valid) {maxBlockGas : Nat}
    (small : maxBlockGas < 2 ^ 63) (slots : ∀ gas ∈ s.window, gas < 2 ^ 64)
    (short : s.window.length ≤ maxWindow) :
    ∃ net, s.getNetGas maxBlockGas params = some net := by
  have longest : maxWindow = 1000000 := rfl
  obtain ⟨target, isTarget, targetLe⟩ := getTargetBlockGas_returns valid small
  obtain ⟨net, isNet⟩ := netGas_loop target (by omega) s.window slots 0 (by simp; omega)
  refine ⟨net, ?_⟩
  simp only [State.getNetGas, isTarget, some_bind]
  exact isNet

/-! ## Learning rate and base gas price -/

/-- The learning rate is within its bounds and the price is at least its minimum. -/
structure Priced (params : Params) (s : State) : Prop where
  price : params.minBaseGasPrice.units ≤ s.baseGasPrice.units
  rateLow : params.minLearningRate.units ≤ s.learningRate.units
  rateHigh : s.learningRate.units ≤ params.maxLearningRate.units

section Updates

variable {params : Params} {s : State} {maxBlockGas : Nat}

/-- An increase is capped above and a decrease below. -/
theorem newLearningRate_bounds (valid : params.Valid) (rateNonneg : 0 ≤ s.learningRate.units)
    {lr : BoundedDec} (computed : s.newLearningRate params maxBlockGas = some lr) :
    min params.minLearningRate.units s.learningRate.units ≤ lr.units
      ∧ lr.units ≤ max params.maxLearningRate.units s.learningRate.units := by
  have ordered := valid.ratesOrdered
  simp only [State.newLearningRate, Option.bind_eq_bind, Option.bind_eq_some_iff] at computed
  obtain ⟨avg, _, outside, _, computed⟩ := computed
  split_ifs at computed
  · obtain ⟨raised, isRaised, capped⟩ := Option.bind_eq_some_iff.mp computed
    have units := BoundedDec.units_add isRaised
    have alpha := valid.alphaNonneg
    cases capped
    split_ifs <;> omega
  · obtain ⟨lowered, isLowered, capped⟩ := Option.bind_eq_some_iff.mp computed
    have units := BoundedDec.units_mul isLowered
    have atMost : Dec.mul s.learningRate.units params.beta.units ≤ s.learningRate.units :=
      roundHalfEven_le Dec.one_pos (mul_le_mul_of_nonneg_left valid.betaLe rateNonneg)
    cases capped
    split_ifs <;> omega

theorem Priced.updateLearningRate (maxBlockGas : Nat) (valid : params.Valid)
    (held : Priced params s) :
    Priced params (s.updateLearningRate params maxBlockGas) := by
  unfold State.updateLearningRate
  cases computed : s.newLearningRate params maxBlockGas with
  | none => exact ⟨held.price, le_refl _, valid.ratesOrdered⟩
  | some lr =>
    obtain ⟨low, high⟩ :=
      newLearningRate_bounds valid (valid.ratesNonneg.trans held.rateLow) computed
    rw [min_eq_left held.rateLow] at low
    rw [max_eq_left held.rateHigh] at high
    exact ⟨held.price, low, high⟩

theorem min_le_newBaseGasPrice {gasPrice : BoundedDec}
    (computed : s.newBaseGasPrice params maxBlockGas = some gasPrice) :
    params.minBaseGasPrice.units ≤ gasPrice.units := by
  simp only [State.newBaseGasPrice, Option.bind_eq_bind, Option.bind_eq_some_iff] at computed
  obtain ⟨_, _, _, _, _, _, _, _, _, _, _, _, _, _, _, _, price, _, capped⟩ := computed
  cases capped
  split_ifs <;> omega

theorem Priced.updateBaseGasPrice (maxBlockGas : Nat) (valid : params.Valid)
    (held : Priced params s) :
    Priced params (s.updateBaseGasPrice params maxBlockGas) := by
  unfold State.updateBaseGasPrice
  cases computed : s.newBaseGasPrice params maxBlockGas with
  | none => exact ⟨le_refl _, le_refl _, valid.ratesOrdered⟩
  | some gasPrice =>
    exact ⟨min_le_newBaseGasPrice computed, held.rateLow, held.rateHigh⟩

theorem updateLearningRate_window :
    (s.updateLearningRate params maxBlockGas).window = s.window := by
  unfold State.updateLearningRate
  generalize s.newLearningRate params maxBlockGas = computed
  cases computed with
  | none => rfl
  | some rate => rfl

theorem updateBaseGasPrice_window :
    (s.updateBaseGasPrice params maxBlockGas).window = s.window := by
  unfold State.updateBaseGasPrice
  generalize s.newBaseGasPrice params maxBlockGas = computed
  cases computed with
  | none => rfl
  | some gasPrice => rfl

end Updates

/-! ## The window -/

/-- Every slot is at most the limit it was recorded under. -/
structure Recorded (window limits : List Nat) : Prop where
  length : limits.length = window.length
  slot : ∀ {i gas limit : Nat}, window[i]? = some gas → limits[i]? = some limit → gas ≤ limit
  limit : ∀ limit ∈ limits, limit < 2 ^ 63

namespace Recorded

variable {window limits : List Nat}

theorem set (held : Recorded window limits) {index gas limit : Nat} (within : gas ≤ limit)
    (small : limit < 2 ^ 63) : Recorded (window.set index gas) (limits.set index limit) where
  length := by
    rw [length_set, length_set]
    exact held.length
  slot := by
    intro i slot bound inWindow inLimits
    by_cases here : index = i
    · rw [← here] at inWindow inLimits
      rw [getElem?_set] at inWindow inLimits
      simp only [if_true] at inWindow inLimits
      split_ifs at inWindow inLimits
      cases inWindow
      cases inLimits
      exact within
    · rw [getElem?_set_ne here] at inWindow inLimits
      exact held.slot inWindow inLimits
  limit := by
    intro bound member
    rcases mem_or_eq_of_mem_set member with old | new
    · exact held.limit bound old
    · rw [new]
      exact small

theorem clear (held : Recorded window limits) (index : Nat) :
    Recorded (window.set index 0) limits where
  length := by
    rw [length_set]
    exact held.length
  slot := by
    intro i slot bound inWindow inLimits
    by_cases here : index = i
    · rw [getElem?_set, if_pos here] at inWindow
      split_ifs at inWindow
      cases inWindow
      exact Nat.zero_le bound
    · rw [getElem?_set_ne here] at inWindow
      exact held.slot inWindow inLimits
  limit := held.limit

theorem slots_lt (held : Recorded window limits) : ∀ gas ∈ window, gas < 2 ^ 64 := by
  intro gas member
  obtain ⟨i, inWindow⟩ := mem_iff_getElem?.mp member
  have inside : i < limits.length := by
    rw [held.length]
    exact (List.getElem?_eq_some_iff.mp inWindow).1
  have bound := held.slot inWindow (getElem?_eq_getElem inside)
  have small := held.limit _ (getElem_mem inside)
  omega

end Recorded

/-! ## Operations -/

/-- The keeper is well formed, with the limits under which its slots were recorded. -/
structure KeeperOK (limits : List Nat) (k : Keeper) : Prop where
  valid : k.params.Valid
  slots : k.state.window.length = k.params.window
  index : k.state.index < k.state.window.length
  priced : Priced k.params k.state
  recorded : Recorded k.state.window limits

/-- A `MaxGas` that consensus parameters may have: no limit, or a positive one. -/
def ValidMaxGas (maxGas : Int) : Prop := maxGas = 0 ∨ maxGas = -1 ∨ (0 < maxGas ∧ maxGas < 2 ^ 63)

instance (maxGas : Int) : Decidable (ValidMaxGas maxGas) := by
  unfold ValidMaxGas
  infer_instance

theorem getMaxBlockGas_bounds {params : Params} (valid : params.Valid) {maxGas : Int}
    (possible : ValidMaxGas maxGas) :
    0 < getMaxBlockGas maxGas params ∧ getMaxBlockGas maxGas params < 2 ^ 63 := by
  unfold getMaxBlockGas
  have positive := valid.gasPos
  have small := valid.gasLt
  split_ifs with unlimited
  · exact ⟨positive, small⟩
  · rcases possible with zero | minus | ⟨above, below⟩
    · exact absurd (Or.inl zero) unlimited
    · exact absurd (Or.inr minus) unlimited
    · rw [Int.emod_eq_of_lt above.le (by omega)]
      omega

/-- The limits after a block whose gas is recorded. -/
def recordLimit (ctx : BlockContext) (k : Keeper) (limits : List Nat) : List Nat :=
  if k.params.enabled = true ∧ ctx.blockGas.isSome then
    limits.set k.state.index (getMaxBlockGas ctx.maxGas k.params)
  else limits

variable {k : Keeper} {ctx : BlockContext} {authority : String}

/-- The current slot, clamped to the limit in force. -/
theorem recordBlockGas_spec {limits : List Nat} (held : KeeperOK limits k)
    (possible : ValidMaxGas ctx.maxGas) (enabled : k.params.enabled = true) :
    Post (recordBlockGas ctx.blockGas (getMaxBlockGas ctx.maxGas k.params) k.state) k
      (fun state k' => k' = k ∧ state.window.length = k.state.window.length
        ∧ Priced k.params state ∧ Recorded state.window (recordLimit ctx k limits))
      (fun _ _ => False) := by
  obtain ⟨_, gasLt⟩ := getMaxBlockGas_bounds held.valid possible
  unfold recordBlockGas recordLimit
  cases ctx.blockGas with
  | none =>
    rw [if_neg (by simp)]
    exact ⟨rfl, rfl, held.priced, held.recorded⟩
  | some gas =>
    dsimp only
    rw [post_bind, post_crashIf, if_pos ⟨enabled, rfl⟩]
    refine ⟨fun outside => absurd held.index (not_lt.mpr outside), fun _ => ?_⟩
    refine ⟨rfl, length_set, ⟨held.priced.price, held.priced.rateLow,
      held.priced.rateHigh⟩, ?_⟩
    exact held.recorded.set (min_le_right _ _) gasLt

/-- The values of the log line are defined, and the window moves on. -/
theorem finishBlock_spec {limits : List Nat} (valid : k.params.Valid) {maxBlockGas : Nat}
    (gasPos : 0 < maxBlockGas) (gasLt : maxBlockGas < 2 ^ 63) {state : State}
    (length : state.window.length = k.params.window) (priced : Priced k.params state)
    (slots : Recorded state.window limits) :
    Post (do
        let _ ← getOrCrash (state.getAverageGas maxBlockGas) "GetAverageGas"
        let _ ← getOrCrash (state.getNetGas maxBlockGas k.params) "GetNetGas"
        let state ← incrementHeight state
        modify fun k => { k with state := state } : KeeperM Unit) k
      (fun _ => KeeperOK limits) (fun _ _ => False) := by
  have nonempty : 0 < state.window.length := by
    rw [length]
    exact valid.windowPos
  have short : state.window.length ≤ maxWindow := by
    rw [length]
    exact valid.windowLe
  obtain ⟨avg, isAvg, _⟩ := getAverageGas_returns gasPos gasLt nonempty short
  obtain ⟨net, isNet⟩ := getNetGas_returns valid gasLt slots.slots_lt short
  rw [isAvg, isNet, post_bind, post_getOrCrash]
  refine ⟨fun _ _ => ?_, fun absent => by cases absent⟩
  rw [post_bind, post_getOrCrash]
  refine ⟨fun _ _ => ?_, fun absent => by cases absent⟩
  rw [post_bind, incrementHeight, post_bind, post_crashIf]
  refine ⟨fun empty => absurd empty nonempty.ne', fun _ => ?_⟩
  exact
    { valid := valid
      slots := length_set.trans length
      index := by
        show (state.index + 1) % state.window.length < (state.window.set _ 0).length
        rw [length_set]
        exact Nat.mod_lt _ nonempty
      priced := ⟨priced.price, priced.rateLow, priced.rateHigh⟩
      recorded := slots.clear _ }

/-- The end blocker returns without error or panic and keeps the keeper well formed. -/
theorem updateDynamicfee_spec {limits : List Nat} (held : KeeperOK limits k)
    (possible : ValidMaxGas ctx.maxGas) :
    Post (updateDynamicfee ctx) k (fun _ => KeeperOK (recordLimit ctx k limits))
      (fun _ _ => False) := by
  obtain ⟨gasPos, gasLt⟩ := getMaxBlockGas_bounds held.valid possible
  rw [updateDynamicfee, post_bind, post_get, post_whenever]
  constructor
  · intro enabled
    rw [post_bind]
    apply (recordBlockGas_spec held possible enabled).imp
    rintro state k' ⟨same, length, priced, slots⟩
    rw [same]
    have pricedNext := (priced.updateLearningRate (getMaxBlockGas ctx.maxGas k.params)
      held.valid).updateBaseGasPrice (getMaxBlockGas ctx.maxGas k.params) held.valid
    apply finishBlock_spec held.valid gasPos gasLt _ pricedNext
    · rw [updateBaseGasPrice_window, updateLearningRate_window]
      exact slots
    · rw [updateBaseGasPrice_window, updateLearningRate_window]
      exact length.trans held.slots
  · intro disabled
    rw [recordLimit, if_neg fun on => disabled on.1]
    exact held

theorem keeperOK_newState {params : Params} (valid : params.Valid) (enabledHeight : Int) :
    KeeperOK (List.replicate params.window 0)
      ⟨params, newState params.window params.minBaseGasPrice params.minLearningRate,
        enabledHeight⟩ where
  valid := valid
  slots := length_replicate
  index := by
    show 0 < (List.replicate params.window 0).length
    rw [length_replicate]
    exact valid.windowPos
  priced := ⟨le_refl _, le_refl _, valid.ratesOrdered⟩
  recorded :=
    { length := rfl
      slot := by
        intro i gas limit inWindow _
        have zero := eq_of_mem_replicate (mem_of_getElem? inWindow)
        omega
      limit := by
        intro limit member
        rw [eq_of_mem_replicate member]
        norm_num }

/-- An update of the parameters starts a new window. -/
theorem updateParams_spec {blockHeight : Int} {msg : MsgUpdateParams} (valid : msg.params.Valid) :
    Ensures (updateParams authority blockHeight msg) k
      fun _ k' => k'.params = msg.params ∧ KeeperOK (List.replicate msg.params.window 0) k' := by
  simp only [updateParams, post_rules]
  exact fun _ _ => ⟨fun _ => keeperOK_newState valid _, fun _ => keeperOK_newState valid _⟩

/-! ## Runs -/

/-- What a run may contain: blocks under any `MaxGas`, and accepted parameters. -/
def Op.Accepted : Op → Prop
  | .endBlock ctx => ValidMaxGas ctx.maxGas
  | .updateParams _ msg => msg.params.validateBasic = none

instance (op : Op) : Decidable op.Accepted := by
  cases op <;> unfold Op.Accepted <;> infer_instance

/-- A state of a run: the keeper, and for each slot of the window the max block gas that
was in force when it was recorded. -/
structure Run where
  keeper : Keeper
  limits : List Nat

def Op.nextLimits (run : Run) (after : Keeper) : Op → List Nat
  | .endBlock ctx => recordLimit ctx run.keeper run.limits
  | .updateParams _ _ => List.replicate after.params.window 0

/-- An operation that fails changes nothing. -/
def Run.step (authority : String) (run : Run) (op : Op) : Run :=
  match op.exec authority run.keeper with
  | .ok _ after => ⟨after, op.nextLimits run after⟩
  | .error _ _ => run

theorem Run.step_ok {run : Run} {op : Op} (held : KeeperOK run.limits run.keeper)
    (accepted : op.Accepted) :
    KeeperOK (run.step authority op).limits (run.step authority op).keeper := by
  unfold Run.step
  cases op with
  | endBlock ctx =>
    have spec : Post (updateDynamicfee ctx) run.keeper _ _ := updateDynamicfee_spec held accepted
    cases ran : (Op.endBlock ctx).exec authority run.keeper with
    | ok value after => exact spec.of_ok ran
    | error fault after => exact held
  | updateParams blockHeight msg =>
    have valid := Params.valid_of_validateBasic accepted
    have spec : Post (updateParams authority blockHeight msg) run.keeper _ _ :=
      updateParams_spec valid
    cases ran : (Op.updateParams blockHeight msg).exec authority run.keeper with
    | ok value after =>
      obtain ⟨isParams, ok⟩ := spec.of_ok ran
      show KeeperOK (List.replicate after.params.window 0) after
      rw [isParams]
      exact ok
    | error fault after => exact held

theorem Run.steps_ok (ops : List Op) (accepted : ∀ op ∈ ops, op.Accepted) :
    ∀ run : Run, KeeperOK run.limits run.keeper →
      KeeperOK (ops.foldl (Run.step authority) run).limits
        (ops.foldl (Run.step authority) run).keeper := by
  induction ops with
  | nil => exact fun run held => held
  | cons op rest ih =>
    intro run held
    have first : KeeperOK (run.step authority op).limits (run.step authority op).keeper :=
      Run.step_ok held (accepted op mem_cons_self)
    exact ih (fun other member => accepted other (mem_cons_of_mem op member))
      (run.step authority op) first

/-- The keeper as an accepted update of the parameters leaves it. -/
def Run.start (params : Params) (enabledHeight : Int) : Run :=
  ⟨⟨params, newState params.window params.minBaseGasPrice params.minLearningRate, enabledHeight⟩,
    List.replicate params.window 0⟩

/-- In every run from the state an accepted update leaves, the window has the right number
of slots with the index inside, every slot is at most the max block gas in force when
it was recorded, price and learning rate keep their bounds, and the end blocker
returns without error or panic. -/
theorem dynamicfee_stays_well_formed (authority : String) (params : Params) (enabledHeight : Int)
    (initial : params.validateBasic = none) (ops : List Op) (accepted : ∀ op ∈ ops, op.Accepted) :
    let run := ops.foldl (Run.step authority) (Run.start params enabledHeight)
    let state := run.keeper.state
    let params := run.keeper.params
    state.window.length = params.window
      ∧ state.index < state.window.length
      ∧ run.limits.length = state.window.length
      ∧ (∀ (i gas limit : Nat), state.window[i]? = some gas → run.limits[i]? = some limit →
          gas ≤ limit)
      ∧ params.minBaseGasPrice.units ≤ state.baseGasPrice.units
      ∧ params.minLearningRate.units ≤ state.learningRate.units
      ∧ state.learningRate.units ≤ params.maxLearningRate.units
      ∧ ∀ ctx : BlockContext, ValidMaxGas ctx.maxGas →
          ∃ after, updateDynamicfee ctx run.keeper = .ok () after := by
  intro run state params'
  have start : KeeperOK (Run.start params enabledHeight).limits
      (Run.start params enabledHeight).keeper :=
    keeperOK_newState (Params.valid_of_validateBasic initial) enabledHeight
  have held : KeeperOK run.limits run.keeper := Run.steps_ok ops accepted _ start
  refine ⟨held.slots, held.index, held.recorded.length, fun _ _ _ => held.recorded.slot,
    held.priced.price, held.priced.rateLow, held.priced.rateHigh, ?_⟩
  intro ctx possible
  have spec := updateDynamicfee_spec held possible
  unfold Post at spec
  cases ran : updateDynamicfee ctx run.keeper with
  | ok value after => exact ⟨after, rfl⟩
  | error fault after =>
    rw [ran] at spec
    exact spec.elim

def sampleParams : Params where
  alpha := ⟨25000000000000000, by decide⟩
  beta := ⟨950000000000000000, by decide⟩
  gamma := ⟨250000000000000000, by decide⟩
  minBaseGasPrice := .percent
  targetBlockUtilization := .half
  defaultMaxBlockGas := 30000000
  minLearningRate := .percent
  maxLearningRate := .half
  window := 2
  feeDenom := "uphoton"
  enabled := true

/-- A full block under an unlimited `MaxGas`, then one with a lower limit. -/
theorem dynamicfee_after_two_blocks :
    let ops : List Op := [.endBlock ⟨some 90000000, -1⟩, .endBlock ⟨some 20000000, 10000000⟩]
    let run := ops.foldl (Run.step "gov") (Run.start sampleParams 1)
    run.keeper.state.window = [0, 10000000] ∧ run.limits = [30000000, 10000000]
      ∧ sampleParams.minBaseGasPrice.units < run.keeper.state.baseGasPrice.units
      ∧ run.keeper.state.window.length = run.keeper.params.window := by
  intro ops run
  have formed := dynamicfee_stays_well_formed "gov" sampleParams 1 (by decide +kernel) ops
    (by decide +kernel)
  exact ⟨by decide +kernel, by decide +kernel, by decide +kernel, formed.1⟩

end AtomOneSdk.DynamicFee
