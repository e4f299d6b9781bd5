import AtomOneSdk.Gov.Properties
import AtomOneSdk.Gov.TallyValue

/-!
Contract: a tally counts every unit of stake at most once.

Owns: the tally with exact fractions as a sum over the delegations that somebody
decided over, the distance of the code's decimals from it, and its bound by the bonded
tokens.

Does **not** own: runs; every state with consistent share accounting is covered.
-/

namespace AtomOneSdk.Gov

open Lib Lib.Action Store
open Staking (Address StakingState Delegation Validator)

variable {s : StakingState} {g : GovState} {currValidators : Store Address Validator}
  {proposalId : Nat}

/-! ## Exact fractions are linear -/

def rate (currValidators : Store Address Validator) (valAddr : Address) : ℚ :=
  ((currValidators.get? valAddr).map fun v => (v.bondedTokens : ℚ) / v.delegatorShares).getD 0

theorem powerOf_fractions (valAddr : Address) (shares : Int) :
    powerOf fractions currValidators valAddr shares = shares * rate currValidators valAddr := by
  unfold powerOf rate
  cases currValidators.get? valAddr with
  | none => simp
  | some v => exact mul_div_assoc _ _ _

/-- The part of a voting power that goes to the total, or to one option. -/
def weightOf (which : Option VoteOption) (options : List WeightedVoteOption) : ℚ :=
  match which with
  | none => 1
  | some option => (options.map fun weighted =>
    if weighted.option = option then (weighted.weight : ℚ) / Dec.one else 0).sum

theorem gain_fractions (which : Option VoteOption) (options : List WeightedVoteOption)
    (power : ℚ) : gain fractions which options power = power * weightOf which options := by
  cases which with
  | none => exact (mul_one power).symm
  | some option =>
    unfold gain optionPart weightOf
    induction options with
    | nil => simp
    | cons weighted rest ih =>
      dsimp only at ih ⊢
      rw [List.map_cons, List.sum_cons, List.map_cons, List.sum_cons, ih, mul_add]
      congr 1
      split_ifs
      · exact mul_div_assoc _ _ _
      · simp

/-! ## What is left to a governor, by delegation -/

variable (ready : TallyReady s g currValidators)

include ready

/-- A sum over the validators tracked for a governor, as a sum over all tracked shares. -/
theorem sum_trackedShares (govAddr : Address) (f : Address → ℚ) :
    (trackedShares g govAddr).sum (fun valAddr _ => f valAddr)
      = g.validatorSharesByGovernor.sum fun key _ =>
        if key.fst = govAddr then f key.snd else 0 := by
  have looked : (trackedShares g govAddr).sum (fun valAddr _ => f valAddr)
      = (trackedShares g govAddr).sum fun valAddr _ =>
          g.validatorSharesByGovernor.sum fun key _ =>
            if key = ⟨govAddr, valAddr⟩ then f key.snd else 0 := by
    apply sum_congr
    intro valAddr shares present
    rw [get?_trackedShares ready.tracked] at present
    obtain ⟨record, stored, _⟩ := Option.map_eq_some_iff.mp present
    rw [sum_single fun _ => Iff.rfl, termAt_of_some stored]
  rw [looked, sum_comm]
  apply sum_congr
  intro key record stored
  by_cases here : key.fst = govAddr
  · have present : (trackedShares g govAddr).get? key.snd = some record.shares := by
      rw [get?_trackedShares ready.tracked, ← here, stored]
      rfl
    have isKey : ∀ valAddr, key = ⟨govAddr, valAddr⟩ ↔ valAddr = key.snd := by
      intro valAddr
      constructor
      · intro same
        rw [same]
      · intro same
        rw [same, ← here]
    rw [sum_single isKey, termAt_of_some present, if_pos here]
  · rw [if_neg here]
    apply sum_eq_zero
    intro valAddr _ _
    exact if_neg fun same => here (by rw [same])

theorem tracked_of_follower {key : Pair Address Address}
    {d : Delegation} {govAddr : Address} (stored : s.delegations.get? key = some d)
    (follows : g.governorOf key.fst = some govAddr) :
    ((trackedShares g govAddr).get? key.snd).isSome := by
  rw [get?_trackedShares ready.tracked]
  cases present : g.validatorSharesByGovernor.get? ⟨govAddr, key.snd⟩ with
  | some record => rfl
  | none =>
    have counted : d.shares ≤ governorShares s.delegations g.governorOf govAddr key.snd :=
      shares_le_governorShares ready.staked stored follows
    have positive := ready.staked.positive stored
    rw [ready.tracked.absent present] at counted
    omega

/-- A governor is left with exactly the delegations of its followers that did not vote. -/
theorem residualPower_fractions (govAddr : Address) :
    residualPower fractions s g currValidators proposalId govAddr
      = s.delegations.sum fun key d =>
          if g.governorOf key.fst = some govAddr ∧ ballotOn g proposalId key.fst = none then
            d.shares * rate currValidators key.snd
          else 0 := by
  have spread : ∀ valAddr,
      powerOf fractions currValidators valAddr (leftShares s g proposalId govAddr valAddr)
        = s.delegations.sum fun key d =>
            if valAddr = key.snd then
              (if g.governorOf key.fst = some govAddr ∧ ballotOn g proposalId key.fst = none then
                d.shares * rate currValidators key.snd else 0)
            else 0 := by
    intro valAddr
    rw [powerOf_fractions, leftShares, cast_sum, sum_mul]
    apply sum_congr
    intro key d _
    by_cases here : valAddr = key.snd
    · subst here
      by_cases counted : g.governorOf key.fst = some govAddr ∧ ballotOn g proposalId key.fst = none
      · simp [counted]
      · simp [counted]
    · have other : ¬ key.snd = valAddr := fun same => here same.symm
      simp [here, other]
  unfold residualPower
  simp only [spread]
  rw [sum_comm]
  apply sum_congr
  intro key d stored
  rw [sum_single fun _ => Iff.rfl]
  by_cases counted : g.governorOf key.fst = some govAddr ∧ ballotOn g proposalId key.fst = none
  · obtain ⟨shares, present⟩ :=
      Option.isSome_iff_exists.mp (tracked_of_follower ready stored counted.1)
    rw [termAt_of_some present]
  · rw [if_neg counted]
    cases present : (trackedShares g govAddr).get? key.snd with
    | none => exact termAt_of_none present _
    | some shares => exact termAt_of_some present _

/-! ## The exact tally -/

omit ready in
theorem governorVote_stored {govAddr : Address}
    (absent : g.governors.get? govAddr = none) : governorVote s g proposalId govAddr = none := by
  apply if_neg
  simp [meetsMinSelfDelegation, absent]

/-- The governors' part of the exact tally, by delegation. -/
theorem governorsValue_fractions
    (which : Option VoteOption) :
    governorsValue fractions s g currValidators proposalId which
      = s.delegations.sum fun key d =>
          if ballotOn g proposalId key.fst = none then
            ((g.governorOf key.fst).bind (governorVote s g proposalId)).elim 0 fun options =>
              gain fractions which options (powerOf fractions currValidators key.snd d.shares)
          else 0 := by
  -- what a governor's vote makes of a delegation, whoever's it is
  let spent : Address → Pair Address Address → Delegation → ℚ := fun govAddr key d =>
    (governorVote s g proposalId govAddr).elim 0 fun options =>
      d.shares * rate currValidators key.snd * weightOf which options
  have spread : ∀ govAddr,
      ((governorVote s g proposalId govAddr).elim 0 fun options =>
        gain fractions which options
          (residualPower fractions s g currValidators proposalId govAddr))
      = s.delegations.sum fun key d =>
          if g.governorOf key.fst = some govAddr ∧ ballotOn g proposalId key.fst = none then
            spent govAddr key d else 0 := by
    intro govAddr
    cases voted : governorVote s g proposalId govAddr with
    | none =>
      symm
      apply sum_eq_zero
      intro key d _
      simp [spent, voted]
    | some options =>
      rw [Option.elim_some, gain_fractions, residualPower_fractions ready, sum_mul]
      apply sum_congr
      intro key d _
      simp only [spent, voted, ite_mul, zero_mul, Option.elim_some]
  unfold governorsValue
  simp only [spread]
  rw [sum_comm]
  apply sum_congr
  intro key d _
  by_cases voted : ballotOn g proposalId key.fst = none
  · rw [if_pos voted]
    cases follows : g.governorOf key.fst with
    | none =>
      apply sum_eq_zero
      intro govAddr _ _
      simp
    | some govAddr =>
      have picks : ∀ other, (some govAddr = some other ∧ ballotOn g proposalId key.fst = none)
          ↔ other = govAddr := by
        intro other
        simp [voted, eq_comm]
      rw [sum_single picks, Option.bind_some]
      cases present : g.governors.get? govAddr with
      | none => rw [termAt_of_none present, governorVote_stored present, Option.elim_none]
      | some governor =>
        rw [termAt_of_some present]
        simp only [spent, gain_fractions, powerOf_fractions]
  · rw [if_neg voted]
    apply sum_eq_zero
    intro govAddr _ _
    simp [voted]

/-- The exact tally is the sum over the delegations that somebody decided over. -/
theorem tallyValue_fractions (which : Option VoteOption) :
    tallyValue fractions s g currValidators proposalId which
      = s.delegations.sum fun key d =>
          (decidingVote s g proposalId key.fst).elim 0 fun options =>
            gain fractions which options (powerOf fractions currValidators key.snd d.shares) := by
  rw [tallyValue, governorsValue_fractions ready, directValue, ← sum_add]
  apply sum_congr
  intro key d _
  unfold decidingVote
  cases ballotOn g proposalId key.fst with
  | some options => simp
  | none => simp

/-! ## Rounding -/

/-- What one quotient is off by at most, in units of the last digit: half a unit of rounding
and what is cut off before it. -/
def quotientError : ℚ := 1 / 2 + 1 / 10 ^ 18

theorem powerOf_close (valAddr : Address) (shares : Int) :
    |((powerOf decimals currValidators valAddr shares : Int) : ℚ)
        - powerOf fractions currValidators valAddr shares * Dec.one| ≤ quotientError := by
  unfold powerOf
  cases bonded : currValidators.get? valAddr with
  | none => norm_num [quotientError]
  | some v =>
    have positive := ready.haveShares bonded
    have close := @Dec.abs_toRat_quo_sub_le (shares * v.bondedTokens) _ positive
    simp only [Dec.toRat, Int.cast_mul,
      div_div_div_cancel_right₀ (show (10 : ℚ) ^ 18 ≠ 0 by norm_num)]
      at close
    have unit : (0 : ℚ) < 10 ^ 18 := by positivity
    have scaled := mul_le_mul_of_nonneg_right close unit.le
    rw [← abs_of_pos unit, ← abs_mul, abs_of_pos unit, sub_mul, div_mul_cancel₀ _ unit.ne']
      at scaled
    rw [Dec.cast_one]
    apply scaled.trans
    norm_num [quotientError]

def voterDelegations (s : StakingState) (g : GovState) (proposalId : Nat) : Nat :=
  (s.delegations.entries.filter fun entry => (ballotOn g proposalId entry.1.fst).isSome).length

/-- Number of pairs of a governor that is counted and a validator it stands for. -/
def governorPairs (s : StakingState) (g : GovState) (proposalId : Nat) : Nat :=
  (g.validatorSharesByGovernor.entries.filter fun entry =>
    (governorVote s g proposalId entry.1.fst).isSome).length

omit ready in
theorem directValue_close (proposalId : Nat) (ready : TallyReady s g currValidators) :
    |((directValue decimals s currValidators (ballotOn g proposalId) none : Int) : ℚ)
        - directValue fractions s currValidators (ballotOn g proposalId) none * Dec.one|
      ≤ voterDelegations s g proposalId * quotientError := by
  rw [voterDelegations, s.delegations.length_filter_entries fun key _ =>
    (ballotOn g proposalId key.fst).isSome]
  unfold directValue
  rw [cast_sum, sum_mul, sum_mul]
  apply abs_sum_sub_sum_le
  intro key d _
  cases ballotOn g proposalId key.fst with
  | none => simp
  | some options =>
    have close := powerOf_close ready key.snd d.shares
    simpa [gain] using close

theorem residualPower_close (govAddr : Address) :
    |((residualPower decimals s g currValidators proposalId govAddr : Int) : ℚ)
        - residualPower fractions s g currValidators proposalId govAddr * Dec.one|
      ≤ g.validatorSharesByGovernor.sum fun key _ =>
        if key.fst = govAddr then quotientError else 0 := by
  rw [← sum_trackedShares ready govAddr fun _ => quotientError]
  unfold residualPower
  rw [cast_sum, sum_mul]
  apply abs_sum_sub_sum_le
  intro valAddr _ _
  exact powerOf_close ready valAddr _

omit ready in
/-- The pairs of governors and validators, governor by governor. -/
theorem governorPairs_eq :
    (governorPairs s g proposalId : ℚ) * quotientError
      = g.validatorSharesByGovernor.sum fun key _ =>
          if (governorVote s g proposalId key.fst).isSome then quotientError else 0 := by
  rw [governorPairs, g.validatorSharesByGovernor.length_filter_entries fun key _ =>
    (governorVote s g proposalId key.fst).isSome, sum_mul]
  apply sum_congr
  intro key _ _
  split_ifs <;> norm_num

omit ready in
theorem governorsPart_bound :
    (g.governors.sum fun govAddr _ =>
        if (governorVote s g proposalId govAddr).isSome then
          g.validatorSharesByGovernor.sum fun key _ =>
            if key.fst = govAddr then quotientError else 0
        else 0)
      ≤ governorPairs s g proposalId * quotientError := by
  have moved : ∀ govAddr : Address,
      (if (governorVote s g proposalId govAddr).isSome then
          g.validatorSharesByGovernor.sum fun key _ =>
            if key.fst = govAddr then quotientError else 0
        else 0)
      = g.validatorSharesByGovernor.sum fun key _ =>
          if govAddr = key.fst then
            (if (governorVote s g proposalId govAddr).isSome then quotientError else 0) else 0 := by
    intro govAddr
    by_cases voted : (governorVote s g proposalId govAddr).isSome
    · simp only [voted, if_true]
      apply sum_congr
      intro key _ _
      by_cases here : key.fst = govAddr
      · simp [here]
      · have other : ¬ govAddr = key.fst := fun same => here same.symm
        simp [here, other]
    · simp [voted, Store.sum]
  simp only [moved]
  rw [sum_comm, governorPairs_eq]
  apply sum_le_sum
  intro key _ _
  rw [sum_single fun _ => Iff.rfl]
  cases present : g.governors.get? key.fst with
  | none =>
    rw [termAt_of_none present]
    split_ifs <;> norm_num [quotientError]
  | some governor => rw [termAt_of_some present]

/-- The code's total is off by at most the error of each quotient it adds. -/
theorem tallyValue_close :
    |((tallyValue decimals s g currValidators proposalId none : Int) : ℚ)
        - tallyValue fractions s g currValidators proposalId none * Dec.one|
      ≤ (voterDelegations s g proposalId + governorPairs s g proposalId) * quotientError := by
  have direct := directValue_close proposalId ready
  have governors : |((governorsValue decimals s g currValidators proposalId none : Int) : ℚ)
      - governorsValue fractions s g currValidators proposalId none * Dec.one|
      ≤ governorPairs s g proposalId * quotientError := by
    apply le_trans _ governorsPart_bound
    unfold governorsValue
    rw [cast_sum, sum_mul]
    apply abs_sum_sub_sum_le
    intro govAddr _ _
    cases governorVote s g proposalId govAddr with
    | none => simp
    | some options => exact residualPower_close ready govAddr
  unfold tallyValue
  rw [Int.cast_add, add_mul, add_mul]
  have triangle : ∀ a b c d : ℚ, a + b - (c + d) = (a - c) + (b - d) := by
    intro a b c d
    ring
  rw [triangle]
  exact le_trans (abs_add_le _ _) (add_le_add direct governors)

/-! ## At most the bonded tokens -/

variable (current : ∀ addr v, currValidators.get? addr = some v → s.validators.get? addr = some v)

include current

theorem powerOf_fractions_nonneg {key : Pair Address Address} {d : Delegation}
    (stored : s.delegations.get? key = some d) :
    0 ≤ powerOf fractions currValidators key.snd d.shares := by
  unfold powerOf
  cases bonded : currValidators.get? key.snd with
  | none => exact le_refl 0
  | some v =>
    have tokens := ready.staked.tokensNonneg (current _ _ bonded)
    have bondedNonneg : 0 ≤ v.bondedTokens := by
      unfold Validator.bondedTokens
      split_ifs
      · exact tokens
      · exact le_refl 0
    have sharesQ : (0 : ℚ) ≤ d.shares := by exact_mod_cast (ready.staked.positive stored).le
    have tokensQ : (0 : ℚ) ≤ v.bondedTokens := by exact_mod_cast bondedNonneg
    have totalQ : (0 : ℚ) ≤ v.delegatorShares := by exact_mod_cast (ready.haveShares bonded).le
    exact div_nonneg (mul_nonneg sharesQ tokensQ) totalQ

/-- All delegations to a validator together stand for its tokens. -/
theorem sum_powerOf_fractions :
    (s.delegations.sum fun key d => powerOf fractions currValidators key.snd d.shares)
      = currValidators.sum fun _ v => (v.bondedTokens : ℚ) := by
  have looked : ∀ (key : Pair Address Address) (d : Delegation),
      powerOf fractions currValidators key.snd d.shares
        = currValidators.sum fun addr v =>
            if addr = key.snd then (d.shares : ℚ) * v.bondedTokens / v.delegatorShares else 0 := by
    intro key d
    rw [sum_single fun _ => Iff.rfl]
    unfold powerOf
    cases bonded : currValidators.get? key.snd with
    | none => rw [termAt_of_none bonded]
    | some v => rw [termAt_of_some bonded]; rfl
  simp only [looked]
  rw [sum_comm]
  apply sum_congr
  intro addr v bonded
  have total : Staking.delegatedTo s.delegations addr = v.delegatorShares := by
    have sum := ready.staked.total (current _ _ bonded)
    omega
  have nonzero : (v.delegatorShares : ℚ) ≠ 0 := by exact_mod_cast (ready.haveShares bonded).ne'
  have factored : (s.delegations.sum fun key d =>
        if addr = key.snd then (d.shares : ℚ) * v.bondedTokens / v.delegatorShares else 0)
      = (Staking.delegatedTo s.delegations addr : ℚ)
        * ((v.bondedTokens : ℚ) / v.delegatorShares) := by
    unfold Staking.delegatedTo
    rw [cast_sum, sum_mul]
    apply sum_congr
    intro key d _
    by_cases here : addr = key.snd
    · simp [here, mul_div_assoc]
    · have other : ¬ key.snd = addr := fun same => here same.symm
      simp [here, other]
  rw [factored, total]
  field_simp

/-- Exactly, no more than the bonded tokens are counted. -/
theorem tallyValue_le_bonded :
    tallyValue fractions s g currValidators proposalId none
      ≤ currValidators.sum fun _ v => (v.bondedTokens : ℚ) := by
  rw [tallyValue_fractions ready, ← sum_powerOf_fractions ready current]
  apply sum_le_sum
  intro key d stored
  have nonneg := powerOf_fractions_nonneg ready current stored
  cases decidingVote s g proposalId key.fst with
  | none => exact nonneg
  | some options => exact le_refl _

/-! ## The tally -/

omit current

/-- No governor is left with negative shares when all votes have been counted. -/
theorem countVotes_left_nonneg (isFinal : Bool) :
    Post (countVotes decimals s proposalId currValidators isFinal) g
      (fun tally _ => ∀ govAddr info valAddr shares, tally.allGovernors.get? govAddr = some info →
        info.valShares.get? valAddr = some shares →
        ∃ deduction, info.valSharesDeductions.get? valAddr = some deduction
          ∧ 0 ≤ shares - deduction)
      (fun _ _ => False) := by
  apply (countVotes_spec ready.staked ready.tracked ready.haveShares ready.filed proposalId).imp
  rintro tally _ ⟨_, counted⟩ govAddr info valAddr shares met present
  have held := counted.governors.infos met
  by_cases bonded : (currValidators.get? valAddr).isSome
  · obtain ⟨deduction, found, left⟩ := held.left ready present bonded
    exact ⟨deduction, found, by rw [left]; exact leftShares_nonneg ready _ _⟩
  · -- nothing is deducted on a validator that is not bonded
    rw [held.valShares] at present
    refine ⟨0, ?_, ?_⟩
    · rw [held.deductions, present, deductedShares, if_neg bonded]
      rfl
    · rw [get?_trackedShares ready.tracked] at present
      obtain ⟨record, stored, isShares⟩ := Option.map_eq_some_iff.mp present
      rw [← isShares, (ready.tracked.exact stored).1, sub_zero]
      exact governorShares_nonneg _ ready.staked.positive _ _ _

omit ready

/-- With exact fractions a tally counts every delegation that its delegator, or else the
delegator's governor, decided over, and each of them once; no governor is left with
negative shares. The code's decimals are off by at most the error of a quotient for each
voter's delegation and each pair of a counted governor and a validator, so they exceed the
bonded tokens by no more than that. -/
theorem tally_counts_each_delegation_once (ready : TallyReady s g currValidators)
    (proposalId : Nat) (isFinal : Bool) :
    let exactTotal := s.delegations.sum fun key d =>
      if (decidingVote s g proposalId key.fst).isSome then
        powerOf fractions currValidators key.snd d.shares
      else 0
    let roundings : Nat := voterDelegations s g proposalId + governorPairs s g proposalId
    Post (tallyVotes fractions s proposalId currValidators isFinal) g
        (fun result _ => result.1 = exactTotal
          ∧ (isFinal = true → result.2 = some fun option =>
              s.delegations.sum fun key d =>
                (decidingVote s g proposalId key.fst).elim 0 fun options =>
                  powerOf fractions currValidators key.snd d.shares
                    * weightOf (some option) options))
        (fun _ _ => ¬ SelfDelegated g)
      ∧ Post (countVotes decimals s proposalId currValidators isFinal) g
          (fun tally _ => ∀ govAddr info valAddr shares,
            tally.allGovernors.get? govAddr = some info →
            info.valShares.get? valAddr = some shares →
            ∃ deduction, info.valSharesDeductions.get? valAddr = some deduction
              ∧ 0 ≤ shares - deduction)
          (fun _ _ => False)
      ∧ Post (tallyVotes decimals s proposalId currValidators isFinal) g
          (fun result _ => |(result.1 : ℚ) / Dec.one - exactTotal|
              ≤ roundings * (1 / 10 ^ 18 / 2 + 1 / 10 ^ 36)
            ∧ ((∀ addr v, currValidators.get? addr = some v → s.validators.get? addr = some v) →
                (result.1 : ℚ) / Dec.one
                  ≤ (currValidators.sum fun _ v => (v.bondedTokens : ℚ))
                    + roundings * (1 / 10 ^ 18 / 2 + 1 / 10 ^ 36)))
          (fun _ _ => ¬ SelfDelegated g) := by
  intro exactTotal roundings
  have isExact : tallyValue fractions s g currValidators proposalId none = exactTotal := by
    rw [tallyValue_fractions ready]
    apply sum_congr
    intro key d _
    cases decidingVote s g proposalId key.fst with
    | none => rfl
    | some options => rfl
  refine ⟨?_, countVotes_left_nonneg ready isFinal, ?_⟩
  · apply (tallyVotes_spec ready).imp
    rintro result _ ⟨total, results⟩
    refine ⟨total.trans isExact, fun final => ?_⟩
    rw [results, if_pos final]
    congr 1
    funext option
    rw [tallyValue_fractions ready]
    simp only [gain_fractions]
  · apply (tallyVotes_spec ready).imp
    rintro result _ ⟨total, _⟩
    have unit : (0 : ℚ) < Dec.one := by norm_num [Dec.one]
    have close := @tallyValue_close s g currValidators proposalId ready
    rw [isExact] at close
    have near : |(result.1 : ℚ) / Dec.one - exactTotal|
        ≤ roundings * (1 / 10 ^ 18 / 2 + 1 / 10 ^ 36) := by
      have scaled : (result.1 : ℚ) / Dec.one - exactTotal
          = ((tallyValue decimals s g currValidators proposalId none : Int) - exactTotal * Dec.one)
            / Dec.one := by
        rw [total, sub_div, mul_div_cancel_right₀ _ unit.ne']
      have errors : (roundings : ℚ) * (1 / 10 ^ 18 / 2 + 1 / 10 ^ 36)
          = (roundings * quotientError) / Dec.one := by
        rw [quotientError, Dec.cast_one]
        ring
      rw [scaled, abs_div, abs_of_pos unit, errors]
      apply (div_le_div_iff_of_pos_right unit).mpr
      simpa [roundings] using close
    refine ⟨near, fun current => ?_⟩
    have bounded := @tallyValue_le_bonded s g currValidators proposalId ready current
    rw [isExact] at bounded
    have above := (abs_le.mp near).2
    linarith

/-- A validator whose shares are worth an uneven number of tokens, and its two delegators. -/
def unevenStake : StakingState :=
  let shares : Int := 3034583989479977088637183
  let part : Int := 2202640578415605303415638
  { StakingState.empty Staking.sampleParams 1 0 with
    validators := (∅ : Store Address Validator).set [1]
      { Staking.newValidator [1] ⟨.ed25519, [11]⟩ .empty with
        status := .bonded, tokens := 2934908, delegatorShares := shares }
    delegations := ((∅ : Store (Pair Address Address) Delegation).set ⟨[2], [1]⟩
      ⟨[2], [1], part⟩).set ⟨[3], [1]⟩ ⟨[3], [1], shares - part⟩ }

/-- One of the two has voted, and there are no governors. -/
def oneVoter : GovState :=
  { GovState.empty ⟨1000000, 0⟩ with
    votes := (∅ : Store (Pair Nat Address) Vote).set ⟨1, [2]⟩ ⟨1, [2], [⟨.yes, Dec.one⟩]⟩ }

theorem unevenStake_ready : TallyReady unevenStake oneVoter unevenStake.validators where
  staked := {
    validatorKey := fun stored => (by decide : ∀ entry ∈ unevenStake.validators.entries,
      entry.2.operatorAddress = entry.1) _ (mem_entries.mpr stored)
    delegationKey := fun stored => (by decide : ∀ entry ∈ unevenStake.delegations.entries,
      entry.2.delegatorAddress = entry.1.fst ∧ entry.2.validatorAddress = entry.1.snd) _
        (mem_entries.mpr stored)
    positive := fun stored => (by decide : ∀ entry ∈ unevenStake.delegations.entries,
      0 < entry.2.shares) _ (mem_entries.mpr stored)
    home := fun stored => Option.isSome_iff_exists.mp
      ((by decide : ∀ entry ∈ unevenStake.delegations.entries,
        (unevenStake.validators.get? entry.1.snd).isSome) _ (mem_entries.mpr stored))
    total := fun stored => (by decide : ∀ entry ∈ unevenStake.validators.entries,
      Staking.delegatedTo unevenStake.delegations entry.1 + 0 = entry.2.delegatorShares) _
        (mem_entries.mpr stored)
    tokensNonneg := fun stored => (by decide : ∀ entry ∈ unevenStake.validators.entries,
      0 ≤ entry.2.tokens) _ (mem_entries.mpr stored)
    covered := fun stored => (by decide : ∀ entry ∈ unevenStake.validators.entries,
      entry.2.tokens ≤ entry.2.delegatorShares) _ (mem_entries.mpr stored) }
  tracked := {
    filed := fun stored => by cases stored
    exact := fun stored => by cases stored
    absent := fun _ => sum_eq_zero fun _ _ _ =>
      if_neg (by simp [oneVoter, GovState.governorOf, GovState.empty]) }
  governorKey := fun stored => by cases stored
  filed := fun stored => (by decide : ∀ entry ∈ oneVoter.votes.entries,
    entry.1 = ⟨entry.2.proposalId, entry.2.voter⟩) _ (mem_entries.mpr stored)
  haveShares := fun stored => (by decide : ∀ entry ∈ unevenStake.validators.entries,
    0 < entry.2.delegatorShares) _ (mem_entries.mpr stored)

/-- One quotient is counted, and it is off by more than half a unit: it lies above a tie, and
cutting it off behind thirty-six digits makes it the tie. -/
theorem tally_off_by_more_than_half_a_unit :
    let s := unevenStake
    let g := oneVoter
    TallyReady s g s.validators ∧ SelfDelegated g
      ∧ voterDelegations s g 1 + governorPairs s g 1 = 1
      ∧ ∃ total, ((tallyVotes decimals s 1 s.validators true).value? g).map Prod.fst = some total
        ∧ 1 / 10 ^ 18 / 2 < |(total : ℚ) / Dec.one - s.delegations.sum fun key d =>
            if (decidingVote s g 1 key.fst).isSome then
              powerOf fractions s.validators key.snd d.shares
            else 0| := by
  intro s g
  refine ⟨unevenStake_ready, ?_, by decide, 2130291162520892210408576, by decide +kernel,
    by decide +kernel⟩
  intro addr active
  cases active

/-! ## Reachable states -/

section Reachable

variable {φ ρ : Type} (before after : Staking.Keepers φ ρ) (consAddress : Staking.PubKey → Address)
  (pubKeyTypes : Option (List Staking.KeyType))

/-- After any run, whoever has voted and whichever validators with shares are counted, a
tally can be taken, and active governors follow themselves. -/
theorem tallyReady_worldAfter (params : Staking.Params) (blockHeight : Int)
    (blockTime : Staking.Time) (others : ρ) (govParams : GovParams) (ops : List Op)
    {votes : Store (Pair Nat Address) Vote}
    (filed : ∀ {key vote}, votes.get? key = some vote → key = ⟨vote.proposalId, vote.voter⟩)
    (haveShares : HaveShares currValidators) :
    let world := worldAfter before after consAddress pubKeyTypes params blockHeight blockTime others
      govParams ops
    TallyReady world.staking { world.ext.2 with votes := votes } currValidators
      ∧ SelfDelegated { world.ext.2 with votes := votes } := by
  intro world
  obtain ⟨_, _, _, ready⟩ : Ready before after consAddress pubKeyTypes world := ready_worldAfter ..
  have held : GovSettled world.staking world.ext.2 := ready.idle
  refine ⟨⟨ready.settled.shares, held.shares, held.registry.governorKey, filed, haveShares⟩, ?_⟩
  intro addr active
  exact held.registry.self (by simp) active

end Reachable

/-- A validator's operator becomes a governor and another delegator follows it. -/
def governedOps : List Op :=
  Staking.sampleOps.map Op.staking
    ++ [.staking (.delegate ⟨[2], [1], ⟨[117], 2000000⟩⟩),
      .createGovernor ⟨[1], ⟨"governor", "", "", "", ""⟩⟩, .delegateGovernor ⟨[2], [1]⟩]

def governedWorld : Staking.World (Unit × GovState) :=
  worldAfter (Staking.Keepers.accepting Staking.PubKey.bytes)
    (Staking.Keepers.accepting Staking.PubKey.bytes) Staking.PubKey.bytes none
    Staking.sampleParams 1 0 () ⟨1000000, 0⟩ governedOps

def governorVotes : Store (Pair Nat Address) Vote :=
  (∅ : Store (Pair Nat Address) Vote).set ⟨1, [1]⟩ ⟨1, [1], [⟨.yes, Dec.one⟩]⟩

/-- The governor's vote counts its own delegation and that of its follower. -/
theorem governor_vote_counts_follower :
    let world := governedWorld
    let g : GovState := { world.ext.2 with votes := governorVotes }
    ((tallyVotes decimals world.staking 1 world.staking.validators true).value? g).map Prod.fst
        = some (5000000 * Dec.one)
      ∧ Post (tallyVotes fractions world.staking 1 world.staking.validators true) g
          (fun result _ => result.1 = world.staking.delegations.sum fun key d =>
            if (decidingVote world.staking g 1 key.fst).isSome then
              powerOf fractions world.staking.validators key.snd d.shares
            else 0)
          (fun _ _ => ¬ SelfDelegated g) := by
  intro world g
  have filed : ∀ {key vote}, governorVotes.get? key = some vote →
      key = ⟨vote.proposalId, vote.voter⟩ := by
    intro key vote stored
    rcases get?_set_cases stored with ⟨here, isVote⟩ | ⟨_, impossible⟩
    · rw [here, isVote]
    · cases impossible
  have shares : ∀ entry ∈ world.staking.validators.entries, 0 < entry.2.delegatorShares := by
    decide +kernel
  have haveShares : HaveShares world.staking.validators :=
    fun stored => shares _ (mem_entries.mpr stored)
  have ready : TallyReady world.staking g world.staking.validators :=
    (tallyReady_worldAfter _ _ _ none Staking.sampleParams 1 0 () ⟨1000000, 0⟩ governedOps filed
      haveShares).1
  refine ⟨by decide +kernel, ?_⟩
  apply ((tally_counts_each_delegation_once ready 1 true).1).imp
  exact fun _ _ counted => counted.1

end AtomOneSdk.Gov
