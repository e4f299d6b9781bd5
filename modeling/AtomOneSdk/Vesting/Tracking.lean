import AtomOneSdk.Vesting.ScheduleSpec

/-!
Contract: the counters of delegated coins.

Owns: what tracking a delegation and an undelegation does to the delegated vesting
amounts, that neither panics on covered amounts, and that the account stays well formed.

Does **not** own: the balances the delegations are paid from.
-/

namespace AtomOneSdk.Vesting

open Lib AtomOneSdk.Types
open Staking (Address Denom Coin)

/-! ## Single coins -/

section Single

variable {coins : Coins} {denom : Denom} {amount : Int}

theorem newCoin_some (valid : validateDenom denom = true) (nonneg : 0 ≤ amount) :
    newCoin denom amount = some ⟨denom, amount⟩ := by
  apply if_pos
  simp [isValidCoin, valid, nonneg]

theorem addUnlessZero_spec (held : coins.Valid) (valid : validateDenom denom = true)
    (nonneg : 0 ≤ amount) :
    ∃ sum, addUnlessZero coins denom amount = some sum ∧ sum.Valid
      ∧ ∀ other, sum.total other = coins.total other + if denom = other then amount else 0 := by
  unfold addUnlessZero
  by_cases zero : amount = 0
  · refine ⟨coins, ?_, held, fun other => ?_⟩
    · simp [zero]
    · simp [zero]
  · have single : Coins.Valid [⟨denom, amount⟩] :=
      Coins.Valid.singleton valid (lt_of_le_of_ne nonneg (Ne.symm zero))
    obtain ⟨sum, added, sumValid, totals⟩ := held.add single
    refine ⟨sum, ?_, sumValid, fun other => ?_⟩
    · rw [if_pos zero, newCoin_some valid nonneg]
      exact added
    · rw [totals, Coins.total_cons, Coins.total_nil, add_zero]

theorem subUnlessZero_spec (held : coins.Valid) (valid : validateDenom denom = true)
    (nonneg : 0 ≤ amount) (covered : amount ≤ coins.total denom) :
    ∃ diff, subUnlessZero coins denom amount = some diff ∧ diff.Valid
      ∧ ∀ other, diff.total other = coins.total other - if denom = other then amount else 0 := by
  unfold subUnlessZero
  by_cases zero : amount = 0
  · refine ⟨coins, ?_, held, fun other => ?_⟩
    · simp [zero]
    · simp [zero]
  · have single : Coins.Valid [⟨denom, amount⟩] :=
      Coins.Valid.singleton valid (lt_of_le_of_ne nonneg (Ne.symm zero))
    obtain ⟨diff, subtracted, diffValid, totals⟩ := held.sub_valid single fun other => by
      rw [Coins.total_cons, Coins.total_nil, add_zero]
      have before := held.total_nonneg other
      split_ifs with same
      · rw [← same]
        exact covered
      · exact before
    refine ⟨diff, ?_, diffValid, fun other => ?_⟩
    · rw [if_pos zero, newCoin_some valid nonneg]
      exact subtracted
    · rw [totals, Coins.total_cons, Coins.total_nil, add_zero]

end Single

/-! ## Delegations -/

/-- The part of a delegation that is taken from vesting coins. -/
def vestingShare (vesting delegated amount : Int) : Int :=
  min (max (vesting - delegated) 0) amount

/-- What tracking leaves alone, and that the delegated coins it writes are valid. -/
structure Retracked (acc next : BaseVestingAccount) : Prop where
  original : next.originalVesting = acc.originalVesting
  endTime : next.endTime = acc.endTime
  baseAccount : next.baseAccount = acc.baseAccount
  free : next.delegatedFree.Valid
  delegated : next.delegatedVesting.Valid

theorem Retracked.trans {acc mid next : BaseVestingAccount} (first : Retracked acc mid)
    (second : Retracked mid next) : Retracked acc next :=
  { second with
    original := second.original.trans first.original
    endTime := second.endTime.trans first.endTime
    baseAccount := second.baseAccount.trans first.baseAccount }

variable {bva : BaseVestingAccount} {balance vesting : Coins} {coin : Coin}

theorem trackDelegatedCoin_spec (free : bva.delegatedFree.Valid)
    (delegated : bva.delegatedVesting.Valid) (balanceValid : balance.Valid)
    (vestingValid : vesting.Valid) (denom : validateDenom coin.denom = true)
    (positive : 0 < coin.amount) (covered : coin.amount ≤ balance.total coin.denom) :
    ∃ next, trackDelegatedCoin balance vesting bva coin = some next ∧ Retracked bva next
      ∧ ∀ other, next.delegatedVesting.total other = bva.delegatedVesting.total other
          + if coin.denom = other then vestingShare (vesting.total coin.denom)
              (bva.delegatedVesting.total coin.denom) coin.amount else 0 := by
  have shareNonneg : 0 ≤ vestingShare (vesting.total coin.denom)
      (bva.delegatedVesting.total coin.denom) coin.amount := by
    unfold vestingShare
    omega
  have shareLe : vestingShare (vesting.total coin.denom)
      (bva.delegatedVesting.total coin.denom) coin.amount ≤ coin.amount := min_le_right _ _
  obtain ⟨newVesting, isVesting, newVestingValid, vestingTotals⟩ :=
    addUnlessZero_spec delegated denom shareNonneg
  obtain ⟨newFree, isFree, newFreeValid, _⟩ :=
    addUnlessZero_spec free denom (Int.sub_nonneg_of_le shareLe)
  have passes : ¬ (coin.amount = 0 ∨ balance.total coin.denom < coin.amount) := by omega
  refine ⟨{ bva with delegatedVesting := newVesting, delegatedFree := newFree }, ?_,
    ⟨rfl, rfl, rfl, newFreeValid, newVestingValid⟩, vestingTotals⟩
  unfold vestingShare at isVesting isFree
  simp only [trackDelegatedCoin, balanceValid.increasing.amountOf_some denom,
    vestingValid.increasing.amountOf_some denom, delegated.increasing.amountOf_some denom,
    some_bind, if_neg passes, isVesting, isFree]
  rfl

theorem trackDelegation_spec {amount : Coins} (balanceValid : balance.Valid)
    (vestingValid : vesting.Valid) (amountValid : amount.Valid)
    (covered : ∀ coin ∈ amount, coin.amount ≤ balance.total coin.denom)
    (free : bva.delegatedFree.Valid) (delegated : bva.delegatedVesting.Valid) :
    ∃ next, bva.trackDelegation balance vesting amount = some next ∧ Retracked bva next
      ∧ ∀ denom, next.delegatedVesting.total denom = bva.delegatedVesting.total denom
          + vestingShare (vesting.total denom) (bva.delegatedVesting.total denom)
              (amount.total denom) := by
  induction amount generalizing bva with
  | nil =>
    refine ⟨bva, rfl, ⟨rfl, rfl, rfl, free, delegated⟩, fun denom => ?_⟩
    unfold vestingShare
    rw [Coins.total_nil]
    omega
  | cons coin rest ih =>
    obtain ⟨head, tail⟩ := List.forall_mem_cons.mp covered
    obtain ⟨mid, isMid, midTracked, midTotals⟩ :=
      trackDelegatedCoin_spec free delegated balanceValid vestingValid
        (amountValid.denoms coin List.mem_cons_self)
        (amountValid.positive coin List.mem_cons_self) head
    obtain ⟨next, isNext, nextTracked, nextTotals⟩ :=
      ih amountValid.tail tail midTracked.free midTracked.delegated
    refine ⟨next, ?_, midTracked.trans nextTracked, fun denom => ?_⟩
    · unfold BaseVestingAccount.trackDelegation at isNext ⊢
      rw [List.foldlM_cons, isMid]
      exact isNext
    · rw [nextTotals, midTotals, Coins.total_cons]
      by_cases here : coin.denom = denom
      · -- no later coin has this denomination
        rw [if_pos here, if_pos here, ← here, amountValid.increasing.not_mem_tail]
        unfold vestingShare
        omega
      · rw [if_neg here, if_neg here, add_zero, zero_add]

/-! ## Undelegations -/

theorem trackUndelegatedCoin_spec (free : bva.delegatedFree.Valid)
    (delegated : bva.delegatedVesting.Valid) (denom : validateDenom coin.denom = true)
    (positive : 0 < coin.amount) :
    ∃ next, trackUndelegatedCoin bva coin = some next ∧ Retracked bva next
      ∧ ∀ other, next.delegatedVesting.total other ≤ bva.delegatedVesting.total other
          ∧ bva.delegatedVesting.total other ≤ next.delegatedVesting.total other
            + if coin.denom = other then coin.amount else 0 := by
  have freeNonneg := free.total_nonneg coin.denom
  have vestingNonneg := delegated.total_nonneg coin.denom
  obtain ⟨newFree, isFree, newFreeValid, _⟩ := subUnlessZero_spec free denom
    (le_min freeNonneg positive.le) (min_le_left _ coin.amount)
  obtain ⟨newVesting, isVesting, newVestingValid, totals⟩ := subUnlessZero_spec delegated denom
    (le_min vestingNonneg (Int.sub_nonneg_of_le (min_le_right _ _)))
    (min_le_left _ (coin.amount - min (bva.delegatedFree.total coin.denom) coin.amount))
  refine ⟨{ bva with delegatedFree := newFree, delegatedVesting := newVesting }, ?_,
    ⟨rfl, rfl, rfl, newFreeValid, newVestingValid⟩, fun other => ?_⟩
  · simp only [trackUndelegatedCoin, if_neg positive.ne', free.increasing.amountOf_some denom,
      delegated.increasing.amountOf_some denom, some_bind, isFree,
      isVesting]
    rfl
  · dsimp only
    rw [totals]
    split_ifs with same
    · omega
    · omega

theorem trackUndelegation_spec {amount : Coins} (amountValid : amount.Valid)
    (free : bva.delegatedFree.Valid) (delegated : bva.delegatedVesting.Valid) :
    ∃ next, bva.trackUndelegation amount = some next ∧ Retracked bva next
      ∧ ∀ denom, next.delegatedVesting.total denom ≤ bva.delegatedVesting.total denom
          ∧ bva.delegatedVesting.total denom
            ≤ next.delegatedVesting.total denom + amount.total denom := by
  induction amount generalizing bva with
  | nil =>
    refine ⟨bva, rfl, ⟨rfl, rfl, rfl, free, delegated⟩, fun denom => ⟨le_refl _, ?_⟩⟩
    rw [Coins.total_nil, add_zero]
  | cons coin rest ih =>
    obtain ⟨mid, isMid, midTracked, midTotals⟩ :=
      trackUndelegatedCoin_spec free delegated (amountValid.denoms coin List.mem_cons_self)
        (amountValid.positive coin List.mem_cons_self)
    obtain ⟨next, isNext, nextTracked, nextTotals⟩ :=
      ih amountValid.tail midTracked.free midTracked.delegated
    refine ⟨next, ?_, midTracked.trans nextTracked, fun denom => ?_⟩
    · unfold BaseVestingAccount.trackUndelegation at isNext ⊢
      rw [List.foldlM_cons, isMid]
      exact isNext
    · have first := midTotals denom
      have second := nextTotals denom
      rw [Coins.total_cons]
      omega

/-! ## Accounts -/

/-- The schedule of an account, with what it is computed from. -/
structure Continues (acc next : VestingAccount) : Prop where
  original : next.originalVesting = acc.originalVesting
  endTime : next.endTime = acc.endTime
  schedule : next.schedule = acc.schedule

theorem Continues.refl (acc : VestingAccount) : Continues acc acc := ⟨rfl, rfl, rfl⟩

theorem Continues.trans {acc mid next : VestingAccount} (first : Continues acc mid)
    (second : Continues mid next) : Continues acc next :=
  ⟨second.original.trans first.original, second.endTime.trans first.endTime,
    second.schedule.trans first.schedule⟩

theorem Continues.getVestingCoins {acc next : VestingAccount} (same : Continues acc next)
    (blockTime : Int64) : next.getVestingCoins blockTime = acc.getVestingCoins blockTime := by
  unfold VestingAccount.getVestingCoins VestingAccount.getVestedCoins
  rw [same.original, same.endTime, same.schedule]

namespace Wellformed

variable {acc : VestingAccount}

/-- An account stays well-formed when no more than its original coins is delegated vesting. -/
theorem retracked (held : Wellformed acc) {bva : BaseVestingAccount}
    (tracked : Retracked acc.toBaseVestingAccount bva)
    (within : ∀ denom, bva.delegatedVesting.total denom ≤ acc.originalVesting.total denom) :
    Wellformed { acc with toBaseVestingAccount := bva }
      ∧ Continues acc { acc with toBaseVestingAccount := bva } := by
  refine ⟨⟨?_, tracked.free, tracked.delegated, fun denom => ?_, ?_⟩,
    ⟨tracked.original, tracked.endTime, rfl⟩⟩
  · show bva.originalVesting.Valid
    rw [tracked.original]
    exact held.original
  · show bva.delegatedVesting.total denom ≤ bva.originalVesting.total denom
    rw [tracked.original]
    exact within denom
  · show acc.schedule.Fits bva.originalVesting bva.endTime
    rw [tracked.original, tracked.endTime]
    exact held.fits

theorem trackDelegation (held : Wellformed acc) {blockTime : Int64} {vesting balance amount : Coins}
    (isVesting : acc.getVestingCoins blockTime = some vesting) (balanceValid : balance.Valid)
    (amountValid : amount.Valid)
    (covered : ∀ coin ∈ amount, coin.amount ≤ balance.total coin.denom) :
    ∃ next, acc.trackDelegation blockTime balance amount = some next ∧ Wellformed next
      ∧ Continues acc next
      ∧ ∀ denom, next.delegatedVesting.total denom = acc.delegatedVesting.total denom
          + vestingShare (vesting.total denom) (acc.delegatedVesting.total denom)
              (amount.total denom) := by
  obtain ⟨_, found, vestingValid, atMost⟩ := held.getVestingCoins blockTime
  rw [isVesting] at found
  cases found
  obtain ⟨bva, isNext, tracked, totals⟩ := trackDelegation_spec balanceValid vestingValid
    amountValid covered held.free held.delegated
  have within : ∀ denom, bva.delegatedVesting.total denom ≤ acc.originalVesting.total denom := by
    intro denom
    have before := held.within denom
    have below := atMost denom
    rw [totals]
    unfold vestingShare
    omega
  obtain ⟨wellformed, continues⟩ := held.retracked tracked within
  refine ⟨{ acc with toBaseVestingAccount := bva }, ?_, wellformed, continues, totals⟩
  simp only [VestingAccount.trackDelegation, isVesting, isNext, some_bind]
  rfl

theorem trackUndelegation (held : Wellformed acc) {amount : Coins} (amountValid : amount.Valid) :
    ∃ next, acc.trackUndelegation amount = some next ∧ Wellformed next ∧ Continues acc next
      ∧ ∀ denom, acc.delegatedVesting.total denom
          ≤ next.delegatedVesting.total denom + amount.total denom := by
  obtain ⟨bva, isNext, tracked, totals⟩ :=
    trackUndelegation_spec amountValid held.free held.delegated
  obtain ⟨wellformed, continues⟩ := held.retracked tracked
    fun denom => (totals denom).1.trans (held.within denom)
  refine ⟨{ acc with toBaseVestingAccount := bva }, ?_, wellformed, continues,
    fun denom => (totals denom).2⟩
  simp only [VestingAccount.trackUndelegation, isNext, some_bind]
  rfl

end Wellformed

end AtomOneSdk.Vesting
