import AtomOneSdk.Proposals.Throttler
import AtomOneSdk.Types.CoinsSpec

/-!
Contract: what one update does to a minimum deposit.

Owns: the largest amount an update can reach, the arithmetic below it, which does not
overflow, and `GetNewMinDeposit` as a function of the denominations.

Does **not** own: runs of updates.
-/

namespace AtomOneSdk.Proposals

open Lib List
open AtomOneSdk.Types
open Staking (Denom Coin)

/-! ## Amounts -/

/-- The largest amount an update can reach: where the clamped change is rounded up. -/
def maxAmount : Int := 10 ^ 70 + 5 * 10 ^ 51

/-- An amount that updates can work with. -/
def Moderate (amount : Int) : Prop := 0 < amount ∧ amount ≤ maxAmount

theorem Moderate.of_floor {amount : Int} (positive : 0 < amount)
    (capped : amount ≤ maxDepositThrottlerFloorAmount) : Moderate amount := by
  refine ⟨positive, capped.trans ?_⟩
  decide

section Clamp

variable {amount : Int} (moderate : Moderate amount)

include moderate

theorem ofInt?_moderate :
    ∃ amtDec, BoundedDec.ofInt? amount = some amtDec ∧ amtDec.units = amount * Dec.one := by
  apply BoundedDec.exists_ofUnits?
  obtain ⟨positive, capped⟩ := moderate
  simp only [maxAmount] at capped
  simp only [Dec.ofInt, Dec.one, decLimit]
  omega

/-- The largest change: at least one, at most one from the seventieth power of ten on, and
such that the product stays close to that power. -/
theorem maxPerc_spec {amtDec : BoundedDec} (units : amtDec.units = amount * Dec.one) :
    ∃ maxPerc, maxSafePercChangeProduct.quo amtDec = some maxPerc
      ∧ Dec.one ≤ maxPerc.units
      ∧ (10 ^ 70 ≤ amount → maxPerc.units ≤ Dec.one)
      ∧ 2 * (amount * maxPerc.units) ≤ 2 * 10 ^ 88 + amount := by
  obtain ⟨positive, capped⟩ := moderate
  have product : maxSafePercChangeProduct.units * Dec.one * Dec.one = 10 ^ 106 * Dec.one := by
    decide
  have quotient : (maxSafePercChangeProduct.units * Dec.one * Dec.one).tdiv amtDec.units
      = 10 ^ 106 / amount := by
    rw [product, units, Int.mul_tdiv_mul_of_pos_left _ _ Dec.one_pos,
      Int.tdiv_eq_ediv_of_nonneg (by positivity)]
  have below : 10 ^ 106 / amount * amount ≤ 10 ^ 106 := Int.ediv_mul_le _ positive.ne'
  set chopped : Int := 10 ^ 106 / amount with isChopped
  set rounded : Int := roundHalfEven chopped Dec.one with isRounded
  obtain ⟨_, highError⟩ := @roundHalfEven_error chopped Dec.one Dec.one_pos
  -- the quotient at the largest amount is exactly half a unit below one, and one is even
  have atLeast : 10 ^ 36 - 5 * 10 ^ 17 ≤ chopped := by
    apply (Int.le_ediv_iff_mul_le positive).mpr
    calc (10 ^ 36 - 5 * 10 ^ 17) * amount ≤ (10 ^ 36 - 5 * 10 ^ 17) * maxAmount :=
          mul_le_mul_of_nonneg_left capped (by norm_num)
      _ ≤ 10 ^ 106 := by decide
  have oneLe : Dec.one ≤ rounded := by
    have atCap : roundHalfEven (10 ^ 36 - 5 * 10 ^ 17) Dec.one = Dec.one := by decide
    rw [← atCap]
    exact roundHalfEven_mono Dec.one_pos atLeast
  have scaled : 2 * (amount * rounded) ≤ 2 * 10 ^ 88 + amount := by
    rw [← isRounded] at highError
    have error := mul_le_mul_of_nonneg_left highError positive.le
    have expand : amount * (2 * (rounded * Dec.one - chopped))
        = 2 * (amount * rounded) * Dec.one - 2 * (chopped * amount) := by
      ring
    rw [expand] at error
    simp only [Dec.one_eq] at error
    omega
  have small : rounded.natAbs < decLimit := by
    have byAmount : 1 * rounded ≤ amount * rounded :=
      mul_le_mul_of_nonneg_right positive (le_trans Dec.one_pos.le oneLe)
    simp only [maxAmount] at capped
    simp only [Dec.one_eq] at oneLe
    simp only [decLimit]
    omega
  obtain ⟨maxPerc, found, isMaxPerc⟩ := BoundedDec.exists_ofUnits? small
  refine ⟨maxPerc, ?_, ?_, ?_, ?_⟩
  · have nonzero : amtDec.units ≠ 0 := by
      rw [units]
      exact (mul_pos positive Dec.one_pos).ne'
    rw [BoundedDec.quo, if_neg nonzero, Dec.quo, quotient]
    exact found
  · rw [isMaxPerc]
    exact oneLe
  · intro large
    rw [isMaxPerc]
    apply roundHalfEven_le Dec.one_pos
    have : chopped * 10 ^ 70 ≤ chopped * amount :=
      mul_le_mul_of_nonneg_left large (le_trans (by norm_num) atLeast)
    simp only [Dec.one_eq]
    omega
  · rw [isMaxPerc]
    exact scaled

/-- The change used for an amount: on the same side of one as the given change, and such
that neither the product nor the new amount leaves its range. -/
theorem clampPercChange_spec (change : BoundedDec) :
    ∃ clamped, clampPercChange amount change = some clamped
      ∧ (Dec.one ≤ change.units → Dec.one ≤ clamped.units)
      ∧ (change.units ≤ Dec.one → clamped.units ≤ Dec.one)
      ∧ (10 ^ 70 ≤ amount → clamped.units ≤ Dec.one)
      ∧ 2 * (amount * clamped.units.natAbs) ≤ 2 * 10 ^ 88 + amount := by
  obtain ⟨amtDec, converted, units⟩ := ofInt?_moderate moderate
  obtain ⟨maxPerc, divided, oneLe, large, close⟩ := maxPerc_spec moderate units
  obtain ⟨positive, _⟩ := moderate
  have absolute : ((amount.natAbs : Nat) : Int) = amount := by omega
  have onePos := Dec.one_pos
  have unfolded : clampPercChange amount change
      = if (change.units.natAbs : Int) ≤ maxPerc.units then some change
        else if change.units < 0 then some maxPerc.neg else some maxPerc := by
    simp only [clampPercChange, absolute, if_neg positive.ne', converted, some_bind, divided]
    rfl
  rw [unfolded]
  split_ifs with inside negative
  · refine ⟨change, rfl, id, id, ?_, ?_⟩
    · intro isLarge
      have := large isLarge
      omega
    · have smaller := mul_le_mul_of_nonneg_left inside positive.le
      omega
  · have units : maxPerc.neg.units = -maxPerc.units := rfl
    refine ⟨maxPerc.neg, rfl, ?_, ?_, ?_, ?_⟩
    · omega
    · omega
    · omega
    · rw [units, Int.natAbs_neg, Int.natAbs_of_nonneg (by omega)]
      exact close
  · refine ⟨maxPerc, rfl, fun _ => oneLe, ?_, large, ?_⟩
    · omega
    · rw [Int.natAbs_of_nonneg (by omega)]
      exact close

/-- An amount after a change: not lower for a change of at least one, not higher for one of
at most one, and still moderate. -/
theorem changedAmount_spec (change : BoundedDec) :
    ∃ changed, changedAmount change amount = some changed ∧ changed ≤ maxAmount
      ∧ (Dec.one ≤ change.units → amount ≤ changed)
      ∧ (change.units ≤ Dec.one → changed ≤ amount) := by
  obtain ⟨amtDec, converted, units⟩ := ofInt?_moderate moderate
  obtain ⟨clamped, isClamped, up, down, large, close⟩ := clampPercChange_spec moderate change
  obtain ⟨positive, capped⟩ := moderate
  have onePos := Dec.one_pos
  -- the product of a whole number is exact
  have exact_ : Dec.mul amtDec.units clamped.units = amount * clamped.units := by
    have rearranged : amtDec.units * clamped.units = amount * clamped.units * Dec.one := by
      rw [units]
      ring
    rw [Dec.mul, rearranged]
    exact le_antisymm (roundHalfEven_le onePos le_rfl) (le_roundHalfEven onePos le_rfl)
  have magnitude : (amount * clamped.units).natAbs = amount.natAbs * clamped.units.natAbs :=
    Int.natAbs_mul _ _
  have bounded : 2 * ((amount * clamped.units).natAbs : Int) ≤ 2 * 10 ^ 88 + amount := by
    rw [magnitude]
    push_cast
    rw [abs_of_pos positive]
    simpa using close
  have small : (amount * clamped.units).natAbs < decLimit := by
    simp only [maxAmount] at capped
    simp only [decLimit]
    omega
  obtain ⟨product, multiplied, isProduct⟩ := BoundedDec.exists_ofUnits? small
  have fits : (Dec.truncateInt (amount * clamped.units)).natAbs < 2 ^ 128 * 2 ^ 128 := by
    have quotient : (Dec.truncateInt (amount * clamped.units)).natAbs
        = (amount * clamped.units).natAbs / 1000000000000000000 := Int.natAbs_tdiv _ _
    simp only [maxAmount] at capped
    omega
  have found : changedAmount change amount = some (Dec.truncateInt (amount * clamped.units)) := by
    simp only [changedAmount, converted, isClamped, BoundedDec.mul, exact_, multiplied, isProduct,
      some_bind, intOf?, if_pos fits]
  have notAbove : clamped.units ≤ Dec.one → Dec.truncateInt (amount * clamped.units) ≤ amount := by
    intro below
    exact Dec.truncateInt_le positive.le (mul_le_mul_of_nonneg_left below positive.le)
  refine ⟨_, found, ?_, ?_, ?_⟩
  · by_cases isLarge : 10 ^ 70 ≤ amount
    · exact (notAbove (large isLarge)).trans capped
    · apply Dec.truncateInt_le (by decide)
      simp only [maxAmount, Dec.one_eq]
      omega
  · intro isUp
    exact Dec.le_truncateInt positive.le (mul_le_mul_of_nonneg_left (up isUp) positive.le)
  · intro isDown
    exact notAbove (down isDown)

end Clamp

/-! ## Coins -/

/-- An amount after a change, where it is defined. -/
def changedOr (change : BoundedDec) (amount : Int) : Int := (changedAmount change amount).getD 0

theorem Moderate.changed {amount : Int} (moderate : Moderate amount) (change : BoundedDec) :
    changedAmount change amount = some (changedOr change amount)
      ∧ changedOr change amount ≤ maxAmount
      ∧ (Dec.one ≤ change.units → amount ≤ changedOr change amount)
      ∧ (change.units ≤ Dec.one → changedOr change amount ≤ amount) := by
  obtain ⟨changed, found, capped, up, down⟩ := changedAmount_spec moderate change
  have isChanged : changedOr change amount = changed := by
    rw [changedOr, found]
    rfl
  rw [isChanged]
  exact ⟨found, capped, up, down⟩

/-- A set of coins with moderate amounts. -/
structure ModerateCoins (coins : Coins) : Prop where
  valid : Coins.Valid coins
  capped : ∀ coin ∈ coins, coin.amount ≤ maxAmount

theorem ModerateCoins.moderate {coins : Coins} (moderate : ModerateCoins coins) {coin : Coin}
    (member : coin ∈ coins) : Moderate coin.amount :=
  ⟨moderate.valid.positive coin member, moderate.capped coin member⟩

theorem ModerateCoins.tail {coin : Coin} {rest : Coins} (moderate : ModerateCoins (coin :: rest)) :
    ModerateCoins rest :=
  ⟨moderate.valid.tail, fun other member => moderate.capped other (mem_cons_of_mem _ member)⟩

/-- A coin after a change, not below a floor. -/
def raisedCoin (change : BoundedDec) (floorAmt : Int) (coin : Coin) : Coin :=
  ⟨coin.denom, max floorAmt (changedOr change coin.amount)⟩

theorem newCoin_of_valid {denom : Denom} {amount : Int} (valid : validateDenom denom = true)
    (nonneg : 0 ≤ amount) : newCoin denom amount = some ⟨denom, amount⟩ := by
  simp [newCoin, isValidCoin, valid, nonneg]

theorem changedCoin_eq {coin : Coin} {floorAmt : Int} (denom : validateDenom coin.denom = true)
    (moderate : Moderate coin.amount) (floor : 0 ≤ floorAmt) (change : BoundedDec) :
    changedCoin change floorAmt coin = some (raisedCoin change floorAmt coin) := by
  simp only [changedCoin, (moderate.changed change).1, some_bind,
    raisedCoin]
  split_ifs with below
  · rw [newCoin_of_valid denom floor, max_eq_left below.le]
  · rw [newCoin_of_valid denom (floor.trans (not_lt.mp below)), max_eq_right (not_lt.mp below)]

/-- The loop over the last minimum keeps the denominations of the floor. -/
theorem keptCoins_eq {floor : Coins} (floorValid : Coins.Valid floor) (change : BoundedDec) :
    ∀ {last : Coins}, ModerateCoins last →
      keptCoins floor change last
        = some ((last.filter fun coin => Coins.total floor coin.denom ≠ 0).map fun coin =>
            raisedCoin change (Coins.total floor coin.denom) coin) := by
  intro last
  induction last with
  | nil =>
    intro _
    rfl
  | cons coin rest ih =>
    intro moderate
    have denom := moderate.valid.denoms coin mem_cons_self
    have amount := moderate.moderate mem_cons_self
    rw [keptCoins, floorValid.increasing.amountOf_some denom, ih moderate.tail]
    simp only [some_bind]
    by_cases gone : Coins.total floor coin.denom = 0
    · rw [if_pos gone, filter_cons_of_neg (by simpa using gone)]
    · rw [if_neg gone, filter_cons_of_pos (by simpa using gone), map_cons,
        changedCoin_eq denom amount (floorValid.total_nonneg _)]
      rfl

/-- The loop over the floor adds the denominations that were not seen. -/
theorem addedCoins_eq (seen : List Denom) (change : BoundedDec) :
    ∀ {floor : Coins}, ModerateCoins floor →
      addedCoins seen change floor
        = some ((floor.filter fun coin => coin.denom ∉ seen).map fun coin =>
            raisedCoin change coin.amount coin) := by
  intro floor
  induction floor with
  | nil =>
    intro _
    rfl
  | cons coin rest ih =>
    intro moderate
    have denom := moderate.valid.denoms coin mem_cons_self
    have amount := moderate.moderate mem_cons_self
    obtain ⟨found, _⟩ := amount.changed change
    rw [addedCoins, ih moderate.tail]
    by_cases isSeen : coin.denom ∈ seen
    · rw [if_pos isSeen, filter_cons_of_neg (by simpa using isSeen)]
    · rw [if_neg isSeen, filter_cons_of_pos (by simpa using isSeen), map_cons, found,
        raisedCoin]
      simp only [some_bind]
      by_cases below : changedOr change coin.amount < coin.amount
      · rw [if_pos below, max_eq_left below.le]
        rfl
      · rw [if_neg below, newCoin_of_valid denom (amount.1.le.trans (not_lt.mp below)),
          max_eq_right (not_lt.mp below)]
        rfl

/-- The new amount of a denomination of the floor. -/
def newAmount (floor last : Coins) (change : BoundedDec) (denom : Denom) : Int :=
  max (Coins.total floor denom) (changedOr change
    (if Coins.total last denom = 0 then Coins.total floor denom else Coins.total last denom))

/-- The coins of the last minimum whose denominations are in the floor, changed. -/
def keptPart (floor last : Coins) (change : BoundedDec) : Coins :=
  (last.filter fun coin => Coins.total floor coin.denom ≠ 0).map fun coin =>
    raisedCoin change (Coins.total floor coin.denom) coin

/-- The coins of the floor whose denominations are not in the last minimum, changed. -/
def addedPart (floor last : Coins) (change : BoundedDec) : Coins :=
  (floor.filter fun coin => Coins.total last coin.denom = 0).map fun coin =>
    raisedCoin change coin.amount coin

section NewMinDeposit

variable {floor last : Coins} (floorOk : ModerateCoins floor) (lastOk : ModerateCoins last)
  (change : BoundedDec)

include lastOk in
theorem mem_keptPart (coin : Coin) :
    coin ∈ keptPart floor last change ↔ Coins.total last coin.denom ≠ 0
      ∧ Coins.total floor coin.denom ≠ 0
      ∧ coin.amount = newAmount floor last change coin.denom := by
  rw [keptPart, mem_map]
  constructor
  · intro found
    obtain ⟨old, member, isRaised⟩ := found
    obtain ⟨inLast, inFloor⟩ := mem_filter.mp member
    have inFloor : Coins.total floor old.denom ≠ 0 := by simpa using inFloor
    have occurs : Coins.total last old.denom ≠ 0 := (lastOk.valid.total_pos_of_mem inLast).ne'
    rw [← isRaised]
    refine ⟨occurs, inFloor, ?_⟩
    show max _ _ = newAmount floor last change old.denom
    rw [newAmount, if_neg occurs, lastOk.valid.increasing.total_of_mem inLast]
  · intro spec
    obtain ⟨occurs, inFloor, amount⟩ := spec
    obtain ⟨old, inLast, isDenom⟩ := Coins.exists_mem_of_total_ne_zero occurs
    refine ⟨old, mem_filter.mpr ⟨inLast, by simpa [isDenom] using inFloor⟩, ?_⟩
    rw [newAmount, if_neg occurs, ← isDenom, lastOk.valid.increasing.total_of_mem inLast] at amount
    rw [raisedCoin, ← amount, isDenom]

include floorOk in
theorem mem_addedPart (coin : Coin) :
    coin ∈ addedPart floor last change ↔ Coins.total last coin.denom = 0
      ∧ Coins.total floor coin.denom ≠ 0
      ∧ coin.amount = newAmount floor last change coin.denom := by
  rw [addedPart, mem_map]
  constructor
  · intro found
    obtain ⟨old, member, isRaised⟩ := found
    obtain ⟨inFloor, isNew⟩ := mem_filter.mp member
    have absent : Coins.total last old.denom = 0 := by simpa using isNew
    rw [← isRaised]
    refine ⟨absent, (floorOk.valid.total_pos_of_mem inFloor).ne', ?_⟩
    show max _ _ = newAmount floor last change old.denom
    rw [newAmount, if_pos absent, floorOk.valid.increasing.total_of_mem inFloor]
  · intro spec
    obtain ⟨absent, occurs, amount⟩ := spec
    obtain ⟨old, inFloor, isDenom⟩ := Coins.exists_mem_of_total_ne_zero occurs
    refine ⟨old, mem_filter.mpr ⟨inFloor, by simpa [isDenom] using absent⟩, ?_⟩
    rw [newAmount, if_pos absent, ← isDenom, floorOk.valid.increasing.total_of_mem inFloor]
      at amount
    rw [raisedCoin, ← amount, isDenom]

include floorOk lastOk

theorem getNewMinDeposit_eq :
    getNewMinDeposit floor last change
      = Coins.newCoins (keptPart floor last change ++ addedPart floor last change) := by
  rw [getNewMinDeposit, keptCoins_eq floorOk.valid change lastOk, some_bind,
    addedCoins_eq _ change floorOk, some_bind]
  have sameFilter : (floor.filter fun coin =>
        coin.denom ∉ (keptPart floor last change).map (·.denom))
      = floor.filter fun coin => Coins.total last coin.denom = 0 := by
    apply filter_congr
    intro coin inFloor
    have occurs : Coins.total floor coin.denom ≠ 0 := (floorOk.valid.total_pos_of_mem inFloor).ne'
    rw [decide_eq_decide, mem_map]
    constructor
    · intro unseen
      by_contra present
      exact unseen ⟨⟨coin.denom, newAmount floor last change coin.denom⟩,
        (mem_keptPart lastOk change _).mpr ⟨present, occurs, rfl⟩, rfl⟩
    · intro absent seen
      obtain ⟨old, member, isDenom⟩ := seen
      have present := ((mem_keptPart lastOk change old).mp member).1
      rw [isDenom] at present
      exact present absent
  rw [addedPart, ← sameFilter]
  rfl

/-- The new minimum has a coin for every denomination of the floor. -/
theorem getNewMinDeposit_mem :
    ∃ value, getNewMinDeposit floor last change = some value ∧ Coins.Valid value
      ∧ ∀ coin, coin ∈ value ↔ Coins.total floor coin.denom ≠ 0
          ∧ coin.amount = newAmount floor last change coin.denom := by
  have spec : ∀ coin, coin ∈ keptPart floor last change ++ addedPart floor last change ↔
      Coins.total floor coin.denom ≠ 0
        ∧ coin.amount = newAmount floor last change coin.denom := by
    intro coin
    rw [mem_append, mem_keptPart lastOk, mem_addedPart floorOk]
    tauto
  have distinct : (keptPart floor last change ++ addedPart floor last change).Pairwise
      fun a b => a.denom ≠ b.denom := by
    rw [pairwise_append]
    refine ⟨?_, ?_, ?_⟩
    · rw [keptPart, pairwise_map]
      exact (lastOk.valid.increasing.sublist filter_sublist).imp fun below => below.ne
    · rw [addedPart, pairwise_map]
      exact (floorOk.valid.increasing.sublist filter_sublist).imp fun below => below.ne
    · intro old inKept new inAdded same
      have occurs := ((mem_keptPart lastOk change old).mp inKept).1
      rw [same] at occurs
      exact occurs ((mem_addedPart floorOk change new).mp inAdded).1
  have denoms : ∀ coin ∈ keptPart floor last change ++ addedPart floor last change,
      validateDenom coin.denom = true := by
    intro coin member
    obtain ⟨old, inFloor, isDenom⟩ :=
      Coins.exists_mem_of_total_ne_zero ((spec coin).mp member).1
    rw [← isDenom]
    exact floorOk.valid.denoms old inFloor
  have positive : ∀ coin ∈ keptPart floor last change ++ addedPart floor last change,
      0 < coin.amount := by
    intro coin member
    obtain ⟨occurs, amount⟩ := (spec coin).mp member
    rw [amount]
    exact lt_max_of_lt_left (lt_of_le_of_ne (floorOk.valid.total_nonneg _) occurs.symm)
  obtain ⟨sorted, valid⟩ := Coins.newCoins_of_distinct distinct denoms positive
  refine ⟨_, (getNewMinDeposit_eq floorOk lastOk change).trans sorted, valid, ?_⟩
  intro coin
  rw [Coins.mem_sort]
  exact spec coin

theorem getNewMinDeposit_total :
    ∃ value, getNewMinDeposit floor last change = some value ∧ Coins.Valid value
      ∧ ∀ denom, Coins.total value denom
          = if Coins.total floor denom = 0 then 0 else newAmount floor last change denom := by
  obtain ⟨value, found, valid, members⟩ := getNewMinDeposit_mem floorOk lastOk change
  refine ⟨value, found, valid, ?_⟩
  intro denom
  split_ifs with absent
  · apply Coins.total_of_forall_ne
    intro coin member same
    rw [← same] at absent
    exact ((members coin).mp member).1 absent
  · exact valid.increasing.total_of_mem ((members ⟨denom, _⟩).mpr ⟨absent, rfl⟩)

end NewMinDeposit

/-! ## Minima that follow a floor -/

/-- A minimum with the denominations of a floor and amounts not below it. -/
structure Follows (floor value : Coins) : Prop where
  moderate : ModerateCoins value
  sameDenoms : ∀ denom, Coins.total value denom = 0 ↔ Coins.total floor denom = 0
  above : ∀ denom, Coins.total floor denom ≤ Coins.total value denom

theorem Follows.refl {floor : Coins} (floorOk : ModerateCoins floor) : Follows floor floor :=
  ⟨floorOk, fun _ => Iff.rfl, fun _ => le_refl _⟩

/-- The list of denominations is that of the floor. -/
theorem Follows.denoms_eq {floor value : Coins} (follows : Follows floor value)
    (floorValid : Coins.Valid floor) : value.map (·.denom) = floor.map (·.denom) := by
  have sorted : ∀ {coins : Coins}, Coins.Valid coins → (coins.map (·.denom)).Pairwise (· < ·) :=
    fun valid => pairwise_map.mpr valid.increasing
  have occurs : ∀ {coins : Coins} (_ : Coins.Valid coins) (denom : Denom),
      denom ∈ coins.map (·.denom) ↔ Coins.total coins denom ≠ 0 := by
    intro coins valid denom
    rw [mem_map]
    constructor
    · intro found
      obtain ⟨coin, member, isDenom⟩ := found
      rw [← isDenom]
      exact (valid.total_pos_of_mem member).ne'
    · exact Coins.exists_mem_of_total_ne_zero
  apply Perm.eq_of_pairwise (fun a b _ _ below above => absurd below above.asymm)
    (sorted follows.moderate.valid) (sorted floorValid)
  rw [perm_ext_iff_of_nodup ((sorted follows.moderate.valid).imp fun below => below.ne)
    ((sorted floorValid).imp fun below => below.ne)]
  intro denom
  rw [occurs follows.moderate.valid, occurs floorValid, not_iff_not]
  exact follows.sameDenoms denom

section Change

variable {floor last : Coins} (floorOk : ModerateCoins floor) (lastOk : ModerateCoins last)

include floorOk lastOk

/-- The amount a denomination of the floor is computed from is moderate. -/
theorem moderate_base {denom : Denom} (occurs : Coins.total floor denom ≠ 0) :
    Moderate (if Coins.total last denom = 0 then Coins.total floor denom
      else Coins.total last denom) := by
  have ofTotal : ∀ {coins : Coins}, ModerateCoins coins → Coins.total coins denom ≠ 0 →
      Moderate (Coins.total coins denom) := by
    intro coins moderate nonzero
    obtain ⟨coin, member, isDenom⟩ := Coins.exists_mem_of_total_ne_zero nonzero
    rw [← isDenom, moderate.valid.increasing.total_of_mem member]
    exact moderate.moderate member
  split_ifs with absent
  · exact ofTotal floorOk occurs
  · exact ofTotal lastOk absent

/-- A change makes a minimum that follows the floor. A change of at least one lowers no
amount of the floor's denominations, one of at most one raises none that was not below its
floor. -/
theorem getNewMinDeposit_follows (change : BoundedDec) :
    ∃ value, getNewMinDeposit floor last change = some value ∧ Follows floor value
      ∧ (Dec.one ≤ change.units → ∀ denom, Coins.total floor denom ≠ 0 →
          Coins.total last denom ≤ Coins.total value denom)
      ∧ (change.units ≤ Dec.one → ∀ denom, Coins.total last denom ≠ 0 →
          Coins.total floor denom ≤ Coins.total last denom →
          Coins.total value denom ≤ Coins.total last denom) := by
  obtain ⟨value, found, valid, totals⟩ := getNewMinDeposit_total floorOk lastOk change
  have floorLe : ∀ denom, Coins.total floor denom ≤ Coins.total value denom := by
    intro denom
    rw [totals]
    split_ifs with absent
    · exact absent.le
    · exact le_max_left _ _
  refine ⟨value, found, ⟨⟨valid, ?_⟩, ?_, floorLe⟩, ?_, ?_⟩
  · intro coin member
    have amount := totals coin.denom
    rw [valid.increasing.total_of_mem member] at amount
    have positive := valid.positive coin member
    rw [amount] at positive ⊢
    split_ifs at positive ⊢ with absent
    · omega
    · have base := moderate_base floorOk lastOk absent
      have floorBase := moderate_base floorOk floorOk absent
      rw [if_neg absent] at floorBase
      exact max_le floorBase.2 (base.changed change).2.1
  · intro denom
    constructor
    · intro zero
      have := floorLe denom
      have := floorOk.valid.total_nonneg denom
      omega
    · intro absent
      rw [totals, if_pos absent]
  · intro isUp denom occurs
    have base := moderate_base floorOk lastOk occurs
    have up := (base.changed change).2.2.1 isUp
    rw [totals, if_neg occurs]
    apply le_max_of_le_right
    by_cases absent : Coins.total last denom = 0
    · have nonneg := floorOk.valid.total_nonneg denom
      rw [if_pos absent] at up ⊢
      omega
    · rw [if_neg absent] at up ⊢
      exact up
  · intro isDown denom present notBelow
    rw [totals]
    split_ifs with absent
    · exact lastOk.valid.total_nonneg denom
    · have base := moderate_base floorOk lastOk absent
      have down := (base.changed change).2.2.2 isDown
      rw [newAmount]
      rw [if_neg present] at down ⊢
      exact max_le notBelow down

end Change

end AtomOneSdk.Proposals
