import AtomOneSdk.Staking.Accounting

/-!
Contract: what conversions between tokens and shares are worth.

Owns: that a deposit does not lower the tokens per share, that what shares pay out exceeds
their exact worth by at most half a unit, and that paying them out in parts adds at most half
a unit a part.

Does **not** own: the keeper functions around the conversions.
-/

namespace AtomOneSdk.Staking

open Lib

namespace Validator

variable {v : Validator}

/-- The issued shares are worth no more than the deposit. -/
theorem issuedShares_worth {amount issued : Int} (tokensPos : 0 < v.tokens)
    (covered : v.tokens ≤ v.delegatorShares) (positive : 0 < amount)
    (issues : v.issuedShares amount = some issued) :
    issued * v.tokens ≤ v.delegatorShares * amount := by
  have sharesPos : v.delegatorShares ≠ 0 := by omega
  rw [issuedShares, if_neg sharesPos, sharesFromTokens, if_neg tokensPos.ne'] at issues
  cases issues
  exact tdiv_mul_le tokensPos (mul_nonneg (by omega) positive.le)

/-- A payout is truncated from the worth of the shares rounded to nearest. -/
theorem issuedTokens_worth {delShares : Int} (nonneg : 0 ≤ v.tokens) (sharesNonneg : 0 ≤ delShares)
    (held : delShares ≤ v.delegatorShares) (positive : 0 < v.delegatorShares) :
    0 ≤ v.issuedTokens delShares ∧ v.issuedTokens delShares ≤ v.tokens
      ∧ 2 * Dec.one * v.issuedTokens delShares * v.delegatorShares
        ≤ 2 * Dec.one * (delShares * v.tokens) + v.delegatorShares := by
  unfold issuedTokens
  split_ifs with all
  · have same : delShares = v.delegatorShares := by omega
    rw [same]
    refine ⟨nonneg, le_rfl, ?_⟩
    linarith
  · set rounded := roundHalfEven (delShares * v.tokens * Dec.one) v.delegatorShares
    have payout : Dec.truncateInt (v.tokensFromShares delShares) = Dec.truncateInt rounded :=
      Dec.truncateInt_quo (mul_nonneg sharesNonneg nonneg) positive
    have worthNonneg : 0 ≤ delShares * v.tokens * Dec.one :=
      mul_nonneg (mul_nonneg sharesNonneg nonneg) Dec.one_pos.le
    have roundedNonneg : 0 ≤ rounded := roundHalfEven_nonneg positive worthNonneg
    have roundedLe : rounded ≤ v.tokens * Dec.one := by
      apply roundHalfEven_le positive
      calc delShares * v.tokens * Dec.one
          ≤ v.delegatorShares * v.tokens * Dec.one :=
            mul_le_mul_of_nonneg_right (mul_le_mul_of_nonneg_right held nonneg) Dec.one_pos.le
        _ = v.tokens * Dec.one * v.delegatorShares := by ring
    have error : 2 * (rounded * v.delegatorShares - delShares * v.tokens * Dec.one)
        ≤ v.delegatorShares := (roundHalfEven_error positive).2
    have cut : Dec.truncateInt rounded * Dec.one * v.delegatorShares
        ≤ rounded * v.delegatorShares :=
      mul_le_mul_of_nonneg_right (tdiv_mul_le Dec.one_pos roundedNonneg) positive.le
    rw [payout]
    refine ⟨Int.tdiv_nonneg roundedNonneg Dec.one_pos.le, Dec.truncateInt_le nonneg roundedLe, ?_⟩
    linarith

/-- Unbonding share amounts one after another: the tokens paid out in total. Removing shares
from none divides by zero, and removing more tokens than there are panics. -/
def unbondEach (v : Validator) : List Int → Option Int
  | [] => some 0
  | shares :: rest =>
    let removed := v.removeDelShares shares
    if v.delegatorShares = 0 ∧ shares ≠ 0 ∨ removed.1.tokens < 0 then none
    else (removed.1.unbondEach rest).map (removed.2 + ·)

/-- Each part adds at most half a unit. The tokens left behind by one part raise the worth of
the next, but never above the exact worth of all parts together. -/
theorem unbondEach_worth (amounts : List Int) :
    ∀ v : Validator, 0 ≤ v.tokens → (v.delegatorShares = 0 → v.tokens = 0) →
      (∀ shares ∈ amounts, 0 ≤ shares) → amounts.sum ≤ v.delegatorShares →
      ∃ total, v.unbondEach amounts = some total ∧ 0 ≤ total ∧ total ≤ v.tokens
        ∧ 2 * Dec.one * total * v.delegatorShares
          ≤ 2 * Dec.one * (amounts.sum * v.tokens) + amounts.length * v.delegatorShares := by
  induction amounts with
  | nil =>
    intro v nonneg _ _ _
    exact ⟨0, rfl, le_rfl, nonneg, by simp⟩
  | cons shares rest ih =>
    intro v nonneg emptied amountsNonneg enough
    have sharesNonneg := amountsNonneg shares List.mem_cons_self
    have restNonneg : ∀ other ∈ rest, 0 ≤ other :=
      fun other member => amountsNonneg other (List.mem_cons_of_mem shares member)
    have sumNonneg := List.sum_nonneg restNonneg
    rw [List.sum_cons] at enough
    -- what is left after the first part
    have paid : 0 ≤ v.issuedTokens shares ∧ v.issuedTokens shares ≤ v.tokens
        ∧ 2 * Dec.one * v.issuedTokens shares * v.delegatorShares
          ≤ 2 * Dec.one * (shares * v.tokens) + v.delegatorShares := by
      rcases (show 0 ≤ v.delegatorShares by omega).eq_or_lt with none | positive
      · have noTokens := emptied none.symm
        have noShares : shares = 0 := by omega
        simp [issuedTokens, ← none, noShares, noTokens]
      · exact issuedTokens_worth nonneg sharesNonneg (by omega) positive
    obtain ⟨paidNonneg, paidLe, worth⟩ := paid
    obtain ⟨total, returns, totalNonneg, totalLe, restWorth⟩ :=
      ih (v.removeDelShares shares).1 (by simp only [removeDelShares]; omega)
        (by
          simp only [removeDelShares]
          intro all
          rw [issuedTokens, if_pos all, sub_self])
        restNonneg (by simp only [removeDelShares]; omega)
    simp only [removeDelShares] at returns totalLe restWorth
    refine ⟨v.issuedTokens shares + total, ?_, by omega, by omega, ?_⟩
    · rw [unbondEach, if_neg, removeDelShares, returns]
      · rfl
      · simp only [removeDelShares]
        omega
    rw [List.sum_cons, List.length_cons, Nat.cast_succ]
    rcases (show 0 ≤ v.delegatorShares - shares by omega).eq_or_lt with all | part
    · -- the last shares took everything
      have nothing : total = 0 := by
        rw [issuedTokens, if_pos all.symm] at totalLe
        omega
      have restZero : rest.sum = 0 := by omega
      rw [nothing, restZero, add_zero, add_zero]
      have lengthNonneg : 0 ≤ (rest.length : Int) * v.delegatorShares :=
        mul_nonneg (Int.natCast_nonneg _) (by omega)
      linarith
    · -- compare after multiplication by the shares left
      have left_ := mul_le_mul_of_nonneg_right restWorth (show 0 ≤ v.delegatorShares by omega)
      have first := mul_le_mul_of_nonneg_right worth
        (show 0 ≤ v.delegatorShares - shares - rest.sum by omega)
      have half : 0 ≤ v.delegatorShares * rest.sum := mul_nonneg (by omega) sumNonneg
      apply le_of_mul_le_mul_right _ part
      linarith

end Validator

/-- Tokens bounded by the exact worth of shares and a number of half units. -/
theorem le_worth_iff {paid worth total parts : Int} (positive : 0 < total) :
    (paid : ℚ) ≤ worth / total + parts * (1 / 10 ^ 18 / 2)
      ↔ 2 * Dec.one * paid * total ≤ 2 * Dec.one * worth + parts * total := by
  have totalPos : (0 : ℚ) < total := by exact_mod_cast positive
  have scaled : (worth : ℚ) / total + parts * (1 / 10 ^ 18 / 2)
      = (2 * Dec.one * worth + parts * total : Int) / (2 * Dec.one * total : Int) := by
    push_cast [Dec.one_eq]
    field_simp
    ring
  have scaledPos : (0 : ℚ) < (2 * Dec.one * total : Int) := by
    exact_mod_cast mul_pos (mul_pos two_pos Dec.one_pos) positive
  rw [scaled, le_div_iff₀ scaledPos]
  constructor
  · intro bound
    have bound : paid * (2 * Dec.one * total) ≤ 2 * Dec.one * worth + parts * total := by
      exact_mod_cast bound
    linarith
  · intro bound
    have bound : paid * (2 * Dec.one * total) ≤ 2 * Dec.one * worth + parts * total := by
      linarith
    exact_mod_cast bound

/-- Deposits issue shares at no lower rate and are not returned with a gain, and shares pay out
their worth with at most half a unit for each part they are paid out in. -/
theorem share_conversion_creates_no_value (v : Validator) (tokensPos : 0 < v.tokens)
    (covered : v.tokens ≤ v.delegatorShares) :
    (∀ amount, 0 < amount → ∃ grown issued, v.addTokensFromDel amount = some (grown, issued)
      ∧ 0 < issued
      ∧ (v.tokens : ℚ) / v.delegatorShares ≤ (grown.tokens : ℚ) / grown.delegatorShares
      ∧ (grown.removeDelShares issued).2 ≤ amount)
    ∧ (∀ shares, 0 ≤ shares → shares ≤ v.delegatorShares →
        0 ≤ (v.removeDelShares shares).1.tokens
        ∧ ((v.removeDelShares shares).2 : ℚ)
          ≤ (shares * v.tokens : Int) / v.delegatorShares + 1 / 10 ^ 18 / 2)
    ∧ ∀ amounts : List Int, (∀ shares ∈ amounts, 0 ≤ shares) → amounts.sum ≤ v.delegatorShares →
        ∃ total : Int, v.unbondEach amounts = some total
          ∧ (total : ℚ) ≤ (amounts.sum * v.tokens : Int) / v.delegatorShares
            + amounts.length * (1 / 10 ^ 18 / 2) := by
  have sharesPos : 0 < v.delegatorShares := by omega
  refine ⟨fun amount positive => ?_, fun shares nonneg held => ?_, fun amounts nonneg enough => ?_⟩
  · obtain ⟨issued, issues⟩ := @Validator.issuedShares_isSome v amount covered
      (by simp [Validator.invalidExRate, tokensPos.ne'])
    have atLeast := Validator.le_issuedShares tokensPos.le covered positive issues
    have worth := Validator.issuedShares_worth tokensPos covered positive issues
    refine ⟨_, issued, by rw [Validator.addTokensFromDel, issues]; rfl, by omega, ?_, ?_⟩
    · have grownPos : 0 < v.delegatorShares + issued := by omega
      rw [div_le_div_iff₀ (by exact_mod_cast sharesPos) (by exact_mod_cast grownPos)]
      have cross : v.tokens * (v.delegatorShares + issued)
          ≤ (v.tokens + amount) * v.delegatorShares := by
        linarith
      exact_mod_cast cross
    · -- the deposit is a whole number of tokens, so rounding does not pass it
      have notAll : v.delegatorShares + issued - issued ≠ 0 := by omega
      simp only [Validator.removeDelShares, Validator.issuedTokens, if_neg notAll]
      apply Dec.truncateInt_le positive.le
      have worthNonneg : 0 ≤ issued * (v.tokens + amount) := mul_nonneg (by omega) (by omega)
      apply Dec.quo_le worthNonneg (show 0 < v.delegatorShares + issued by omega)
      have cross : issued * (v.tokens + amount) ≤ amount * (v.delegatorShares + issued) := by
        linarith
      have scaled := mul_le_mul_of_nonneg_right cross Dec.one_pos.le
      linarith
  · obtain ⟨_, paidLe, worth⟩ := Validator.issuedTokens_worth tokensPos.le nonneg held sharesPos
    refine ⟨by simp only [Validator.removeDelShares]; omega, ?_⟩
    have bound := (@le_worth_iff (v.issuedTokens shares) (shares * v.tokens) _ 1 sharesPos).mpr
      (by linarith)
    simpa [Validator.removeDelShares] using bound
  · obtain ⟨total, returns, _, _, worth⟩ := Validator.unbondEach_worth amounts v tokensPos.le
      (by omega) nonneg enough
    refine ⟨total, returns, ?_⟩
    have bound :=
      (@le_worth_iff total (amounts.sum * v.tokens) _ amounts.length sharesPos).mpr worth
    simpa using bound

/-- Two shares of seven, paid out one after the other. -/
theorem two_shares_pay_their_worth :
    let v := { newValidator [1] ⟨.ed25519, [1]⟩ .empty with tokens := 3, delegatorShares := 7 }
    ∃ total : Int, v.unbondEach [1, 1] = some total
      ∧ (total : ℚ) ≤ (2 * 3 : Int) / 7 + 2 * (1 / 10 ^ 18 / 2) := by
  intro v
  obtain ⟨total, returns, bound⟩ :=
    (share_conversion_creates_no_value v (by decide) (by decide)).2.2 [1, 1] (by decide) (by decide)
  exact ⟨total, returns, by simpa [v] using bound⟩

end AtomOneSdk.Staking
