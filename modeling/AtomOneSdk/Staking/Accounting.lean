import AtomOneSdk.Staking.Delegation

/-!
Contract: share accounting between validators and delegations.

Owns: the exchange-rate facts of `Validator` (what a deposit issues and what
shares pay out), the accounting invariant `SharesOK`, and how each kind of write
to a validator or a delegation changes it. The invariant carries a `pending`
amount per validator: the shares a validator counts that no delegation holds yet,
or that a delegation has already given up.

Does **not** own: the keeper functions that perform these writes.
-/

namespace AtomOneSdk.Staking

open Lib Store

/-! ## Exchange rate -/

namespace Validator

variable {v : Validator}

/-- A deposit to a validator with a defined rate issues at least one unit per token. -/
theorem le_issuedShares {amount : Int} {issued : Int} (nonneg : 0 ≤ v.tokens)
    (covered : v.tokens ≤ v.delegatorShares) (positive : 0 < amount)
    (issues : v.issuedShares amount = some issued) : amount ≤ issued := by
  unfold issuedShares at issues
  split_ifs at issues with first
  · -- the first deposit is issued one share a token
    cases issues
    simp only [Dec.ofInt, Dec.one_eq]
    omega
  · unfold sharesFromTokens at issues
    split_ifs at issues with empty
    cases issues
    have tokensPos : 0 < v.tokens := by omega
    have numeratorNonneg : 0 ≤ v.delegatorShares * amount :=
      mul_nonneg (by omega) positive.le
    show amount ≤ (v.delegatorShares * amount).tdiv v.tokens
    rw [le_tdiv_iff tokensPos numeratorNonneg, mul_comm]
    exact mul_le_mul_of_nonneg_right covered positive.le

/-- Shares are issued unless tokens are gone while shares are left. -/
theorem issuedShares_isSome {amount : Int} (covered : v.tokens ≤ v.delegatorShares)
    (valid : v.invalidExRate = false) :
    ∃ issued, v.issuedShares amount = some issued := by
  unfold issuedShares
  split_ifs with first
  · exact ⟨_, rfl⟩
  · unfold sharesFromTokens
    have notEmpty : v.tokens ≠ 0 := by
      intro empty
      have positive : 0 < v.delegatorShares := by omega
      simp [invalidExRate, empty, positive] at valid
    rw [if_neg notEmpty]
    exact ⟨_, rfl⟩

/-- The worth of a part of the shares, as the exact token fraction it rounds down. -/
theorem issuedTokens_bounds {delShares : Int} (nonneg : 0 ≤ v.tokens)
    (sharesPos : 0 < delShares) (part : delShares < v.delegatorShares) :
    v.delegatorShares * v.issuedTokens delShares ≤ v.delegatorShares * v.tokens
      ∧ delShares * v.tokens < v.delegatorShares * (v.issuedTokens delShares + 1)
      ∧ 0 ≤ v.issuedTokens delShares := by
  have totalPos : 0 < v.delegatorShares := lt_trans sharesPos part
  have worthNonneg : 0 ≤ delShares * v.tokens := mul_nonneg sharesPos.le nonneg
  have notAll : v.delegatorShares - delShares ≠ 0 := by omega
  set rounded := roundHalfEven (delShares * v.tokens * Dec.one) v.delegatorShares with roundedDef
  have payout : v.issuedTokens delShares = rounded.tdiv Dec.one := by
    unfold issuedTokens tokensFromShares
    rw [if_neg notAll]
    exact Dec.truncateInt_quo worthNonneg totalPos
  have roundedNonneg : 0 ≤ rounded :=
    roundHalfEven_nonneg totalPos (mul_nonneg worthNonneg Dec.one_pos.le)
  have roundedLe : rounded ≤ v.tokens * Dec.one := by
    apply roundHalfEven_le totalPos
    calc delShares * v.tokens * Dec.one
        ≤ v.delegatorShares * v.tokens * Dec.one :=
          mul_le_mul_of_nonneg_right (mul_le_mul_of_nonneg_right part.le nonneg) Dec.one_pos.le
      _ = v.tokens * Dec.one * v.delegatorShares := by ring
  have payoutLe : v.issuedTokens delShares ≤ v.tokens := by
    rw [payout]
    exact tdiv_le_of_le_mul Dec.one_pos roundedNonneg roundedLe
  refine ⟨mul_le_mul_of_nonneg_left payoutLe totalPos.le, ?_, ?_⟩
  · -- the whole part of the exact worth is a multiple of the unit, so rounding keeps it
    have wholeLe : delShares * v.tokens / v.delegatorShares ≤ v.issuedTokens delShares := by
      rw [payout, le_tdiv_iff Dec.one_pos roundedNonneg]
      apply le_roundHalfEven totalPos
      calc delShares * v.tokens / v.delegatorShares * Dec.one * v.delegatorShares
          = delShares * v.tokens / v.delegatorShares * v.delegatorShares * Dec.one := by ring
        _ ≤ delShares * v.tokens * Dec.one :=
          mul_le_mul_of_nonneg_right (Int.ediv_mul_le _ totalPos.ne') Dec.one_pos.le
    have above := Int.lt_ediv_add_one_mul_self (delShares * v.tokens) totalPos
    calc delShares * v.tokens
        < (delShares * v.tokens / v.delegatorShares + 1) * v.delegatorShares := above
      _ ≤ (v.issuedTokens delShares + 1) * v.delegatorShares :=
          mul_le_mul_of_nonneg_right (by omega) totalPos.le
      _ = v.delegatorShares * (v.issuedTokens delShares + 1) := mul_comm _ _
  · rw [payout]
    exact Int.tdiv_nonneg roundedNonneg Dec.one_pos.le

/-- Removing shares keeps tokens non-negative and covered by the remaining shares. -/
theorem removeDelShares_covered {delShares : Int} (nonneg : 0 ≤ v.tokens)
    (covered : v.tokens ≤ v.delegatorShares) (sharesPos : 0 < delShares)
    (held : delShares ≤ v.delegatorShares) :
    0 ≤ v.issuedTokens delShares
      ∧ 0 ≤ (v.removeDelShares delShares).1.tokens
      ∧ (v.removeDelShares delShares).1.tokens
        ≤ (v.removeDelShares delShares).1.delegatorShares := by
  show 0 ≤ v.issuedTokens delShares ∧ 0 ≤ v.tokens - v.issuedTokens delShares
    ∧ v.tokens - v.issuedTokens delShares ≤ v.delegatorShares - delShares
  rcases held.eq_or_lt with all | part
  · have everything : v.issuedTokens delShares = v.tokens := by
      unfold issuedTokens
      rw [if_pos (by omega)]
    rw [everything]
    omega
  · obtain ⟨paidLe, worthLt, paidNonneg⟩ := issuedTokens_bounds nonneg sharesPos part
    have totalPos : 0 < v.delegatorShares := lt_trans sharesPos part
    refine ⟨paidNonneg, by linarith [le_of_mul_le_mul_left paidLe totalPos], ?_⟩
    -- the uncovered shares given up are at most all uncovered shares
    by_contra exceeds
    have gap : v.delegatorShares - v.tokens + 1 ≤ delShares - v.issuedTokens delShares := by omega
    have scaled := mul_le_mul_of_nonneg_left gap totalPos.le
    have slack : delShares * (v.delegatorShares - v.tokens)
        ≤ v.delegatorShares * (v.delegatorShares - v.tokens) :=
      mul_le_mul_of_nonneg_right held (by omega)
    nlinarith

end Validator

/-! ## The accounting invariant -/

/-- Shares that the stored delegations hold in a validator. -/
def delegatedTo (dels : Store (Pair Address Address) Delegation) (valAddr : Address) : Int :=
  dels.sum fun key d => if key.snd = valAddr then d.shares else 0

/-- Validators and delegations agree: every record is filed under its own addresses,
every delegation is positive and belongs to a stored validator, and a validator's
shares are those of its delegations plus the pending ones and cover its tokens. -/
structure SharesOK (pending : Address → Int) (vals : Store Address Validator)
    (dels : Store (Pair Address Address) Delegation) : Prop where
  validatorKey : ∀ {addr v}, vals.get? addr = some v → v.operatorAddress = addr
  delegationKey : ∀ {key d}, dels.get? key = some d →
    d.delegatorAddress = key.fst ∧ d.validatorAddress = key.snd
  positive : ∀ {key d}, dels.get? key = some d → 0 < d.shares
  home : ∀ {key d}, dels.get? key = some d → ∃ v, vals.get? key.snd = some v
  total : ∀ {addr v}, vals.get? addr = some v →
    delegatedTo dels addr + pending addr = v.delegatorShares
  tokensNonneg : ∀ {addr v}, vals.get? addr = some v → 0 ≤ v.tokens
  covered : ∀ {addr v}, vals.get? addr = some v → v.tokens ≤ v.delegatorShares

/-- The shares of a state, with those an unfinished operation still has to settle. -/
abbrev SharesIn (pending : Address → Int) (s : StakingState) : Prop :=
  SharesOK pending s.validators s.delegations

abbrev SharesSettled (s : StakingState) : Prop := SharesIn (fun _ => 0) s

section Accounting

variable {vals : Store Address Validator} {dels : Store (Pair Address Address) Delegation}
  {pending : Address → Int}

theorem delegatedTo_set (key : Pair Address Address) (d : Delegation) (addr : Address) :
    delegatedTo (dels.set key d) addr
      = delegatedTo dels addr
        + if addr = key.snd then d.shares - ((dels.get? key).map Delegation.shares).getD 0
          else 0 := by
  unfold delegatedTo
  rw [sum_set]
  cases found : dels.get? key with
  | none =>
    rw [termAt_of_none found]
    by_cases here : key.snd = addr
    · simp [here]
    · simp [here, Ne.symm here]
  | some old =>
    rw [termAt_of_some found]
    by_cases here : key.snd = addr
    · simp only [here, if_true, Option.map_some, Option.getD_some]
      omega
    · simp [here, Ne.symm here]

theorem delegatedTo_delete {key : Pair Address Address} {d : Delegation}
    (found : dels.get? key = some d) (addr : Address) :
    delegatedTo (dels.delete key) addr
      = delegatedTo dels addr - if addr = key.snd then d.shares else 0 := by
  unfold delegatedTo
  rw [sum_delete, termAt_of_some found]
  by_cases here : key.snd = addr
  · simp [here]
  · simp [here, Ne.symm here]

namespace SharesOK

variable (ok : SharesOK pending vals dels)

include ok

/-- A delegation's shares are part of what its validator is delegated. -/
theorem shares_le_delegatedTo {key : Pair Address Address}
    {d : Delegation} (found : dels.get? key = some d) :
    d.shares ≤ delegatedTo dels key.snd := by
  have bound := le_sum (f := fun key' d' => if key'.snd = key.snd then d'.shares else 0)
    found (by
      intro other d' found'
      split_ifs
      · exact (ok.positive found').le
      · exact le_rfl)
  simpa [delegatedTo] using bound

theorem delegatedTo_nonneg (addr : Address) :
    0 ≤ delegatedTo dels addr := by
  refine sum_nonneg ?_
  intro key d found
  split_ifs
  · exact (ok.positive found).le
  · exact le_rfl

theorem no_delegation_of_no_validator {addr : Address}
    (absent : vals.get? addr = none) (delAddr : Address) : dels.get? ⟨delAddr, addr⟩ = none := by
  cases found : dels.get? ⟨delAddr, addr⟩ with
  | none => rfl
  | some d =>
    obtain ⟨v, stored⟩ := ok.home found
    rw [absent] at stored
    cases stored

theorem delegatedTo_of_no_validator {addr : Address}
    (absent : vals.get? addr = none) : delegatedTo dels addr = 0 := by
  refine sum_eq_zero ?_
  rintro ⟨delAddr, valAddr⟩ d found
  split_ifs with here
  · cases here
    rw [ok.no_delegation_of_no_validator absent delAddr] at found
    cases found
  · rfl

/-- Nobody delegates to a validator that is delegated nothing. -/
theorem no_delegation_of_delegatedTo_eq_zero {addr : Address}
    (nothing : delegatedTo dels addr = 0) (delAddr : Address) :
    dels.get? ⟨delAddr, addr⟩ = none := by
  cases found : dels.get? ⟨delAddr, addr⟩ with
  | none => rfl
  | some d =>
    have positive := ok.positive found
    have bound := ok.shares_le_delegatedTo found
    simp only [nothing] at bound
    omega

/-! ### Writes -/

/-- Writing a validator whose shares are those delegated to it and pending. -/
theorem writeValidator {addr : Address} {v : Validator} {pending' : Address → Int}
    (sameKey : v.operatorAddress = addr) (nonneg : 0 ≤ v.tokens)
    (covers : v.tokens ≤ v.delegatorShares)
    (here : delegatedTo dels addr + pending' addr = v.delegatorShares)
    (elsewhere : ∀ {other}, other ≠ addr → pending' other = pending other) :
    SharesOK pending' (vals.set addr v) dels where
  validatorKey := forall_set ok.validatorKey sameKey
  delegationKey := ok.delegationKey
  positive := ok.positive
  home := by
    intro key d found
    obtain ⟨w, present⟩ := ok.home found
    rw [get?_set]
    split_ifs
    · exact ⟨v, rfl⟩
    · exact ⟨w, present⟩
  total := by
    intro other w found
    rcases get?_set_cases found with ⟨rfl, rfl⟩ | ⟨apart, present⟩
    · exact here
    · rw [elsewhere apart]
      exact ok.total present
  tokensNonneg := forall_set ok.tokensNonneg nonneg
  covered := forall_set ok.covered covers

/-- Overwriting a stored validator moves the pending shares by the change of its
total. -/
theorem setValidator {addr : Address} {v v' : Validator}
    (stored : vals.get? addr = some v) (sameKey : v'.operatorAddress = addr)
    (nonneg : 0 ≤ v'.tokens) (covers : v'.tokens ≤ v'.delegatorShares) :
    SharesOK (shift pending addr (v'.delegatorShares - v.delegatorShares)) (vals.set addr v')
      dels := by
  apply ok.writeValidator sameKey nonneg covers
  · have before := ok.total stored
    rw [shift_self]
    omega
  · exact shift_of_ne _ _

/-- Overwriting a stored validator without touching its tokens and shares. -/
theorem setValidator_same {addr : Address} {v v' : Validator}
    (stored : vals.get? addr = some v) (sameKey : v'.operatorAddress = addr)
    (sameTokens : v'.tokens = v.tokens) (sameShares : v'.delegatorShares = v.delegatorShares) :
    SharesOK pending (vals.set addr v') dels := by
  have kept := ok.setValidator stored sameKey (sameTokens ▸ ok.tokensNonneg stored)
    (by rw [sameTokens, sameShares]; exact ok.covered stored)
  rwa [sameShares, sub_self, shift_zero] at kept

theorem createValidator {addr : Address} {v : Validator}
    (absent : vals.get? addr = none) (sameKey : v.operatorAddress = addr)
    (noTokens : v.tokens = 0) (noShares : v.delegatorShares = 0) (settled : pending addr = 0) :
    SharesOK pending (vals.set addr v) dels := by
  apply ok.writeValidator sameKey noTokens.ge (by rw [noTokens, noShares])
  · rw [ok.delegatedTo_of_no_validator absent, settled, noShares]
    rfl
  · exact fun _ => rfl

/-- A validator without shares may go: nobody delegates to it. -/
theorem removeValidator {addr : Address} {v : Validator}
    (stored : vals.get? addr = some v) (noShares : v.delegatorShares = 0)
    (settled : pending addr = 0) : SharesOK pending (vals.delete addr) dels where
  validatorKey := fun found => ok.validatorKey (get?_delete_some found).2
  delegationKey := ok.delegationKey
  positive := ok.positive
  home := by
    rintro ⟨delAddr, valAddr⟩ d found
    obtain ⟨w, present⟩ := ok.home found
    rw [get?_delete]
    split_ifs with here
    · simp only at here
      subst here
      have nothing : delegatedTo dels valAddr = 0 := by
        have balance := ok.total stored
        omega
      rw [ok.no_delegation_of_delegatedTo_eq_zero nothing delAddr] at found
      cases found
    · exact ⟨w, present⟩
  total := fun found => ok.total (get?_delete_some found).2
  tokensNonneg := fun found => ok.tokensNonneg (get?_delete_some found).2
  covered := fun found => ok.covered (get?_delete_some found).2

/-- Writing a positive delegation to a stored validator takes its change out of the
pending shares. -/
theorem setDelegation {delAddr valAddr : Address}
    {d : Delegation} (delegator : d.delegatorAddress = delAddr)
    (validator : d.validatorAddress = valAddr) (sharesPos : 0 < d.shares)
    (stored : ∃ v, vals.get? valAddr = some v) :
    SharesOK
      (shift pending valAddr
        (((dels.get? ⟨delAddr, valAddr⟩).map Delegation.shares).getD 0 - d.shares))
      vals (dels.set ⟨delAddr, valAddr⟩ d) where
  validatorKey := ok.validatorKey
  delegationKey := forall_set ok.delegationKey ⟨delegator, validator⟩
  positive := forall_set ok.positive sharesPos
  home := forall_set ok.home stored
  total := by
    intro addr v found
    have before := ok.total found
    rw [delegatedTo_set]
    by_cases here : addr = valAddr
    · subst here
      rw [if_pos rfl, shift_self]
      omega
    · rw [if_neg here, shift_of_ne _ _ here]
      omega
  tokensNonneg := ok.tokensNonneg
  covered := ok.covered

theorem deleteDelegation {delAddr valAddr : Address}
    {d : Delegation} (stored : dels.get? ⟨delAddr, valAddr⟩ = some d) :
    SharesOK (shift pending valAddr d.shares) vals (dels.delete ⟨delAddr, valAddr⟩) where
  validatorKey := ok.validatorKey
  delegationKey := fun found => ok.delegationKey (get?_delete_some found).2
  positive := fun found => ok.positive (get?_delete_some found).2
  home := fun found => ok.home (get?_delete_some found).2
  total := by
    intro addr v found
    have before := ok.total found
    rw [delegatedTo_delete stored]
    by_cases here : addr = valAddr
    · subst here
      rw [if_pos rfl, shift_self]
      omega
    · rw [if_neg here, shift_of_ne _ _ here]
      omega
  tokensNonneg := ok.tokensNonneg
  covered := ok.covered

end SharesOK

end Accounting

end AtomOneSdk.Staking
