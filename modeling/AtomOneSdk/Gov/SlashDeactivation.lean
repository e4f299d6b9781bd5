import AtomOneSdk.Gov.Properties
import AtomOneSdk.Gov.TallyValue

/-!
Contract: which governors a slash of a validator deactivates.

Owns: the amount the hook projects for a governor, how far it is from the amount left after
the slash, and what holds for the governors that stay active.

Does **not** own: how much of a validator is slashed.
-/

namespace AtomOneSdk.Gov

open Lib Lib.Action Store
open Staking (Address StakingState Delegation Validator SharesOK World PubKey KeyType Keepers
  effectiveFraction slashValidatorTokens Time SharesSettled)

/-! ## Rounding -/

/-- The effective fraction is not below the exact one. -/
theorem le_effectiveFraction {burned tokens : Int} (positive : 0 < burned)
    (available : burned ≤ tokens) :
    burned * Dec.one ≤ effectiveFraction burned tokens * tokens := by
  have tokensPos : 0 < tokens := by omega
  have whole : burned * Dec.one ≤ Dec.one * tokens := by
    rw [mul_comm]
    exact mul_le_mul_of_nonneg_left available Dec.one_pos.le
  have scaled : 0 < tokens * Dec.one := mul_pos tokensPos Dec.one_pos
  have numerator : 0 ≤ burned * Dec.one * Dec.one :=
    mul_nonneg (mul_nonneg positive.le Dec.one_pos.le) Dec.one_pos.le
  have rounded : burned * Dec.one
      ≤ Dec.quoRoundUp (Dec.ofInt burned) (Dec.ofInt tokens) * tokens := by
    have division : (burned * Dec.one * Dec.one).tdiv (tokens * Dec.one) * (tokens * Dec.one)
        + (burned * Dec.one * Dec.one).tmod (tokens * Dec.one) = burned * Dec.one * Dec.one :=
      Int.tdiv_mul_add_tmod _ _
    have remainder : (burned * Dec.one * Dec.one).tmod (tokens * Dec.one) < tokens * Dec.one :=
      Int.tmod_lt_of_pos _ scaled
    apply le_of_mul_le_mul_right _ Dec.one_pos
    rw [mul_assoc _ tokens]
    unfold Dec.quoRoundUp Dec.ofInt
    dsimp only
    split_ifs with cut
    · rw [add_mul, one_mul]
      omega
    · have none_ : (burned * Dec.one * Dec.one).tmod (tokens * Dec.one) ≤ 0 := by
        by_contra some_
        exact cut (.inl ⟨not_le.mp some_, scaled⟩)
      omega
  unfold effectiveFraction
  rcases min_choice (Dec.quoRoundUp (Dec.ofInt burned) (Dec.ofInt tokens)) Dec.one with low | high
  · rw [low]
    exact rounded
  · rw [high]
    exact whole

def bondedPart (shares bondedTokens delegatorShares : Int) : Int :=
  Dec.quo (Dec.mulInt shares bondedTokens) delegatorShares

section Part

variable {shares bonded burned total : Int} (sharesNonneg : 0 ≤ shares) (totalPos : 0 < total)
  (positive : 0 < burned) (available : burned ≤ bonded)

include sharesNonneg totalPos

theorem bondedPart_nonneg (bondedNonneg : 0 ≤ bonded) : 0 ≤ bondedPart shares bonded total :=
  Dec.quo_nonneg (mul_nonneg sharesNonneg bondedNonneg) totalPos

include positive available

/-- What is left after the slash is at most one unit below the projection. -/
theorem bondedPart_slashed :
    bondedPart shares bonded total
        - Dec.mul (bondedPart shares bonded total) (effectiveFraction burned bonded) - 1
      ≤ bondedPart shares (bonded - burned) total := by
  have bondedPos : 0 < bonded := by omega
  have partNonneg := @bondedPart_nonneg shares bonded total sharesNonneg totalPos bondedPos.le
  have fraction := le_effectiveFraction positive available
  obtain ⟨_, before⟩ := Dec.quo_error (mul_nonneg sharesNonneg bondedPos.le) totalPos
  obtain ⟨after, _⟩ :=
    Dec.quo_error (mul_nonneg sharesNonneg (show 0 ≤ bonded - burned by omega)) totalPos
  obtain ⟨impact, _⟩ := @roundHalfEven_error
    (bondedPart shares bonded total * effectiveFraction burned bonded) Dec.one Dec.one_pos
  have isPart : Dec.quo (shares * bonded) total = bondedPart shares bonded total := rfl
  have isLeft : Dec.quo (shares * (bonded - burned)) total
      = bondedPart shares (bonded - burned) total := rfl
  have isImpact : roundHalfEven (bondedPart shares bonded total * effectiveFraction burned bonded)
      Dec.one = Dec.mul (bondedPart shares bonded total) (effectiveFraction burned bonded) := rfl
  rw [isPart] at before
  rw [isLeft] at after
  rw [isImpact] at impact
  generalize bondedPart shares bonded total = part at *
  generalize bondedPart shares (bonded - burned) total = left at *
  generalize Dec.mul part (effectiveFraction burned bonded) = lost at *
  generalize effectiveFraction burned bonded = rate at *
  have one : (0 : Int) < Dec.one := Dec.one_pos
  generalize Dec.one = unit at *
  -- the loss, in units of the bonded tokens
  have lostLow : 2 * part * burned - bonded ≤ 2 * lost * bonded := by
    have scaled : part * (burned * unit) ≤ part * (rate * bonded) :=
      mul_le_mul_of_nonneg_left fraction partNonneg
    have rounded : (-unit) * bonded ≤ 2 * (lost * unit - part * rate) * bonded :=
      mul_le_mul_of_nonneg_right impact bondedPos.le
    apply le_of_mul_le_mul_right _ one
    linarith
  -- what is left, in units of the bonded tokens
  have leftLow : (bonded - burned) * (2 * part - 1) < 2 * (left + 1) * bonded := by
    have scaled : (bonded - burned) * (2 * (part * total - shares * bonded * unit))
        ≤ (bonded - burned) * total := mul_le_mul_of_nonneg_left before (by omega)
    have rounded : shares * (bonded - burned) * unit * bonded < (left + 1) * total * bonded :=
      mul_lt_mul_of_pos_right after bondedPos
    apply lt_of_mul_lt_mul_right _ totalPos.le
    linarith
  by_contra below
  have far : left ≤ part - lost - 2 := by omega
  have scaled : left * bonded ≤ (part - lost - 2) * bonded :=
    mul_le_mul_of_nonneg_right far bondedPos.le
  linarith

theorem loss_nonneg : 0 ≤ Dec.mul (bondedPart shares bonded total)
    (effectiveFraction burned bonded) := by
  have bondedPos : 0 < bonded := by omega
  have fractionNonneg : 0 ≤ effectiveFraction burned bonded := by
    have exact_ := le_effectiveFraction positive available
    have := mul_pos positive Dec.one_pos
    by_contra negative
    have := mul_nonpos_of_nonpos_of_nonneg (not_le.mp negative).le bondedPos.le
    omega
  exact roundHalfEven_nonneg Dec.one_pos
    (mul_nonneg (bondedPart_nonneg sharesNonneg totalPos bondedPos.le) fractionNonneg)

/-- The amount left is at most one token below the projected one. -/
theorem truncated_slashed :
    Dec.truncateInt (bondedPart shares bonded total)
        - Dec.truncateInt
            (Dec.mul (bondedPart shares bonded total) (effectiveFraction burned bonded)) - 1
      ≤ Dec.truncateInt (bondedPart shares (bonded - burned) total) := by
  have near := bondedPart_slashed sharesNonneg totalPos positive available
  have partNonneg := @bondedPart_nonneg shares bonded total sharesNonneg totalPos (by omega)
  have leftNonneg := @bondedPart_nonneg shares (bonded - burned) total sharesNonneg totalPos
    (by omega)
  have lostNonneg := loss_nonneg sharesNonneg totalPos positive available
  have partLow := tdiv_mul_le Dec.one_pos partNonneg
  have lostHigh := lt_tdiv_add_one_mul Dec.one_pos lostNonneg
  unfold Dec.truncateInt
  rw [le_tdiv_iff Dec.one_pos leftNonneg, sub_mul, sub_mul, one_mul]
  rw [add_mul, one_mul] at lostHigh
  omega

end Part

/-! ## Projection -/

section Slash

variable {s s' : StakingState} {g : GovState} {v : Validator} {burned : Int}

/-- The bonded tokens behind a delegation to the validator, as a decimal. -/
def worth (v : Validator) (d : Delegation) : Int :=
  bondedPart d.shares v.bondedTokens v.delegatorShares

/-- The part of them that the fraction of a slash stands for. -/
def loss (v : Validator) (burned : Int) (d : Delegation) : Int :=
  Dec.mul (worth v d) (effectiveFraction burned v.tokens)

/-- Tokens that an account has above the minimum self-delegation. -/
def surplus (s : StakingState) (g : GovState) (addr : Address) : Int :=
  bondedTokensOf s addr - g.params.minGovernorSelfDelegation

/-- The whole tokens of the loss are just those an account can spare, but the burn takes one
more: less is left of its delegation than its whole tokens without the ones to spare. -/
structure Stranded (s : StakingState) (g : GovState) (v : Validator) (burned : Int)
    (addr : Address) (d : Delegation) : Prop where
  delegates : s.delegations.get? ⟨addr, v.operatorAddress⟩ = some d
  spared : surplus s g addr * Dec.one ≤ loss v burned d
  notMore : loss v burned d < (surplus s g addr + 1) * Dec.one
  short : worth { v with tokens := v.tokens - burned } d
    < (Dec.truncateInt (worth v d) - surplus s g addr) * Dec.one

/-- The staking state after the burn, as far as governors see it. -/
structure Burned (s s' : StakingState) (v : Validator) (burned : Int) : Prop where
  delegations : s'.delegations = s.delegations
  validators : s'.validators
    = s.validators.set v.operatorAddress { v with tokens := v.tokens - burned }

def bondedTerm (vals : Store Address Validator) (d : Delegation) : Int :=
  ((vals.get? d.validatorAddress).map fun v =>
    Dec.truncateInt (worth v d)).getD 0

theorem bondedTokensOf_eq (s : StakingState) (addr : Address) :
    bondedTokensOf s addr
      = s.delegations.sum fun key d => if key.fst = addr then bondedTerm s.validators d else 0 :=
  sum_delegationsOf s addr (bondedTerm s.validators)

variable (ok : SharesSettled s)
  (stored : s.validators.get? v.operatorAddress = some v)
  (slashed : Burned s s' v burned)

include slashed

/-- The terms of other validators are the same before and after. -/
theorem Burned.bondedTerm_eq {d : Delegation} (apart : d.validatorAddress ≠ v.operatorAddress) :
    bondedTerm s'.validators d = bondedTerm s.validators d := by
  rw [bondedTerm, bondedTerm, slashed.validators, get?_set_of_ne apart]

include ok

/-- An account that does not delegate to the validator keeps its bonded tokens. -/
theorem Burned.bondedTokensOf_elsewhere {addr : Address}
    (elsewhere : s.delegations.get? ⟨addr, v.operatorAddress⟩ = none) :
    bondedTokensOf s' addr = bondedTokensOf s addr := by
  rw [bondedTokensOf_eq, bondedTokensOf_eq, slashed.delegations]
  apply sum_congr
  intro key d isStored
  by_cases here : key.fst = addr
  · have apart : d.validatorAddress ≠ v.operatorAddress := by
      rw [(ok.delegationKey isStored).2]
      intro same
      rw [← here, ← same] at elsewhere
      rw [elsewhere] at isStored
      cases isStored
    rw [slashed.bondedTerm_eq apart]
  · rw [if_neg here, if_neg here]

include stored

theorem Burned.sharesOK (available : burned ≤ v.tokens) (positive : 0 < burned) :
    SharesSettled s' := by
  have covered := ok.covered stored
  have written := @SharesOK.setValidator _ _ _ ok v.operatorAddress v
    { v with tokens := v.tokens - burned } stored rfl (by dsimp only; omega) (by dsimp only; omega)
  rw [sub_self, shift_zero] at written
  show SharesOK (fun _ => 0) s'.validators s'.delegations
  rw [slashed.validators, slashed.delegations]
  exact written

/-- What an account that delegates to the validator has left. -/
theorem Burned.bondedTokensOf_left {addr : Address} {d : Delegation}
    (delegated : s.delegations.get? ⟨addr, v.operatorAddress⟩ = some d) :
    bondedTokensOf s' addr = bondedTokensOf s addr - Dec.truncateInt (worth v d)
      + Dec.truncateInt (worth { v with tokens := v.tokens - burned } d) := by
  obtain ⟨_, isValidator⟩ := ok.delegationKey delegated
  have isTerm : ∀ vals : Store Address Validator, (s.delegations.termAt
      (fun key d => if key.fst = addr then bondedTerm vals d else 0) ⟨addr, v.operatorAddress⟩)
        = bondedTerm vals d := by
    intro vals
    rw [termAt_of_some delegated, if_pos rfl]
  have others : (s.delegations.delete ⟨addr, v.operatorAddress⟩).sum
        (fun key d => if key.fst = addr then bondedTerm s'.validators d else 0)
      = (s.delegations.delete ⟨addr, v.operatorAddress⟩).sum
        (fun key d => if key.fst = addr then bondedTerm s.validators d else 0) := by
    apply sum_congr
    intro key other isStored
    obtain ⟨differs, isStored⟩ := get?_delete_some isStored
    by_cases here : key.fst = addr
    · have apart : other.validatorAddress ≠ v.operatorAddress := by
        rw [(ok.delegationKey isStored).2]
        intro same
        apply differs
        rw [← here, ← same]
      rw [slashed.bondedTerm_eq apart]
    · rw [if_neg here, if_neg here]
  have termBefore : bondedTerm s.validators d = Dec.truncateInt (worth v d) := by
    rw [bondedTerm, isValidator, stored]
    rfl
  have termAfter : bondedTerm s'.validators d
      = Dec.truncateInt (worth { v with tokens := v.tokens - burned } d) := by
    rw [bondedTerm, isValidator, slashed.validators, get?_set_self]
    rfl
  have split : ∀ vals : Store Address Validator,
      s.delegations.sum (fun key d => if key.fst = addr then bondedTerm vals d else 0)
        = bondedTerm vals d + (s.delegations.delete ⟨addr, v.operatorAddress⟩).sum
            (fun key d => if key.fst = addr then bondedTerm vals d else 0) := by
    intro vals
    rw [sum_eq_termAt_add _ _ ⟨addr, v.operatorAddress⟩, isTerm]
  rw [bondedTokensOf_eq, bondedTokensOf_eq, slashed.delegations, split, split, others, termBefore,
    termAfter]
  omega

omit slashed

/-- The burn takes at most one whole token more than the whole tokens of the loss. -/
theorem worth_slashed (positive : 0 < burned) (available : burned ≤ v.tokens) {d : Delegation}
    {addr : Address} (delegated : s.delegations.get? ⟨addr, v.operatorAddress⟩ = some d) :
    0 ≤ worth { v with tokens := v.tokens - burned } d ∧ 0 ≤ loss v burned d
      ∧ Dec.truncateInt (worth v d) - Dec.truncateInt (loss v burned d) - 1
        ≤ Dec.truncateInt (worth { v with tokens := v.tokens - burned } d) := by
  have sharesPos := ok.positive delegated
  have covered := ok.covered stored
  have totalPos : 0 < v.delegatorShares := by omega
  by_cases bonded : v.isBonded = true
  · have isBonded : v.bondedTokens = v.tokens := if_pos bonded
    have leftBonded : { v with tokens := v.tokens - burned }.bondedTokens
        = v.tokens - burned := if_pos bonded
    rw [worth, loss, worth, isBonded, leftBonded]
    refine ⟨bondedPart_nonneg sharesPos.le totalPos (by omega), ?_,
      truncated_slashed sharesPos.le totalPos positive available⟩
    exact loss_nonneg sharesPos.le totalPos positive available
  · -- a validator that is not bonded has no bonded tokens to lose
    have noneBonded : v.bondedTokens = 0 := if_neg bonded
    have noneLeft : { v with tokens := v.tokens - burned }.bondedTokens = 0 := if_neg bonded
    have zero : bondedPart d.shares 0 v.delegatorShares = 0 := by
      apply le_antisymm
      · exact Dec.quo_le (by simp [Dec.mulInt]) totalPos (by simp [Dec.mulInt])
      · exact bondedPart_nonneg sharesPos.le totalPos (le_refl 0)
    have nothing : Dec.mul 0 (effectiveFraction burned v.tokens) = 0 := by
      unfold Dec.mul
      rw [zero_mul]
      rfl
    rw [worth, loss, worth, noneBonded, noneLeft, zero, nothing]
    decide

/-- An account that the hook does not count below the minimum is below it after the burn
exactly if it is stranded. -/
theorem stranded_iff (positive : 0 < burned) (available : burned ≤ v.tokens) {d : Delegation}
    {addr : Address} (delegated : s.delegations.get? ⟨addr, v.operatorAddress⟩ = some d) :
    Stranded s g v burned addr d ↔ Dec.truncateInt (loss v burned d) ≤ surplus s g addr
      ∧ Dec.truncateInt (worth { v with tokens := v.tokens - burned } d)
        < Dec.truncateInt (worth v d) - surplus s g addr := by
  obtain ⟨leftNonneg, lossNonneg, near⟩ := worth_slashed ok stored positive available delegated
  have lossReaches : ∀ bound, bound ≤ Dec.truncateInt (loss v burned d)
      ↔ bound * Dec.one ≤ loss v burned d := fun _ => le_tdiv_iff Dec.one_pos lossNonneg
  have leftReaches : ∀ bound,
      bound ≤ Dec.truncateInt (worth { v with tokens := v.tokens - burned } d)
        ↔ bound * Dec.one ≤ worth { v with tokens := v.tokens - burned } d :=
    fun _ => le_tdiv_iff Dec.one_pos leftNonneg
  constructor
  · rintro ⟨_, _, notMore, short⟩
    rw [← not_le, ← lossReaches] at notMore
    rw [← not_le, ← leftReaches] at short
    omega
  · rintro ⟨spared, short⟩
    have all : surplus s g addr = Dec.truncateInt (loss v burned d) := by omega
    refine ⟨delegated, (lossReaches _).mp all.le, ?_, ?_⟩
    · rw [← not_le, ← lossReaches]
      omega
    · rw [← not_le, ← leftReaches]
      omega

end Slash

/-! ## The hook -/

section Hook

variable {s : StakingState} {g : GovState} {v : Validator} {burned : Int}

/-- The hook's check compares the whole tokens of the loss with those to spare. -/
theorem belowMinimumAfterSlash_value (ok : SharesSettled s) {governor : Governor} {d : Delegation}
    (active : governor.isActive = true)
    (self : g.governorOf governor.governorAddress = some governor.governorAddress)
    (delegated : s.delegations.get? ⟨governor.governorAddress, v.operatorAddress⟩ = some d) :
    Post (belowMinimumAfterSlash s v.operatorAddress v (effectiveFraction burned v.tokens)
        governor) g
      (fun below g' => g' = g ∧ (below = true ↔ surplus s g governor.governorAddress
        < Dec.truncateInt (loss v burned d)))
      (fun _ _ => False) := by
  rw [belowMinimumAfterSlash, delegated, post_bind, post_getOrCrash]
  refine ⟨?_, fun absent => by cases absent⟩
  intro _ isDelegation
  cases isDelegation
  rw [post_bind]
  apply (getGovernorBondedTokens_value ok governor.governorAddress).imp
  rintro tokens mid ⟨sameMid, isTokens⟩
  rw [sameMid, isTokens, post_bind, validateGovernorMinSelfDelegationWithTotalBonded, post_bind,
    post_get, if_neg (by simp [active]), post_bind, post_crashIf]
  refine ⟨fun wrong => absurd self wrong, fun _ => ⟨rfl, ?_⟩⟩
  rw [Bool.not_eq_true', decide_eq_false_iff_not, not_le]
  show _ - Dec.truncateInt (loss v burned d) < _ ↔ _
  unfold surplus
  omega

theorem setGovernorsInactive_value (governors : List Governor) :
    ∀ {g : GovState}, Post (forEach (setGovernorInactive s) governors) g
      (fun _ g' => g'.params = g.params ∧ ∀ addr, isActiveGovernor g' addr = true
        ↔ isActiveGovernor g addr = true ∧ ∀ other ∈ governors, other.governorAddress ≠ addr)
      (fun _ _ => False) := by
  induction governors with
  | nil =>
    intro g
    exact ⟨rfl, by simp⟩
  | cons first rest later =>
    intro g
    rw [forEach, post_bind, setGovernorInactive, post_bind, post_modify,
      post_removeActiveGovernorIndexEntries]
    apply later.imp
    rintro _ g' ⟨sameParams, kept⟩
    refine ⟨sameParams, ?_⟩
    intro addr
    rw [kept addr, List.forall_mem_cons, ← and_assoc]
    apply and_congr_left'
    by_cases here : first.governorAddress = addr
    · simp [isActiveGovernor, GovState.setGovernor, ← here, Governor.isActive]
    · simp [isActiveGovernor, GovState.setGovernor, here, get?_set_of_ne (Ne.symm here)]

/-- Behind the hook exactly those delegators of the validator are still active that can
spare the whole tokens of their loss. -/
theorem beforeValidatorSlashed_value (ok : SharesSettled s) (idle : GovSettled s g)
    (stored : s.validators.get? v.operatorAddress = some v) :
    Post (beforeValidatorSlashed s v.operatorAddress (effectiveFraction burned v.tokens)) g
      (fun _ g' => g'.params = g.params ∧ ∀ addr d, isActiveGovernor g addr = true →
        s.delegations.get? ⟨addr, v.operatorAddress⟩ = some d →
        (isActiveGovernor g' addr = true
          ↔ Dec.truncateInt (loss v burned d) ≤ surplus s g addr))
      (fun _ _ => False) := by
  rw [beforeValidatorSlashed, stored]
  dsimp only
  rw [post_whenever]
  constructor
  · intro _
    rw [post_bind]
    apply Post.imp (@collectGovernorsForValidator_spec s g v.operatorAddress s.delegations idle _
      (fun governor below => ∀ d,
        s.delegations.get? ⟨governor.governorAddress, v.operatorAddress⟩ = some d →
        (below = true ↔ surplus s g governor.governorAddress
          < Dec.truncateInt (loss v burned d))) ?_)
    · rintro found mid ⟨sameMid, sound, complete⟩
      rw [sameMid]
      apply (setGovernorsInactive_value found).imp
      rintro _ g' ⟨sameParams, kept⟩
      refine ⟨sameParams, ?_⟩
      intro addr d active delegated
      rw [kept addr, ← not_lt]
      constructor
      · rintro ⟨_, apart⟩ below
        obtain ⟨governor, present, isActive⟩ := isActiveGovernor_iff.mp active
        have address := idle.registry.governorKey present
        rw [← address] at present delegated below
        rcases complete governor present isActive (by rw [delegated]; rfl) with isFound | against
        · exact apart governor isFound address
        · exact Bool.false_ne_true ((against d delegated).mpr below)
      · intro enough
        refine ⟨active, ?_⟩
        intro governor isFound address
        apply enough
        rw [← address] at delegated ⊢
        exact (sound governor isFound d delegated).mp rfl
    · intro governor present active staked
      obtain ⟨d, delegated⟩ := Option.isSome_iff_exists.mp staked
      apply (belowMinimumAfterSlash_value ok active (idle.self_of_active present active)
        delegated).imp
      rintro below mid ⟨sameMid, exact_⟩
      refine ⟨sameMid, ?_⟩
      intro other isOther
      rw [some_unique isOther delegated]
      exact exact_
  · intro noShares
    refine ⟨rfl, ?_⟩
    intro addr d _ delegated
    -- nobody delegates to a validator without shares
    obtain ⟨w, isValidator, hasShares⟩ := delegated_validator ok (fun _ => le_refl 0)
      ((mem_delegationsOf ok).mpr (by
        rw [(ok.delegationKey delegated).2]
        exact delegated))
    rw [(ok.delegationKey delegated).2] at isValidator
    rw [stored] at isValidator
    cases isValidator
    exact absurd hasShares noShares

end Hook

/-! ## Slashes -/

section System

variable {φ ρ : Type} (before after : Keepers φ ρ) (consAddress : PubKey → Address)
  (pubKeyTypes : Option (List KeyType))

/-- What is left of the state after a slash of a validator. -/
theorem slashValidatorTokens_value {s : StakingState} {g : GovState} {v : Validator}
    {burned : Int} (ok : SharesSettled s) (idle : GovSettled s g)
    (stored : s.validators.get? v.operatorAddress = some v) (positive : 0 < burned)
    (available : burned ≤ v.tokens) :
    Ensures (slashValidatorTokens (govKeepers consAddress pubKeyTypes) v burned) ⟨s, g⟩
      fun _ next => Burned s next.staking v burned ∧ next.ext.params = g.params
        ∧ ∀ addr d, isActiveGovernor g addr = true →
          s.delegations.get? ⟨addr, v.operatorAddress⟩ = some d →
          (isActiveGovernor next.ext addr = true
            ↔ Dec.truncateInt (loss v burned d) ≤ surplus s g addr) := by
  rw [slashValidatorTokens, Ensures, post_bind, post_whenever]
  refine ⟨fun _ => ?_, fun noTokens => absurd (positive.trans_le available) noTokens⟩
  rw [post_ignoreError, Staking.post_external]
  apply Post.mono (beforeValidatorSlashed_value ok idle stored)
  · rintro _ g' ⟨sameParams, kept⟩
    rw [post_bind]
    apply (Staking.removeValidatorTokens_spec positive.le available).imp
    rintro reduced world ⟨isReduced, isWorld⟩
    have slashed : Burned s world.staking v burned := by
      rw [isWorld, isReduced]
      exact ⟨rfl, rfl⟩
    have sameGov : world.ext = g' := by rw [isWorld]
    -- the burn only takes coins from a pool
    have burns : ∀ {bondedPool notBondedPool}, Burned s { world.staking with
        bondedPool := bondedPool, notBondedPool := notBondedPool } v burned :=
      ⟨slashed.delegations, slashed.validators⟩
    rw [← sameGov] at sameParams kept
    simp only [Staking.burnBondedTokens, Staking.subBondedPool, Staking.burnNotBondedTokens,
      Staking.subNotBondedPool, Staking.staking_rules, post_ite]
    exact ⟨fun _ => ⟨fun _ pool _ => ⟨burns, sameParams, kept⟩, fun zero => absurd positive zero⟩,
      fun _ => ⟨fun _ pool _ => ⟨burns, sameParams, kept⟩, fun zero => absurd positive zero⟩⟩
  · intro _ _ impossible
    exact impossible.elim

end System

/-- A run from the empty state, with modules that accept everything beside gov. -/
def sampleWorld (minGovernorSelfDelegation : Int) (ops : List Op) : World (Unit × GovState) :=
  worldAfter (Keepers.accepting PubKey.bytes) (Keepers.accepting PubKey.bytes) PubKey.bytes none
    Staking.sampleParams 1 0 () ⟨minGovernorSelfDelegation, 0⟩ ops

/-- A governor with ten tokens at a validator with three million of its own. -/
def smallGovernorOps : List Op :=
  Staking.sampleOps.map Op.staking
    ++ [.staking (.delegate ⟨[2], [1], ⟨[117], 10⟩⟩),
      .createGovernor ⟨[2], ⟨"governor", "", "", "", ""⟩⟩]

def ownGovernorOps : List Op :=
  Staking.sampleOps.map Op.staking ++ [.createGovernor ⟨[1], ⟨"governor", "", "", "", ""⟩⟩]

def ownValidator : Validator where
  operatorAddress := [1]
  consensusPubkey := ⟨.ed25519, [11]⟩
  jailed := false
  status := .bonded
  tokens := 3000000
  delegatorShares := Dec.ofInt 3000000
  description := ⟨"node", "", "", "", ""⟩
  unbondingHeight := 0
  unbondingTime := 0
  commission := ⟨⟨0, Dec.one, Dec.one⟩, 0⟩
  minSelfDelegation := 1
  unbondingOnHoldRefCount := 0
  unbondingIds := []

end AtomOneSdk.Gov
