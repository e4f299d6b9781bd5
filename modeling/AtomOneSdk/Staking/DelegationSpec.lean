import AtomOneSdk.Staking.StakeSpec

/-!
Contract: specifications of `Delegate` and `Unbond`.

Owns: for delegating and unbonding, that the staking invariant and every external
invariant meeting the hook contract survive, what is pending or owed afterwards,
which faults can stop them, and what they leave alone.

Does **not** own: the messages built on them.
-/

namespace AtomOneSdk.Staking

open Lib Lib.Action

/-! ## Tokens and shares -/

section Tokens

variable {φ σ : Type} {world : World σ} {v : Validator}

theorem addValidatorTokensAndShares_spec {amount : Int} {stops : Fault (Reason φ) → World σ → Prop}
    (covered : v.tokens ≤ v.delegatorShares) (valid : v.invalidExRate = false) :
    Post (addValidatorTokensAndShares v amount) world
      (fun added world' => v.addTokensFromDel amount = some added
        ∧ world' = { world with staking := world.staking.reindexed v added.1 })
      stops := by
  obtain ⟨issued, issues⟩ := @Validator.issuedShares_isSome v amount covered valid
  simp only [addValidatorTokensAndShares, staking_rules]
  refine ⟨fun added adds => ⟨adds, rfl⟩, fun undefined => ?_⟩
  simp [Validator.addTokensFromDel, issues] at undefined

theorem removeValidatorTokensAndShares_spec {shares : Int}
    {stops : Fault (Reason φ) → World σ → Prop} (nonneg : 0 ≤ v.tokens)
    (covered : v.tokens ≤ v.delegatorShares) (sharesPos : 0 < shares)
    (held : shares ≤ v.delegatorShares) :
    Post (removeValidatorTokensAndShares v shares) world
      (fun removed world' => removed = v.removeDelShares shares
        ∧ world' = { world with
            staking := (world.staking.reindexed v removed.1).note
              (.unbonded v.tokens v.delegatorShares shares removed.2) })
      stops := by
  obtain ⟨_, remainingNonneg, _⟩ := Validator.removeDelShares_covered nonneg covered sharesPos held
  simp only [removeValidatorTokensAndShares, staking_rules]
  refine ⟨fun empty => ?_, fun _ => ⟨fun negative => ?_, fun _ => rfl⟩⟩
  · omega
  · omega

theorem removeValidatorTokens_spec {tokens : Int} {stops : Fault (Reason φ) → World σ → Prop}
    (nonneg : 0 ≤ tokens) (available : tokens ≤ v.tokens) :
    Post (removeValidatorTokens v tokens) world
      (fun reduced world' => reduced = { v with tokens := v.tokens - tokens }
        ∧ world' = { world with staking := world.staking.reindexed v reduced })
      stops := by
  simp only [removeValidatorTokens, staking_rules]
  refine ⟨fun negative => ?_, fun _ => ⟨fun short => ?_, fun _ => rfl⟩⟩
  · omega
  · omega

end Tokens

/-! ## Frames of stake operations -/

/-- Besides the framed fields, other validators, unbonding delegations and
redelegations stay as they are. The validator keeps its status, or it is removed
while unbonded. -/
structure StakeFrame (s s' : StakingState) (addr : Address) : Prop extends Frame s s' where
  others : ∀ {other}, other ≠ addr → s'.validators.get? other = s.validators.get? other
  status : ∀ {v v'}, s.validators.get? addr = some v → s'.validators.get? addr = some v' →
    v'.status = v.status
  removed : ∀ {v}, s.validators.get? addr = some v → s'.validators.get? addr = none →
    v.status = .unbonded
  unbondings : s'.unbondingDelegations = s.unbondingDelegations
  redelegations : s'.redelegations = s.redelegations

namespace StakeFrame

variable {s s' s'' : StakingState} {addr : Address}

theorem trans (first : StakeFrame s s' addr) (second : StakeFrame s' s'' addr) :
    StakeFrame s s'' addr where
  toFrame := first.toFrame.trans second.toFrame
  others := fun apart => (second.others apart).trans (first.others apart)
  status := by
    intro v v'' stored stored''
    obtain ⟨v', stored', -, -⟩ := second.kept stored''
    exact (second.status stored' stored'').trans (first.status stored stored')
  removed := by
    intro v stored absent
    cases middle : s'.validators.get? addr with
    | none => exact first.removed stored middle
    | some v' =>
      rw [← first.status stored middle]
      exact second.removed middle absent
  unbondings := second.unbondings.trans first.unbondings
  redelegations := second.redelegations.trans first.redelegations

/-- Writes outside the validators, the unbonding delegations and the redelegations. -/
theorem of_frame (frame : Frame s s') (validators : s'.validators = s.validators)
    (unbondings : s'.unbondingDelegations = s.unbondingDelegations)
    (redelegations : s'.redelegations = s.redelegations) : StakeFrame s s' addr where
  toFrame := frame
  others := fun _ => by rw [validators]
  status := by
    intro v v' stored stored'
    rw [validators, stored] at stored'
    cases stored'
    rfl
  removed := by
    intro v stored absent
    rw [validators, stored] at absent
    cases absent
  unbondings := unbondings
  redelegations := redelegations

theorem of_sameButPools (same : SameButPools s s') : StakeFrame s s' addr := by
  have frame := same.frame
  obtain ⟨_, _, rfl⟩ := same
  exact of_frame frame rfl rfl rfl

/-- A write over the stored record that keeps its status. -/
theorem of_set {v v' : Validator} (frame : Frame s s') (stored : s.validators.get? addr = some v)
    (written : s'.validators = s.validators.set addr v') (sameStatus : v'.status = v.status)
    (unbondings : s'.unbondingDelegations = s.unbondingDelegations)
    (redelegations : s'.redelegations = s.redelegations) : StakeFrame s s' addr where
  toFrame := frame
  others := fun apart => by rw [written, Store.get?_set_of_ne apart]
  status := by
    intro w w' found found'
    rw [written, Store.get?_set_self] at found'
    rw [stored] at found
    cases found
    cases found'
    exact sameStatus
  removed := by
    intro w found absent
    rw [written, Store.get?_set_self] at absent
    cases absent
  unbondings := unbondings
  redelegations := redelegations

theorem reindexed {v v' : Validator} (stored : s.validators.get? addr = some v)
    (newKey : v'.operatorAddress = addr) (samePubkey : v'.consensusPubkey = v.consensusPubkey)
    (sameStatus : v'.status = v.status) : StakeFrame s (s.reindexed v v') addr := by
  have frame := Frame.reindexed stored newKey samePubkey sameStatus
  subst newKey
  exact of_set frame stored rfl sameStatus rfl rfl

theorem of_note {note : Note} : StakeFrame s (s.note note) addr :=
  of_frame (Frame.of_same rfl rfl) rfl rfl rfl

theorem of_delegations {dels : Store (Pair Address Address) Delegation} :
    StakeFrame s { s with delegations := dels } addr :=
  of_frame (Frame.of_same rfl rfl) rfl rfl rfl

end StakeFrame

/-! ## Removal of a validator -/

section Specs

variable {φ σ : Type} {K : Keepers φ σ} {P : Phases σ} {allowed : Fault φ → Prop}
  {tracked : Prop} {owed : Bool → Int} {world : World σ} {own : Fault (Reason φ) → Prop}

theorem removeValidator_spec (contract : HookContract K P allowed) {addr : Address}
    {v : Validator} (inv : Inv K.consAddress tracked (fun _ => 0) owed world.staking)
    (idle : P.idle world.staking world.ext) (stored : world.staking.validators.get? addr = some v)
    (noShares : v.delegatorShares = 0) (isUnbonded : v.status = .unbonded) :
    Post (removeValidator K addr) world
      (fun _ world' => Inv K.consAddress tracked (fun _ => 0) owed world'.staking
        ∧ P.idle world'.staking world'.ext ∧ StakeFrame world.staking world'.staking addr
        ∧ world'.staking.validators.get? addr = none)
      (StopsIn own tracked allowed) := by
  have noTokens : v.tokens = 0 := by
    have nonneg := inv.shares.tokensNonneg stored
    have covered := inv.shares.covered stored
    omega
  simp only [removeValidator, staking_rules, stored]
  refine ⟨fun other => ?_, fun _ => ⟨fun some => ?_, fun _ => ?_⟩⟩
  · simp [Validator.isUnbonded, isUnbonded] at other
  · omega
  have invAfter := inv.deleteValidator stored isUnbonded noShares rfl
  have stakeBefore : stakeAt world.staking addr = some (0, 0) := by
    simp [stakeAt, stored, noShares, noTokens]
  have sameKey := inv.shares.validatorKey stored
  have keeps : Post (K.afterValidatorRemoved
        (world.staking.deleteValidator addr (K.consAddress v.consensusPubkey) v)
        (K.consAddress v.consensusPubkey) addr) world.ext _ _ :=
    contract.removed inv.shares invAfter.shares stakeBefore
      ⟨stakeAt_deleteValidator, rfl, rfl, rfl⟩ idle
  have frame : StakeFrame world.staking
      (world.staking.deleteValidator addr (K.consAddress v.consensusPubkey) v) addr :=
    { toFrame := Frame.deleteValidator stored isUnbonded
      others := fun apart => Store.get?_delete_of_ne apart
      status := by
        intro w w' _ found
        exact absurd rfl (Store.get?_delete_some found).1
      removed := by
        intro w found _
        rw [stored] at found
        cases found
        exact isUnbonded
      unbondings := rfl
      redelegations := rfl }
  simp only [post_recover, post_external, post_modifyStaking]
  rw [sameKey]
  have gone : (world.staking.deleteValidator addr (K.consAddress v.consensusPubkey)
      v).validators.get? addr = none := Store.get?_delete_self
  refine keeps.mono (fun _ _ idle' => ⟨invAfter, idle', frame, gone⟩) ?_
  rintro (reason | reason) _ ⟨fine, idle'⟩
  · exact ⟨{ invAfter with }, idle', frame.trans StakeFrame.of_note, gone⟩
  · exact fine

/-! ## Delegate -/

/-- Shares a delegator holds in a validator, zero without a delegation. -/
def sharesOf (s : StakingState) (delAddr valAddr : Address) : Int :=
  ((s.delegations.get? ⟨delAddr, valAddr⟩).map Delegation.shares).getD 0

variable {delAddr valAddr : Address} {tokenSrc : BondStatus} {subtractAccount : Bool}
  {pending : Address → Int}

theorem openDelegation_spec (contract : HookContract K P allowed) {v : Validator}
    (inv : Inv K.consAddress tracked (fun _ => 0) owed world.staking)
    (idle : P.idle world.staking world.ext)
    (stored : world.staking.validators.get? valAddr = some v) :
    Post (openDelegation K delAddr valAddr) world
      (fun delegation world' => world'.staking = world.staking
        ∧ P.opened delAddr valAddr world.staking world'.ext
        ∧ delegation = ⟨delAddr, valAddr, sharesOf world.staking delAddr valAddr⟩)
      (StopsOK tracked allowed) := by
  simp only [openDelegation, staking_rules]
  cases found : world.staking.delegations.get? ⟨delAddr, valAddr⟩ with
  | some delegation =>
    simp only [post_rules]
    refine (external_spec (contract.sharesModified inv.shares found idle)).imp ?_
    rintro _ world' ⟨sameStaking, opened⟩
    refine ⟨sameStaking, opened, ?_⟩
    obtain ⟨delegator, validator⟩ := inv.shares.delegationKey found
    cases delegation
    simp only at delegator validator
    simp [sharesOf, found, delegator, validator]
  | none =>
    simp only [post_rules]
    have stake : stakeAt world.staking valAddr = some (v.tokens, v.delegatorShares) := by
      simp [stakeAt, stored]
    refine (external_spec (contract.delegationCreated inv.shares stake found idle)).imp ?_
    rintro _ world' ⟨sameStaking, opened⟩
    refine ⟨sameStaking, opened, ?_⟩
    simp [sharesOf, found]

/-- The pool a delegation is paid from owes its amount beforehand. -/
def spent (owed : Bool → Int) (tokenSrc : BondStatus) (amount : Int) (subtractAccount : Bool) :
    Bool → Int :=
  if subtractAccount then owed else shift owed (decide (tokenSrc = .bonded)) (-amount)

theorem fundDelegation_spec {amount : Int} {v : Validator} (contract : HookContract K P allowed)
    (inv : Inv K.consAddress tracked (fun _ => 0) owed world.staking)
    (opened : P.opened delAddr valAddr world.staking world.ext)
    (funded : tracked → subtractAccount = false →
      amount ≤ poolBalance world.staking (decide (tokenSrc = .bonded))) :
    Post (fundDelegation K delAddr amount tokenSrc v subtractAccount) world
      (fun _ world' => SameButPools world.staking world'.staking
        ∧ Inv K.consAddress tracked (fun _ => 0)
            (shift (spent owed tokenSrc amount subtractAccount) v.isBonded amount) world'.staking
        ∧ P.opened delAddr valAddr world'.staking world'.ext) (StopsOK tracked allowed) := by
  have safe := contract.transferOpened delAddr valAddr
  unfold fundDelegation spent
  cases subtractAccount with
  | true =>
    simp only [if_true, newCoinCheck, post_rules, FaultIn]
    intro _ _
    refine (external_spec (contract.delegateCoins opened)).imp ?_
    rintro _ middle ⟨sameStaking, openedMiddle⟩
    rw [← sameStaking] at inv openedMiddle ⊢
    rw [post_ite]
    refine ⟨fun bonded => ?_, fun notBonded => ?_⟩
    · simp only [addBondedPool, post_modifyStaking, bonded]
      exact ⟨⟨_, _, rfl⟩, { inv with toCore := inv.addedTo amount true },
        contract.opened_stable (s := middle.staking) ⟨rfl, rfl, rfl, rfl⟩ openedMiddle⟩
    · have isFalse : v.isBonded = false := by simpa using notBonded
      simp only [addNotBondedPool, post_modifyStaking, isFalse]
      exact ⟨⟨_, _, rfl⟩, { inv with toCore := inv.addedTo amount false },
        contract.opened_stable (s := middle.staking) ⟨rfl, rfl, rfl, rfl⟩ openedMiddle⟩
  | false =>
    -- tokens that are already in the right pool stay there
    have stays : decide (tokenSrc = .bonded) = v.isBonded →
        SameButPools world.staking world.staking
          ∧ Inv K.consAddress tracked (fun _ => 0)
              (shift (shift owed (decide (tokenSrc = .bonded)) (-amount)) v.isBonded amount)
              world.staking
          ∧ P.opened delAddr valAddr world.staking world.ext := by
      intro samePool
      refine ⟨SameButPools.refl _, ?_, opened⟩
      rw [samePool, shift_shift, neg_add_cancel, shift_zero]
      exact inv
    simp only [Bool.false_eq_true, if_false]
    by_cases fromBonded : tokenSrc = .bonded
    · simp only [fromBonded, if_true, post_whenever, decide_true] at funded stays ⊢
      refine ⟨fun notBonded => ?_, fun bonded => stays (by simpa using Eq.symm (not_not.mp bonded))⟩
      have isFalse : v.isBonded = false := by simpa using notBonded
      rw [isFalse]
      exact moveFrom_spec true safe inv opened fun tracks => funded tracks trivial
    · simp only [fromBonded, if_false, post_whenever, decide_false] at funded stays ⊢
      refine ⟨fun bonded => ?_, fun notBonded => stays (by simpa using notBonded)⟩
      rw [bonded]
      exact moveFrom_spec false safe inv opened fun tracks => funded tracks trivial

def Validator.deposited (v : Validator) (amount issued : Int) : Validator :=
  { v with tokens := v.tokens + amount, delegatorShares := v.delegatorShares + issued }

/-- The state after a deposit: the validator and the delegation have grown. -/
def StakingState.deposited (s : StakingState) (v : Validator) (delAddr : Address)
    (amount issued : Int) : StakingState :=
  (s.reindexed v (v.deposited amount issued)).setDelegation
    ⟨delAddr, v.operatorAddress, sharesOf s delAddr v.operatorAddress + issued⟩

theorem sharesOf_nonneg {s : StakingState} (shares : SharesIn pending s)
    (delAddr valAddr : Address) :
    0 ≤ sharesOf s delAddr valAddr := by
  unfold sharesOf
  cases found : s.delegations.get? ⟨delAddr, valAddr⟩ with
  | none => simp
  | some d =>
    have positive := shares.positive found
    simp only [Option.map_some, Option.getD_some]
    omega

theorem Inv.deposited {consAddress : PubKey → Address} {s : StakingState} {v : Validator}
    {amount issued : Int} (inv : Inv consAddress tracked (fun _ => 0) owed s)
    (delAddr : Address) (stored : s.validators.get? v.operatorAddress = some v)
    (positive : 0 < amount) (enough : amount ≤ issued) :
    Inv consAddress tracked (fun _ => 0) (shift owed v.isBonded (-amount))
      (s.deposited v delAddr amount issued) := by
  have nonneg := inv.shares.tokensNonneg stored
  have covered := inv.shares.covered stored
  have heldNonneg := sharesOf_nonneg inv.shares delAddr v.operatorAddress
  have grown := @Inv.reindexed _ _ _ _ _ v (v.deposited amount issued) _ inv stored rfl rfl rfl
    (by simp only [Validator.deposited]; omega) (by simp only [Validator.deposited]; omega)
  have written := grown.setDelegation
    (d := ⟨delAddr, v.operatorAddress, sharesOf s delAddr v.operatorAddress + issued⟩)
    (by simp only; omega) ⟨_, get?_reindexed_self rfl⟩
  have paid : v.tokens - (v.deposited amount issued).tokens = -amount := by
    simp only [Validator.deposited]
    omega
  have settled : (v.deposited amount issued).delegatorShares - v.delegatorShares
      + (sharesOf s delAddr v.operatorAddress
        - (sharesOf s delAddr v.operatorAddress + issued)) = 0 := by
    simp only [Validator.deposited]
    omega
  rw [paid] at written
  have pendingSettled := shift_shift (fun _ => 0) v.operatorAddress
    ((v.deposited amount issued).delegatorShares - v.delegatorShares)
    (sharesOf s delAddr v.operatorAddress - (sharesOf s delAddr v.operatorAddress + issued))
  rw [settled, shift_zero] at pendingSettled
  rw [← pendingSettled]
  exact written

theorem delegate_spec (contract : HookContract K P allowed) {amount : Int} {v : Validator}
    (inv : Inv K.consAddress tracked (fun _ => 0) owed world.staking)
    (idle : P.idle world.staking world.ext)
    (stored : world.staking.validators.get? v.operatorAddress = some v) (positive : 0 < amount)
    (funded : tracked → subtractAccount = false →
      amount ≤ poolBalance world.staking (decide (tokenSrc = .bonded))) :
    Post (delegate K delAddr amount tokenSrc v subtractAccount) world
      (fun issued world' => 0 < issued
        ∧ Inv K.consAddress tracked (fun _ => 0) (spent owed tokenSrc amount subtractAccount)
            world'.staking
        ∧ P.idle world'.staking world'.ext
        ∧ StakeFrame world.staking world'.staking v.operatorAddress) (StopsOK tracked allowed) := by
  have nonneg := inv.shares.tokensNonneg stored
  have covered := inv.shares.covered stored
  simp only [delegate, post_rules, FaultIn]
  intro validRate
  have valid : v.invalidExRate = false := by simpa using validRate
  refine (openDelegation_spec contract inv idle stored).imp ?_
  rintro delegation opening ⟨sameStaking, opened, rfl⟩
  rw [← sameStaking] at inv opened stored funded ⊢
  refine (fundDelegation_spec contract inv opened funded).imp ?_
  rintro _ funding ⟨samePools, invFunded, openedFunded⟩
  have storedFunded : funding.staking.validators.get? v.operatorAddress = some v := by
    obtain ⟨_, _, same⟩ := samePools
    rw [same]
    exact stored
  have sameShares : sharesOf opening.staking delAddr v.operatorAddress
      = sharesOf funding.staking delAddr v.operatorAddress := by
    obtain ⟨_, _, same⟩ := samePools
    rw [same]
    rfl
  refine (addValidatorTokensAndShares_spec covered valid).imp ?_
  rintro ⟨grown, issued⟩ added ⟨adds, rfl⟩
  obtain ⟨issued', issues, same⟩ := Option.map_eq_some_iff.mp adds
  simp only [Prod.mk.injEq] at same
  obtain ⟨rfl, rfl⟩ := same
  have issuedGe := Validator.le_issuedShares nonneg covered positive issues
  have issuedPos : 0 < issued' := lt_of_lt_of_le positive issuedGe
  have invAfter := invFunded.deposited delAddr storedFunded positive issuedGe
  rw [shift_shift, add_neg_cancel, shift_zero] at invAfter
  have changed : Changed funding.staking
      (funding.staking.deposited v delAddr amount issued') v.operatorAddress
      (some (v.tokens + amount, v.delegatorShares + issued')) _ :=
    ⟨stakeAt_reindexed rfl, rfl, rfl, rfl⟩
  have keeps := contract.grown invFunded.shares invAfter.shares storedFunded positive issues
    issuedPos changed openedFunded
  simp only [staking_rules]
  rw [sameShares]
  refine (external_spec keeps).imp ?_
  rintro _ world' ⟨sameStaking', idle'⟩
  rw [sameStaking']
  refine ⟨issuedPos, invAfter, idle', (StakeFrame.of_sameButPools samePools).trans ?_⟩
  exact (@StakeFrame.reindexed _ _ _ (v.deposited amount issued') storedFunded rfl rfl rfl).trans
    StakeFrame.of_delegations

/-! ## Unbond -/

/-- Same stake, key and status under the same address. -/
structure SameExceptJail (v v' : Validator) : Prop where
  operator : v'.operatorAddress = v.operatorAddress
  tokens : v'.tokens = v.tokens
  shares : v'.delegatorShares = v.delegatorShares
  pubkey : v'.consensusPubkey = v.consensusPubkey
  status : v'.status = v.status

theorem jailBelowMinimum_spec {delegation : Delegation} {v : Validator}
    {stops : Fault (Reason φ) → World σ → Prop}
    (inv : Inv K.consAddress tracked pending owed world.staking)
    (stored : world.staking.validators.get? v.operatorAddress = some v)
    (someShares : v.delegatorShares ≠ 0) :
    Post (jailBelowMinimum delegation v) world
      (fun v' world' => world'.ext = world.ext ∧ SameExceptJail v v'
        ∧ world'.staking.validators.get? v.operatorAddress = some v'
        ∧ Inv K.consAddress tracked pending owed world'.staking
        ∧ SameStake world.staking world'.staking
        ∧ StakeFrame world.staking world'.staking v.operatorAddress)
      stops := by
  have unchanged : SameExceptJail v v
      ∧ world.staking.validators.get? v.operatorAddress = some v
      ∧ Inv K.consAddress tracked pending owed world.staking
      ∧ SameStake world.staking world.staking
      ∧ StakeFrame world.staking world.staking v.operatorAddress :=
    ⟨⟨rfl, rfl, rfl, rfl, rfl⟩, stored, inv, SameStake.refl _,
      StakeFrame.of_sameButPools (SameButPools.refl _)⟩
  simp only [jailBelowMinimum, post_ite, post_rules]
  refine ⟨fun selfBond => ⟨fun none => absurd none someShares, fun _ =>
    ⟨fun below => ?_, fun _ => unchanged⟩⟩, fun _ => unchanged⟩
  simp only [jailValidator, mustGetValidator, staking_rules]
  refine ⟨fun jailed => absurd jailed selfBond.2, fun _ => ?_⟩
  have after : ((world.staking.setValidator { v with jailed := true }).deleteValidatorByPowerIndex
      { v with jailed := true }).validators.get? v.operatorAddress
        = some { v with jailed := true } := Store.get?_set_self
  refine ⟨fun found isFound => ?_, fun missing => ?_⟩
  · obtain rfl := some_unique after isFound
    refine ⟨⟨rfl, rfl, rfl, rfl, rfl⟩, isFound,
      inv.rejail stored (inv.index.jail stored rfl rfl rfl rfl), ?_, ?_⟩
    · exact ⟨stakeAt_setValidator_same stored rfl rfl rfl, rfl, rfl, rfl⟩
    · exact StakeFrame.of_set (Frame.of_set stored rfl rfl rfl rfl) stored
        rfl rfl rfl rfl
  · rw [after] at missing
    cases missing

theorem storeReducedDelegation_spec (contract : HookContract K P allowed) {shares : Int}
    {d : Delegation} (inv : Inv K.consAddress tracked (fun _ => 0) owed world.staking)
    (opened : P.opened delAddr valAddr world.staking world.ext)
    (found : world.staking.delegations.get? ⟨delAddr, valAddr⟩ = some d) (positive : 0 < shares)
    (enough : shares ≤ d.shares) :
    Post (storeReducedDelegation K { d with shares := d.shares - shares }) world
      (fun _ world' => P.reducing valAddr shares world'.staking world'.ext
        ∧ Inv K.consAddress tracked (shift (fun _ => 0) valAddr shares) owed world'.staking
        ∧ ∃ dels, world'.staking = { world.staking with delegations := dels })
      (StopsIn own tracked allowed) := by
  obtain ⟨delegator, validator⟩ := inv.shares.delegationKey found
  simp only at delegator validator
  simp only [storeReducedDelegation, post_ite, removeDelegation, staking_rules, delegator,
    validator]
  refine ⟨fun all => ?_, fun part => ?_⟩
  · have everything : d.shares = shares := by omega
    refine (external_spec (contract.delegationRemoved inv.shares found opened)).imp ?_
    rintro _ world' ⟨sameStaking, reducing⟩
    rw [sameStaking, ← everything]
    exact ⟨reducing _ ⟨rfl, rfl, rfl, rfl⟩, inv.deleteDelegation found, _, rfl⟩
  · have isPart : shares < d.shares := by omega
    have invAfter := inv.setDelegation (d := ⟨delAddr, valAddr, d.shares - shares⟩)
      (by simp only; omega) (inv.shares.home found)
    simp only [found, Option.map_some, Option.getD_some, sub_sub_cancel] at invAfter
    have keeps := contract.shrunk inv.shares invAfter.shares found positive isPart
      ⟨rfl, rfl, rfl, rfl⟩ opened
    refine (external_spec keeps).imp ?_
    rintro _ world' ⟨sameStaking, reducing⟩
    rw [sameStaking]
    exact ⟨reducing, invAfter, _, rfl⟩

/-- Tokens of the validator at an address, zero without one. -/
def tokensAt (s : StakingState) (addr : Address) : Int :=
  ((s.validators.get? addr).map Validator.tokens).getD 0

theorem unbond_spec (contract : HookContract K P allowed) {shares : Int} {v : Validator}
    (inv : Inv K.consAddress tracked (fun _ => 0) owed world.staking)
    (idle : P.idle world.staking world.ext)
    (stored : world.staking.validators.get? valAddr = some v) (positive : 0 < shares)
    (refused : (∀ d, world.staking.delegations.get? ⟨delAddr, valAddr⟩ = some d →
      d.shares < shares) → ∀ fault, own fault) :
    Post (unbond K delAddr valAddr shares) world
      (fun paid world' => (paid = v.issuedTokens shares
          ∧ tokensAt world'.staking valAddr = v.tokens - paid) ∧ 0 ≤ paid
        ∧ Inv K.consAddress tracked (fun _ => 0) (shift owed v.isBonded paid) world'.staking
        ∧ P.idle world'.staking world'.ext
        ∧ StakeFrame world.staking world'.staking valAddr) (StopsIn own tracked allowed) := by
  have sameKey := inv.shares.validatorKey stored
  subst sameKey
  simp only [unbond, getValidator, staking_rules]
  refine ⟨fun d found => ?_, fun missing => refused (fun d found => ?_) _⟩
  swap
  · rw [missing] at found
    cases found
  refine (external_spec (contract.sharesModified inv.shares found idle)).imp ?_
  rintro _ opening ⟨sameStaking, opened⟩
  rw [← sameStaking] at inv opened stored found refused ⊢
  simp only [stored]
  refine ⟨fun more => refused (fun d' found' => ?_) _,
    fun notMore => ⟨fun v' same => ?_, fun missing => by cases missing⟩⟩
  · rw [found] at found'
    cases found'
    exact more
  have enough : shares ≤ d.shares := by omega
  obtain rfl := Option.some.inj same
  have someShares : v.delegatorShares ≠ 0 := by
    have all := inv.shares.total stored
    have part := inv.shares.shares_le_delegatedTo found
    simp only at all part
    omega
  refine (jailBelowMinimum_spec inv stored someShares).imp ?_
  rintro w jailing ⟨sameExt, sameW, storedW, invJail, sameStake, frameJail⟩
  have openedJail := contract.opened_stable sameStake opened
  rw [← sameExt] at openedJail
  rw [← sameStake.delegations] at found
  refine (storeReducedDelegation_spec contract invJail openedJail found positive enough).imp ?_
  rintro _ storing ⟨reducing, invStored, dels, sameButDelegations⟩
  have storedAfter : storing.staking.validators.get? v.operatorAddress = some w := by
    rw [sameButDelegations]
    exact storedW
  have nonneg := invStored.shares.tokensNonneg storedAfter
  have covered := invStored.shares.covered storedAfter
  have held : shares ≤ w.delegatorShares := by
    have total := invStored.shares.total storedAfter
    have rest := invStored.shares.delegatedTo_nonneg v.operatorAddress
    rw [shift_self] at total
    omega
  obtain ⟨paidNonneg, tokensAfter, coveredAfter⟩ :=
    Validator.removeDelShares_covered nonneg covered positive held
  refine (removeValidatorTokensAndShares_spec nonneg covered positive held).imp ?_
  rintro _ removing ⟨rfl, rfl⟩
  -- shares and tokens leave the validator together
  have invReduced := @Inv.reindexed _ _ _ _ _ w (w.removeDelShares shares).1 _ invStored
    storedAfter sameW.operator rfl rfl tokensAfter coveredAfter
  have sharesLeft : (w.removeDelShares shares).1.delegatorShares - w.delegatorShares = -shares := by
    simp only [Validator.removeDelShares]
    omega
  have tokensPaid : w.tokens - (w.removeDelShares shares).1.tokens = w.issuedTokens shares := by
    simp only [Validator.removeDelShares]
    omega
  have sameBonded : w.isBonded = v.isBonded := by simp [Validator.isBonded, sameW.status]
  rw [sharesLeft, shift_shift, add_neg_cancel, shift_zero, tokensPaid, sameBonded] at invReduced
  have idleReduced := contract.reduced invStored.shares invReduced.shares storedAfter positive held
    ⟨stakeAt_reindexed sameW.operator, rfl, rfl, rfl⟩ reducing
  have frameReduced : StakeFrame storing.staking
      (storing.staking.reindexed w (w.removeDelShares shares).1) v.operatorAddress :=
    StakeFrame.reindexed storedAfter sameW.operator rfl rfl
  have frame : StakeFrame opening.staking
      ((storing.staking.reindexed w (w.removeDelShares shares).1).note
        (.unbonded w.tokens w.delegatorShares shares (w.issuedTokens shares)))
      v.operatorAddress := by
    refine frameJail.trans (StakeFrame.trans ?_ (frameReduced.trans StakeFrame.of_note))
    rw [sameButDelegations]
    exact StakeFrame.of_delegations
  have invNoted : Inv K.consAddress tracked (fun _ => 0)
      (shift owed v.isBonded (w.issuedTokens shares))
      ((storing.staking.reindexed w (w.removeDelShares shares).1).note
        (.unbonded w.tokens w.delegatorShares shares (w.issuedTokens shares))) :=
    { invReduced with }
  have samePaid : w.issuedTokens shares = v.issuedTokens shares := by
    simp only [Validator.issuedTokens, Validator.tokensFromShares, sameW.tokens, sameW.shares]
  have storedReduced : (storing.staking.reindexed w (w.removeDelShares shares).1).validators.get?
      v.operatorAddress = some (w.removeDelShares shares).1 := get?_reindexed_self sameW.operator
  refine ⟨fun empty => ?_, fun _ => ⟨⟨samePaid, ?_⟩, paidNonneg, invNoted, idleReduced, frame⟩⟩
  swap
  · have left : tokensAt (storing.staking.reindexed w (w.removeDelShares shares).1)
        v.operatorAddress = w.tokens - w.issuedTokens shares := by
      rw [tokensAt, storedReduced]
      rfl
    rw [← sameW.tokens]
    exact left
  rw [sameW.operator]
  have isUnbonded : (w.removeDelShares shares).1.status = .unbonded := by
    simpa [Validator.isUnbonded] using empty.2
  refine (removeValidator_spec contract invNoted idleReduced storedReduced empty.1
    isUnbonded).imp ?_
  rintro _ world' ⟨invRemoved, idleRemoved, frameRemoved, gone⟩
  refine ⟨⟨samePaid, ?_⟩, paidNonneg, invRemoved, idleRemoved, frame.trans frameRemoved⟩
  have noTokens : (w.removeDelShares shares).1.tokens = 0 := by omega
  rw [tokensAt, gone, ← sameW.tokens]
  exact noTokens.symm

end Specs

end AtomOneSdk.Staking
