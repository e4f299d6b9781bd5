import AtomOneSdk.Staking.ValStateChange

/-!
Contract: delegations, unbonding delegations and redelegations
(`keeper/delegation.go`).

Owns: `Delegate`, `Unbond`, `Undelegate`, `CompleteUnbonding`,
`BeginRedelegation`, `CompleteRedelegation` and the conversion of a requested
amount into shares, with the hooks in the order the keeper fires them.

Does **not** own: message checks and slashing.
-/

namespace AtomOneSdk.Staking

open Lib Lib.Action

namespace StakingState

def setDelegation (s : StakingState) (d : Delegation) : StakingState :=
  { s with delegations := s.delegations.set ⟨d.delegatorAddress, d.validatorAddress⟩ d }

def setUnbondingDelegation (s : StakingState) (ubd : UnbondingDelegation) : StakingState :=
  { s with
      unbondingDelegations :=
        s.unbondingDelegations.set ⟨ubd.delegatorAddress, ubd.validatorAddress⟩ ubd
      ubdByValIndex := s.ubdByValIndex.set ⟨ubd.validatorAddress, ubd.delegatorAddress⟩ () }

/-- Write an unbonding delegation back, or remove it when no entry is left. -/
def storeUnbondingDelegation (s : StakingState) (ubd : UnbondingDelegation) : StakingState :=
  { s with
      unbondingDelegations :=
        if ubd.entries = [] then
          s.unbondingDelegations.delete ⟨ubd.delegatorAddress, ubd.validatorAddress⟩
        else s.unbondingDelegations.set ⟨ubd.delegatorAddress, ubd.validatorAddress⟩ ubd
      ubdByValIndex :=
        if ubd.entries = [] then
          s.ubdByValIndex.delete ⟨ubd.validatorAddress, ubd.delegatorAddress⟩
        else s.ubdByValIndex.set ⟨ubd.validatorAddress, ubd.delegatorAddress⟩ () }

def setRedelegation (s : StakingState) (red : Redelegation) : StakingState :=
  { s with
      redelegations :=
        s.redelegations.set
          ⟨red.delegatorAddress, ⟨red.validatorSrcAddress, red.validatorDstAddress⟩⟩ red
      redByValSrcIndex :=
        s.redByValSrcIndex.set
          ⟨red.validatorSrcAddress, ⟨red.delegatorAddress, red.validatorDstAddress⟩⟩ ()
      redByValDstIndex :=
        s.redByValDstIndex.set
          ⟨red.validatorDstAddress, ⟨red.delegatorAddress, red.validatorSrcAddress⟩⟩ () }

/-- Write a redelegation back, or remove it when no entry is left. -/
def storeRedelegation (s : StakingState) (red : Redelegation) : StakingState :=
  { s with
      redelegations :=
        if red.entries = [] then
          s.redelegations.delete
            ⟨red.delegatorAddress, ⟨red.validatorSrcAddress, red.validatorDstAddress⟩⟩
        else
          s.redelegations.set
            ⟨red.delegatorAddress, ⟨red.validatorSrcAddress, red.validatorDstAddress⟩⟩ red
      redByValSrcIndex :=
        if red.entries = [] then
          s.redByValSrcIndex.delete
            ⟨red.validatorSrcAddress, ⟨red.delegatorAddress, red.validatorDstAddress⟩⟩
        else
          s.redByValSrcIndex.set
            ⟨red.validatorSrcAddress, ⟨red.delegatorAddress, red.validatorDstAddress⟩⟩ ()
      redByValDstIndex :=
        if red.entries = [] then
          s.redByValDstIndex.delete
            ⟨red.validatorDstAddress, ⟨red.delegatorAddress, red.validatorSrcAddress⟩⟩
        else
          s.redByValDstIndex.set
            ⟨red.validatorDstAddress, ⟨red.delegatorAddress, red.validatorSrcAddress⟩⟩ () }

def insertUBDQueue (s : StakingState) (ubd : UnbondingDelegation) (completionTime : Time) :
    StakingState :=
  { s with
      ubdQueue := s.ubdQueue.set completionTime
        ((s.ubdQueue.get? completionTime).getD []
          ++ [(ubd.delegatorAddress, ubd.validatorAddress)]) }

def insertRedelegationQueue (s : StakingState) (red : Redelegation) (completionTime : Time) :
    StakingState :=
  { s with
      redelegationQueue := s.redelegationQueue.set completionTime
        ((s.redelegationQueue.get? completionTime).getD []
          ++ [(red.delegatorAddress, red.validatorSrcAddress, red.validatorDstAddress)]) }

/-- The unbonding delegation with one more entry, and whether the entry is new. -/
def addUnbondingEntry (s : StakingState) (delAddr valAddr : Address) (creationHeight : Int)
    (minTime : Time) (balance : Int) (id : Nat) : UnbondingDelegation × Bool :=
  match s.unbondingDelegations.get? ⟨delAddr, valAddr⟩ with
  | some ubd => ubd.addEntry creationHeight minTime balance id
  | none =>
    (⟨delAddr, valAddr, [newUnbondingDelegationEntry creationHeight minTime balance id]⟩, true)

def addRedelegationEntry (s : StakingState) (delAddr valSrcAddr valDstAddr : Address)
    (creationHeight : Int) (minTime : Time) (balance sharesDst : Int) (id : Nat) : Redelegation :=
  match s.redelegations.get? ⟨delAddr, ⟨valSrcAddr, valDstAddr⟩⟩ with
  | some red => red.addEntry creationHeight minTime balance sharesDst id
  | none =>
    ⟨delAddr, valSrcAddr, valDstAddr,
      [newRedelegationEntry creationHeight minTime balance sharesDst id]⟩

/-- Unbonding delegations from a validator, through the validator index. -/
def getUnbondingDelegationsFromValidator (s : StakingState) (valAddr : Address) :
    List UnbondingDelegation :=
  (s.ubdByValIndex.keys.filter fun key => key.fst = valAddr).filterMap fun key =>
    s.unbondingDelegations.get? ⟨key.snd, key.fst⟩

/-- Redelegations away from a validator, through the source index. -/
def getRedelegationsFromSrcValidator (s : StakingState) (valAddr : Address) : List Redelegation :=
  (s.redByValSrcIndex.keys.filter fun key => key.fst = valAddr).filterMap fun key =>
    s.redelegations.get? ⟨key.snd.fst, ⟨key.fst, key.snd.snd⟩⟩

def hasReceivingRedelegation (s : StakingState) (delAddr valDstAddr : Address) : Bool :=
  s.redByValDstIndex.keys.any fun key => key.fst = valDstAddr ∧ key.snd.fst = delAddr

def hasMaxUnbondingDelegationEntries (s : StakingState) (delAddr valAddr : Address) : Bool :=
  match s.unbondingDelegations.get? ⟨delAddr, valAddr⟩ with
  | some ubd => s.params.maxEntries ≤ ubd.entries.length
  | none => s.params.maxEntries ≤ 0

def hasMaxRedelegationEntries (s : StakingState) (delAddr valSrcAddr valDstAddr : Address) : Bool :=
  match s.redelegations.get? ⟨delAddr, ⟨valSrcAddr, valDstAddr⟩⟩ with
  | some red => s.params.maxEntries ≤ red.entries.length
  | none => false

end StakingState

section Keeper

variable {φ σ : Type} (K : Keepers φ σ)

/-! ## Delegate -/

/-- The delegation to add to, after the hook that announces the change. -/
def openDelegation (delAddr valAddr : Address) : StakingM φ σ Delegation := do
  let s ← stakingState
  match s.delegations.get? ⟨delAddr, valAddr⟩ with
  | some delegation => do
    external fun s => K.beforeDelegationSharesModified s delAddr valAddr
    pure delegation
  | none => do
    external fun s => K.beforeDelegationCreated s delAddr valAddr
    pure ⟨delAddr, valAddr, 0⟩

/-- Move the delegated tokens into the pool of the validator's status: from the
delegator's account, or from the pool of `tokenSrc`. -/
def fundDelegation (delAddr : Address) (bondAmt : Int) (tokenSrc : BondStatus)
    (validator : Validator) (subtractAccount : Bool) : StakingM φ σ Unit :=
  if subtractAccount then do
    crashIf (tokenSrc = .bonded) (.message "delegation token source cannot be bonded")
    newCoinCheck bondAmt
    external fun s => K.delegateCoins s delAddr ⟨s.params.bondDenom, bondAmt⟩
    (if validator.isBonded then addBondedPool bondAmt else addNotBondedPool bondAmt)
  else if tokenSrc = .bonded then
    whenever (¬ validator.isBonded) (bondedTokensToNotBonded K bondAmt)
  else
    whenever validator.isBonded (notBondedTokensToBonded K bondAmt)

def delegate (delAddr : Address) (bondAmt : Int) (tokenSrc : BondStatus) (validator : Validator)
    (subtractAccount : Bool) : StakingM φ σ Int := do
  failIf validator.invalidExRate .delegatorShareExRateInvalid
  let delegation ← openDelegation K delAddr validator.operatorAddress
  fundDelegation K delAddr bondAmt tokenSrc validator subtractAccount
  let added ← addValidatorTokensAndShares validator bondAmt
  modifyStaking (·.setDelegation { delegation with shares := delegation.shares + added.2 })
  external fun s => K.afterDelegationModified s delAddr validator.operatorAddress
  pure added.2

/-! ## Unbond -/

def removeDelegation (delegation : Delegation) : StakingM φ σ Unit := do
  external fun s =>
    K.beforeDelegationRemoved s delegation.delegatorAddress delegation.validatorAddress
  modifyStaking fun s =>
    { s with
        delegations :=
          s.delegations.delete ⟨delegation.delegatorAddress, delegation.validatorAddress⟩ }

/-- An operator whose remaining self-delegation falls below its minimum is jailed. -/
def jailBelowMinimum (delegation : Delegation) (validator : Validator) :
    StakingM φ σ Validator := do
  let isValidatorOperator := delegation.delegatorAddress = validator.operatorAddress
  (if isValidatorOperator ∧ ¬ validator.jailed then do
    crashIf (validator.delegatorShares = 0) .divisionByZero
    (if Dec.truncateInt (validator.tokensFromShares delegation.shares)
        < validator.minSelfDelegation then do
      jailValidator validator
      mustGetValidator validator.operatorAddress
    else pure validator)
  else pure validator)

/-- Write the reduced delegation, or remove it, with the matching hook. -/
def storeReducedDelegation (delegation : Delegation) : StakingM φ σ Unit :=
  if delegation.shares = 0 then removeDelegation K delegation
  else do
    modifyStaking (·.setDelegation delegation)
    external fun s =>
      K.afterDelegationModified s delegation.delegatorAddress delegation.validatorAddress

def unbond (delAddr valAddr : Address) (shares : Int) : StakingM φ σ Int := do
  let s ← stakingState
  let delegation ← getOrFail (s.delegations.get? ⟨delAddr, valAddr⟩) .noDelegatorForAddress
  external fun s => K.beforeDelegationSharesModified s delAddr valAddr
  failIf (delegation.shares < shares) .notEnoughDelegationShares
  let found ← getValidator valAddr
  let reduced := { delegation with shares := delegation.shares - shares }
  let validator ← jailBelowMinimum reduced found
  storeReducedDelegation K reduced
  let removed ← removeValidatorTokensAndShares validator shares
  whenever (removed.1.delegatorShares = 0 ∧ removed.1.isUnbonded)
    (removeValidator K validator.operatorAddress)
  pure removed.2

/-! ## Undelegate -/

/-- Add an entry to the unbonding delegation, creating it if needed; only a new
entry is announced, and a failing hook is only logged. -/
def setUnbondingDelegationEntry (delAddr valAddr : Address) (creationHeight : Int)
    (minTime : Time) (balance : Int) : StakingM φ σ UnbondingDelegation := do
  modifyStaking (·.incrementUnbondingId)
  let s ← stakingState
  let id := s.unbondingId
  let added := s.addUnbondingEntry delAddr valAddr creationHeight minTime balance id
  modifyStaking (·.setUnbondingDelegation added.1)
  whenever added.2 do
    modifyStaking (·.setByUnbondingId
      (.unbondingDelegation added.1.delegatorAddress added.1.validatorAddress) id)
    ignoreError (external fun s => K.afterUnbondingInitiated s id)
  pure added.1

def undelegate (delAddr valAddr : Address) (sharesAmount : Int) : StakingM φ σ Int := do
  let validator ← getValidator valAddr
  let s ← stakingState
  failIf (s.hasMaxUnbondingDelegationEntries delAddr valAddr) .maxUnbondingDelegationEntries
  let returnAmount ← unbond K delAddr valAddr sharesAmount
  whenever validator.isBonded (bondedTokensToNotBonded K returnAmount)
  let completionTime := s.blockTime + s.params.unbondingTime
  let ubd ← setUnbondingDelegationEntry K delAddr valAddr s.blockHeight completionTime returnAmount
  modifyStaking (·.insertUBDQueue ubd completionTime)
  pure returnAmount

def payUnbondingEntry (delAddr : Address) (entry : UnbondingDelegationEntry) :
    StakingM φ σ Unit := do
  modifyStaking (·.deleteUnbondingIndex entry.unbondingId)
  whenever (entry.balance ≠ 0) do
    newCoinCheck entry.balance
    subNotBondedPool entry.balance
    external fun s => K.undelegateCoins s delAddr ⟨s.params.bondDenom, entry.balance⟩

def completeUnbonding (delAddr valAddr : Address) : StakingM φ σ Unit := do
  let s ← stakingState
  let ubd ← getOrFail (s.unbondingDelegations.get? ⟨delAddr, valAddr⟩) .noUnbondingDelegation
  let done : UnbondingDelegationEntry → Bool := fun entry =>
    entry.isMature s.blockTime ∧ ¬ entry.onHold
  forEach (payUnbondingEntry K ubd.delegatorAddress) (ubd.entries.filter done)
  modifyStaking (·.storeUnbondingDelegation
    { ubd with entries := ubd.entries.filter fun entry => ¬ done entry })

/-! ## Redelegation -/

/-- Completion time and height of a redelegation away from a validator; none when
it completes at once. -/
def getBeginInfo (valSrcAddr : Address) : StakingM φ σ (Option (Time × Int)) := do
  let validator ← getValidator valSrcAddr
  let s ← stakingState
  match validator.status with
  | .bonded => pure (some (s.blockTime + s.params.unbondingTime, s.blockHeight))
  | .unbonded => pure none
  | .unbonding => pure (some (validator.unbondingTime, validator.unbondingHeight))

def setRedelegationEntry (delAddr valSrcAddr valDstAddr : Address) (creationHeight : Int)
    (minTime : Time) (balance : Int) (sharesDst : Int) : StakingM φ σ Redelegation := do
  modifyStaking (·.incrementUnbondingId)
  let s ← stakingState
  let id := s.unbondingId
  let red :=
    s.addRedelegationEntry delAddr valSrcAddr valDstAddr creationHeight minTime balance sharesDst id
  modifyStaking (·.setRedelegation red)
  modifyStaking (·.setByUnbondingId
    (.redelegation red.delegatorAddress red.validatorSrcAddress red.validatorDstAddress) id)
  ignoreError (external fun s => K.afterUnbondingInitiated s id)
  pure red

def beginRedelegation (delAddr valSrcAddr valDstAddr : Address) (sharesAmount : Int) :
    StakingM φ σ Unit := do
  failIf (valSrcAddr = valDstAddr) .selfRedelegation
  let s ← stakingState
  let dstValidator ← getOrFail (s.validators.get? valDstAddr) .badRedelegationDst
  let srcValidator ← getOrFail (s.validators.get? valSrcAddr) .badRedelegationSrc
  failIf (s.hasReceivingRedelegation delAddr valSrcAddr) .transitiveRedelegation
  failIf (s.hasMaxRedelegationEntries delAddr valSrcAddr valDstAddr) .maxRedelegationEntries
  let returnAmount ← unbond K delAddr valSrcAddr sharesAmount
  failIf (returnAmount = 0) .tinyRedelegationAmount
  let sharesCreated ← delegate K delAddr returnAmount srcValidator.status dstValidator false
  let info ← getBeginInfo valSrcAddr
  match info with
  | none => pure ()
  | some (completionTime, height) => do
    let red ← setRedelegationEntry K delAddr valSrcAddr valDstAddr height completionTime
      returnAmount sharesCreated
    modifyStaking (·.insertRedelegationQueue red completionTime)

def completeRedelegation (delAddr valSrcAddr valDstAddr : Address) : StakingM φ σ Unit := do
  let s ← stakingState
  let red ← getOrFail (s.redelegations.get? ⟨delAddr, ⟨valSrcAddr, valDstAddr⟩⟩) .noRedelegation
  let done : RedelegationEntry → Bool := fun entry =>
    entry.isMature s.blockTime ∧ ¬ entry.onHold
  forEach (fun entry => modifyStaking (·.deleteUnbondingIndex entry.unbondingId))
    (red.entries.filter done)
  modifyStaking (·.storeRedelegation
    { red with entries := red.entries.filter fun entry => ¬ done entry })

/-- Shares for a requested amount, capped at the delegation's shares. -/
def validateUnbondAmount (delAddr valAddr : Address) (amount : Int) : StakingM φ σ Int := do
  let validator ← getValidator valAddr
  let s ← stakingState
  let delegation ← getOrFail (s.delegations.get? ⟨delAddr, valAddr⟩) .noDelegation
  let shares ← getOrFail (validator.sharesFromTokens amount) .insufficientShares
  let sharesTruncated ← getOrFail (validator.sharesFromTokensTruncated amount) .insufficientShares
  failIf (delegation.shares < sharesTruncated) (.invalidRequest "invalid shares amount")
  pure (if delegation.shares < shares then delegation.shares else shares)

end Keeper

end AtomOneSdk.Staking
