import AtomOneSdk.Staking.Validator

/-!
Contract: validator status changes (`keeper/val_state_change.go` and
`UnbondAllMatureValidators`).

Owns: jailing and unjailing, the transitions between unbonded, unbonding and
bonded, and `ApplyAndReturnValidatorSetUpdates` with its three loops.

Does **not** own: delegations and the rest of the end of block.
-/

namespace AtomOneSdk.Staking

open Lib Lib.Action

section Keeper

variable {φ σ : Type} (K : Keepers φ σ)

/-! ## Jail -/

def jailValidator (validator : Validator) : StakingM φ σ Unit := do
  failIf validator.jailed .validatorJailed
  let jailed := { validator with jailed := true }
  modifyStaking (·.setValidator jailed)
  modifyStaking (·.deleteValidatorByPowerIndex jailed)

def unjailValidator (validator : Validator) : StakingM φ σ Unit := do
  failIf (¬ validator.jailed) (.message "cannot unjail already unjailed validator")
  let unjailed := { validator with jailed := false }
  modifyStaking (·.setValidator unjailed)
  modifyStaking (·.setValidatorByPowerIndex unjailed)

/-! ## Transitions -/

def bondValidator (validator : Validator) : StakingM φ σ Validator := do
  modifyStaking (·.deleteValidatorByPowerIndex validator)
  let bonded := validator.updateStatus .bonded
  modifyStaking (·.setValidator bonded)
  modifyStaking (·.setValidatorByPowerIndex bonded)
  modifyStaking (·.deleteValidatorQueue bonded)
  external fun s =>
    K.afterValidatorBonded s (K.consAddress bonded.consensusPubkey) bonded.operatorAddress
  pure bonded

/-- The record of a validator that starts to unbond now. -/
def beginUnbondingRecord (s : StakingState) (validator : Validator) : Validator :=
  { validator with
      status := .unbonding
      unbondingTime := s.blockTime + s.params.unbondingTime
      unbondingHeight := s.blockHeight
      unbondingIds := validator.unbondingIds ++ [s.unbondingId] }

def beginUnbondingValidator (validator : Validator) : StakingM φ σ Validator := do
  modifyStaking (·.deleteValidatorByPowerIndex validator)
  failIf (validator.status ≠ .bonded) (.message "should not already be unbonded or unbonding")
  modifyStaking (·.incrementUnbondingId)
  let s ← stakingState
  let unbonding := beginUnbondingRecord s validator
  modifyStaking (·.setValidator unbonding)
  modifyStaking (·.setValidatorByPowerIndex unbonding)
  modifyStaking (·.insertUnbondingValidatorQueue unbonding)
  external fun s =>
    K.afterValidatorBeginUnbonding s (K.consAddress unbonding.consensusPubkey)
      unbonding.operatorAddress
  modifyStaking (·.setByUnbondingId (.validatorUnbonding unbonding.operatorAddress) s.unbondingId)
  external fun now => K.afterUnbondingInitiated now s.unbondingId
  pure unbonding

def bondedToUnbonding (validator : Validator) : StakingM φ σ Validator := do
  failIf (¬ validator.isBonded) (.message "bad state transition bondedToUnbonding")
  beginUnbondingValidator K validator

def unbondingToBonded (validator : Validator) : StakingM φ σ Validator := do
  failIf (¬ validator.isUnbonding) (.message "bad state transition unbondingToBonded")
  bondValidator K validator

def unbondedToBonded (validator : Validator) : StakingM φ σ Validator := do
  failIf (¬ validator.isUnbonded) (.message "bad state transition unbondedToBonded")
  bondValidator K validator

def completeUnbondingValidator (validator : Validator) : StakingM φ σ Validator := do
  let unbonded := validator.updateStatus .unbonded
  modifyStaking (·.setValidator unbonded)
  pure unbonded

def unbondingToUnbonded (validator : Validator) : StakingM φ σ Validator := do
  failIf (¬ validator.isUnbonding) (.message "bad state transition unbondingToUnbonded")
  completeUnbondingValidator validator

/-! ## End of validator unbonding -/

def unbondMatureValidator (addr : Address) : StakingM φ σ Unit := do
  let s ← stakingState
  let val ← getOrFail (s.validators.get? addr)
    (.message "validator in the unbonding queue was not found")
  failIf (¬ val.isUnbonding)
    (.message "unexpected validator in unbonding queue; status was not unbonding")
  whenever (val.unbondingOnHoldRefCount = 0) do
    modifyStaking fun s => val.unbondingIds.foldl StakingState.deleteUnbondingIndex s
    let unbonded ← unbondingToUnbonded val
    (if unbonded.delegatorShares = 0 then do
      removeValidator K unbonded.operatorAddress
      modifyStaking (·.deleteValidatorQueue unbonded)
    else do
      let cleared := { unbonded with unbondingIds := [] }
      modifyStaking (·.setValidator cleared)
      modifyStaking (·.deleteValidatorQueue cleared))

def unbondAllMatureValidators : StakingM φ σ Unit := do
  let s ← stakingState
  let matured := s.validatorQueue.entries.filter fun entry =>
    entry.1.snd ≤ s.blockHeight ∧ entry.1.fst ≤ s.blockTime
  forEach (unbondMatureValidator K) (matured.flatMap Prod.snd)

/-! ## Validator set updates -/

/-- What the loops of `ApplyAndReturnValidatorSetUpdates` carry along. `last` is the
previous set without the validators met so far. -/
structure ApplyAcc where
  last : Store Address Int
  updates : List ValidatorUpdate
  totalPower : Int
  amtFromBondedToNotBonded : Int
  amtFromNotBondedToBonded : Int

def Validator.abciValidatorUpdate (v : Validator) : ValidatorUpdate :=
  ⟨v.consensusPubkey, v.consensusPower⟩

def Validator.abciValidatorUpdateZero (v : Validator) : ValidatorUpdate :=
  ⟨v.consensusPubkey, 0⟩

/-- Bring a validator of the new set into the bonded state; the second component
is what moves from the not-bonded to the bonded pool. -/
def enterBonded (validator : Validator) : StakingM φ σ (Validator × Int) :=
  match validator.status with
  | .unbonded => do
    let bonded ← unbondedToBonded K validator
    pure (bonded, bonded.tokens)
  | .unbonding => do
    let bonded ← unbondingToBonded K validator
    pure (bonded, bonded.tokens)
  | .bonded => pure (validator, 0)

/-- Record the power of a bonded validator. A validator that rotates its key in
this block leaves its update to the rotation loop. -/
def recordPower (rotating : List Address) (acc : ApplyAcc) (addr : Address) (bonded : Validator)
    (moved : Int) : StakingM φ σ ApplyAcc := do
  let newPower := bonded.consensusPower
  let changed := acc.last.get? addr ≠ some newPower
  whenever changed (modifyStaking (·.setLastValidatorPower addr newPower))
  pure
    { acc with
        last := acc.last.delete addr
        updates :=
          if changed ∧ addr ∉ rotating then acc.updates ++ [bonded.abciValidatorUpdate]
          else acc.updates
        totalPower := acc.totalPower + newPower
        amtFromNotBondedToBonded := acc.amtFromNotBondedToBonded + moved }

/-- The loop over the power index, from the highest power down, for at most
`remaining` validators and until one without power is met. -/
def bondedSetLoop (rotating : List Address) :
    Nat → List Address → ApplyAcc → StakingM φ σ ApplyAcc
  | 0, _, acc => pure acc
  | _, [], acc => pure acc
  | remaining + 1, addr :: rest, acc => do
    let s ← stakingState
    let validator ← getOrFail (s.validators.get? addr)
      (.message "validator record not found for address")
    failIf validator.jailed .jailedInPowerStore
    (if validator.potentialConsensusPower = 0 then pure acc
    else do
      let entered ← enterBonded K validator
      let next ← recordPower rotating acc addr entered.1 entered.2
      bondedSetLoop rotating remaining rest next)

def unbondNoLongerBonded (acc : ApplyAcc) (addr : Address) : StakingM φ σ ApplyAcc := do
  let s ← stakingState
  let validator ← getOrFail (s.validators.get? addr)
    (.message "validator record not found for address")
  let unbonding ← bondedToUnbonding K validator
  modifyStaking (·.deleteLastValidatorPower unbonding.operatorAddress)
  pure
    { acc with
        amtFromBondedToNotBonded := acc.amtFromBondedToNotBonded + unbonding.tokens
        updates := acc.updates ++ [unbonding.abciValidatorUpdateZero] }

/-- A validator cannot rotate keys if it is not bonded or if it is jailed. -/
def applyRotation (acc : ApplyAcc) (history : ConsPubKeyRotationHistory) :
    StakingM φ σ ApplyAcc := do
  let validator ← getValidator history.operatorAddress
  (if validator.jailed ∨ validator.status ≠ .bonded then pure acc
  else do
    updateToNewPubkey K validator history.oldConsPubkey history.newConsPubkey history.fee
    pure
      { acc with
          updates := acc.updates
            ++ [⟨history.oldConsPubkey, 0⟩, ⟨history.newConsPubkey, validator.consensusPower⟩] })

/-- One transfer for the net movement between the pools. -/
def settlePools (acc : ApplyAcc) : StakingM φ σ Unit :=
  if acc.amtFromBondedToNotBonded < acc.amtFromNotBondedToBonded then
    notBondedTokensToBonded K (acc.amtFromNotBondedToBonded - acc.amtFromBondedToNotBonded)
  else if acc.amtFromNotBondedToBonded < acc.amtFromBondedToNotBonded then
    bondedTokensToNotBonded K (acc.amtFromBondedToNotBonded - acc.amtFromNotBondedToBonded)
  else pure ()

def applyAndReturnValidatorSetUpdates : StakingM φ σ (List ValidatorUpdate) := do
  let s ← stakingState
  let historyObjects := getBlockConsPubKeyRotationHistory s
  let rotating := historyObjects.map ConsPubKeyRotationHistory.operatorAddress
  let bonded ← bondedSetLoop K rotating s.params.maxValidators
    s.validatorsByPowerIndex.values.reverse ⟨s.lastValidatorPower, [], 0, 0, 0⟩
  let unbonded ← foldOver (unbondNoLongerBonded K) bonded.last.keys bonded
  let final ← foldOver (applyRotation K) historyObjects unbonded
  modifyStaking deleteBlockConsPubKeyRotationHistory
  settlePools K final
  whenever (final.updates ≠ [])
    (modifyStaking fun s => { s with lastTotalPower := final.totalPower })
  modifyStaking fun s => { s with validatorUpdates := final.updates }
  pure final.updates

end Keeper

end AtomOneSdk.Staking
