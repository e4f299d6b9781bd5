import AtomOneSdk.Staking.State

/-!
Contract: the validator part of the staking keeper (`keeper/validator.go`,
`keeper/cons_pubkey.go`, `keeper/pool.go` and the id bookkeeping of
`keeper/unbonding.go`).

Owns: validator records with their three indexes, the validator unbonding queue,
consensus key rotation records and the lookup of a validator by any key it held,
transfers between and burns from the two pools, unbonding ids.

Does **not** own: status changes of validators and delegations.
-/

namespace AtomOneSdk.Staking

open Lib Lib.Action

/-! ## Writes to single records -/

namespace StakingState

def setValidator (s : StakingState) (v : Validator) : StakingState :=
  { s with validators := s.validators.set v.operatorAddress v }

def setValidatorByConsAddr (s : StakingState) (consAddr operator : Address) : StakingState :=
  { s with validatorByConsAddr := s.validatorByConsAddr.set consAddr operator }

/-- Jailed validators are not kept in the power index. -/
def setValidatorByPowerIndex (s : StakingState) (v : Validator) : StakingState :=
  { s with
      validatorsByPowerIndex :=
        if v.jailed then s.validatorsByPowerIndex
        else s.validatorsByPowerIndex.set (powerIndexKey v) v.operatorAddress }

def deleteValidatorByPowerIndex (s : StakingState) (v : Validator) : StakingState :=
  { s with validatorsByPowerIndex := s.validatorsByPowerIndex.delete (powerIndexKey v) }

def setNewValidatorByPowerIndex (s : StakingState) (v : Validator) : StakingState :=
  { s with
      validatorsByPowerIndex := s.validatorsByPowerIndex.set (powerIndexKey v) v.operatorAddress }

/-- Delete a validator record with its entries in the two indexes. -/
def deleteValidator (s : StakingState) (address consAddr : Address) (v : Validator) :
    StakingState :=
  { s with
      validators := s.validators.delete address
      validatorByConsAddr := s.validatorByConsAddr.delete consAddr
      validatorsByPowerIndex := s.validatorsByPowerIndex.delete (powerIndexKey v) }

def setLastValidatorPower (s : StakingState) (operator : Address) (power : Int) : StakingState :=
  { s with lastValidatorPower := s.lastValidatorPower.set operator power }

def deleteLastValidatorPower (s : StakingState) (operator : Address) : StakingState :=
  { s with lastValidatorPower := s.lastValidatorPower.delete operator }

/-- Addresses queued to finish unbonding at a time and height. -/
def getUnbondingValidators (s : StakingState) (endTime : Time) (endHeight : Int) : List Address :=
  (s.validatorQueue.get? ⟨endTime, endHeight⟩).getD []

def insertUnbondingValidatorQueue (s : StakingState) (v : Validator) : StakingState :=
  { s with
      validatorQueue := s.validatorQueue.set ⟨v.unbondingTime, v.unbondingHeight⟩
        (s.getUnbondingValidators v.unbondingTime v.unbondingHeight ++ [v.operatorAddress]) }

/-- Take a validator out of its time slice; an emptied slice is deleted. -/
def deleteValidatorQueue (s : StakingState) (v : Validator) : StakingState :=
  let newAddrs := (s.getUnbondingValidators v.unbondingTime v.unbondingHeight).filter
    (fun addr => addr ≠ v.operatorAddress)
  { s with
      validatorQueue :=
        if newAddrs = [] then s.validatorQueue.delete ⟨v.unbondingTime, v.unbondingHeight⟩
        else s.validatorQueue.set ⟨v.unbondingTime, v.unbondingHeight⟩ newAddrs }

def deleteUnbondingIndex (s : StakingState) (id : Nat) : StakingState :=
  { s with unbondingIndex := s.unbondingIndex.delete id }

/-- File an unbonding id under the record it belongs to, with its type. -/
def setByUnbondingId (s : StakingState) (op : UnbondingOp) (id : Nat) : StakingState :=
  { s with
      unbondingIndex := s.unbondingIndex.set id op
      unbondingType := s.unbondingType.set id op }

def incrementUnbondingId (s : StakingState) : StakingState :=
  { s with unbondingId := s.unbondingId + 1 }

end StakingState

/-! ## Lookup by consensus address -/

/-- The walk of `GetValidatorByConsAddr` from `current`: the inner option is the
result of the lookup, the outer one is none when the step budget is used up. -/
def walkConsAddr (s : StakingState) : Nat → List Address → Address → Option (Option Validator)
  | 0, _, _ => none
  | budget + 1, visited, current =>
    match s.validatorByConsAddr.get? current with
    | some operator => some (s.validators.get? operator)
    | none =>
      match s.oldToNewConsAddr.get? current with
      | none => some none
      | some next =>
        if next ∈ current :: visited then some none
        else walkConsAddr s budget (current :: visited) next

/-- A step budget that no walk exceeds. -/
def consAddrBudget (s : StakingState) : Nat := s.oldToNewConsAddr.entries.length + 1

/-- The validator that holds a consensus address or rotated away from it. -/
def getValidatorByConsAddr (s : StakingState) (consAddr : Address) : Option Validator :=
  (walkConsAddr s (consAddrBudget s) [] consAddr).join

section Keeper

variable {φ σ : Type} (K : Keepers φ σ)

def getValidator (addr : Address) : StakingM φ σ Validator := do
  let s ← stakingState
  getOrFail (s.validators.get? addr) .noValidatorFound

def mustGetValidator (addr : Address) : StakingM φ σ Validator := do
  let s ← stakingState
  getOrCrash (s.validators.get? addr) (.message "validator record not found for address")

def mustGetValidatorByConsAddr (consAddr : Address) : StakingM φ σ Validator := do
  let s ← stakingState
  getOrCrash (getValidatorByConsAddr s consAddr)
    (.message "validator with consensus-Address not found")

/-! ## Tokens and shares -/

def addValidatorTokensAndShares (validator : Validator) (tokensToAdd : Int) :
    StakingM φ σ (Validator × Int) := do
  modifyStaking (·.deleteValidatorByPowerIndex validator)
  let added ← getOrCrash (validator.addTokensFromDel tokensToAdd) .insufficientShares
  modifyStaking (·.setValidator added.1)
  modifyStaking (·.setValidatorByPowerIndex added.1)
  pure added

def removeValidatorTokensAndShares (validator : Validator) (sharesToRemove : Int) :
    StakingM φ σ (Validator × Int) := do
  modifyStaking (·.deleteValidatorByPowerIndex validator)
  crashIf (validator.delegatorShares = 0 ∧ sharesToRemove ≠ 0) .divisionByZero
  let removed := validator.removeDelShares sharesToRemove
  crashIf (removed.1.tokens < 0)
    (.message "attempting to remove more tokens than available in validator")
  modifyStaking (·.setValidator removed.1)
  modifyStaking (·.setValidatorByPowerIndex removed.1)
  modifyStaking (·.note
    (.unbonded validator.tokens validator.delegatorShares sharesToRemove removed.2))
  pure removed

def removeValidatorTokens (validator : Validator) (tokensToRemove : Int) :
    StakingM φ σ Validator := do
  modifyStaking (·.deleteValidatorByPowerIndex validator)
  crashIf (tokensToRemove < 0) (.message "should not happen: trying to remove negative tokens")
  crashIf (validator.tokens < tokensToRemove)
    (.message "should not happen: trying to remove more tokens than available")
  let reduced := { validator with tokens := validator.tokens - tokensToRemove }
  modifyStaking (·.setValidator reduced)
  modifyStaking (·.setValidatorByPowerIndex reduced)
  pure reduced

/-- A validator's commission after a change of rate. -/
def updateValidatorCommission (validator : Validator) (newRate : Int) :
    StakingM φ σ Commission := do
  let s ← stakingState
  match validator.commission.validateNewRate newRate s.blockTime with
  | some reason => fail reason
  | none => do
    failIf (newRate < s.params.minCommissionRate)
      (.message "cannot set validator commission to less than minimum rate")
    pure { validator.commission with rate := newRate, updateTime := s.blockTime }

/-- Clamp a validator's rate into the chain-wide bounds, lifting its maximum rate
when the clamped rate exceeds it. -/
def clampCommission (minRate maxRate : Int) (v : Validator) : Validator :=
  let updatedRate :=
    if v.commission.rate < minRate then minRate
    else if maxRate < v.commission.rate then maxRate
    else v.commission.rate
  { v with
      commission :=
        { v.commission with
            rate := updatedRate
            maxRate := if v.commission.maxRate < updatedRate then updatedRate
              else v.commission.maxRate } }

def updateValidatorCommissionsForNewRange (minRate maxRate : Int) : StakingM φ σ Unit := do
  let s ← stakingState
  forEach (fun v => modifyStaking (·.setValidator (clampCommission minRate maxRate v)))
    s.validators.values

/-- Remove an unbonded validator without tokens; a failing hook is only logged. -/
def removeValidator (address : Address) : StakingM φ σ Unit := do
  let s ← stakingState
  match s.validators.get? address with
  | none => pure ()
  | some validator => do
    failIf (¬ validator.isUnbonded) .badRemoveValidator
    failIf (0 < validator.tokens) .badRemoveValidator
    let consAddr := K.consAddress validator.consensusPubkey
    modifyStaking (·.deleteValidator address consAddr validator)
    recover
      (external fun s => K.afterValidatorRemoved s consAddr validator.operatorAddress)
      (modifyStaking (·.note (.removalHookFailed validator.operatorAddress)))

/-! ## Pools -/

/-- Take an amount out of a pool, if it is there. -/
def subPool (pool : Store Denom Int) (coin : Coin) : Option (Store Denom Int) :=
  if balanceOf pool coin.denom < coin.amount then none
  else some (pool.set coin.denom (balanceOf pool coin.denom - coin.amount))

def addPool (pool : Store Denom Int) (coin : Coin) : Store Denom Int :=
  pool.set coin.denom (balanceOf pool coin.denom + coin.amount)

def subBondedPool (amount : Int) : StakingM φ σ Unit := do
  let s ← stakingState
  let pool ← getOrFail (subPool s.bondedPool ⟨s.params.bondDenom, amount⟩) .insufficientFunds
  modifyStaking fun s => { s with bondedPool := pool }

def subNotBondedPool (amount : Int) : StakingM φ σ Unit := do
  let s ← stakingState
  let pool ← getOrFail (subPool s.notBondedPool ⟨s.params.bondDenom, amount⟩) .insufficientFunds
  modifyStaking fun s => { s with notBondedPool := pool }

def addBondedPool (amount : Int) : StakingM φ σ Unit :=
  modifyStaking fun s =>
    { s with bondedPool := addPool s.bondedPool ⟨s.params.bondDenom, amount⟩ }

def addNotBondedPool (amount : Int) : StakingM φ σ Unit :=
  modifyStaking fun s =>
    { s with notBondedPool := addPool s.notBondedPool ⟨s.params.bondDenom, amount⟩ }

/-- `sdk.NewCoin` panics on a negative amount. -/
def newCoinCheck (amount : Int) : StakingM φ σ Unit :=
  crashIf (amount < 0) (.message "negative coin amount")

def restrictSend (amount : Int) : StakingM φ σ Unit :=
  external fun s => K.sendRestriction s ⟨s.params.bondDenom, amount⟩

def bondedTokensToNotBonded (tokens : Int) : StakingM φ σ Unit := do
  newCoinCheck tokens
  subBondedPool tokens
  restrictSend K tokens
  addNotBondedPool tokens

def notBondedTokensToBonded (tokens : Int) : StakingM φ σ Unit := do
  newCoinCheck tokens
  subNotBondedPool tokens
  restrictSend K tokens
  addBondedPool tokens

def burnBondedTokens (amount : Int) : StakingM φ σ Unit :=
  whenever (0 < amount) (subBondedPool amount)

def burnNotBondedTokens (amount : Int) : StakingM φ σ Unit :=
  whenever (0 < amount) (subNotBondedPool amount)

/-! ## Consensus key rotation -/

def maxRotations : Nat := 1

def getBlockConsPubKeyRotationHistory (s : StakingState) : List ConsPubKeyRotationHistory :=
  (s.blockRotationHistory.entries.filter fun entry => entry.1.fst = s.blockHeight).map Prod.snd

def setConsKeyQueue (s : StakingState) (ts : Time) (valAddr : Address) : StakingState :=
  let addrs := (s.rotationQueue.get? ts).getD []
  { s with
      rotationQueue :=
        if valAddr ∈ addrs then s.rotationQueue
        else s.rotationQueue.set ts (addrs ++ [valAddr]) }

def setConsPubKeyRotationHistory (valAddr : Address) (oldPubKey newPubKey : PubKey) (fee : Coin) :
    StakingM φ σ Unit := do
  let s ← stakingState
  failIf (∃ rotation ∈ getBlockConsPubKeyRotationHistory s,
      rotation.newConsPubkey.bytes = newPubKey.bytes)
    .validatorPubKeyExists
  let history : ConsPubKeyRotationHistory :=
    ⟨valAddr, oldPubKey, newPubKey, s.blockHeight, fee⟩
  let queueTime := s.blockTime + s.params.unbondingTime
  modifyStaking fun s =>
    setConsKeyQueue
      { s with
          rotationHistory := s.rotationHistory.set ⟨valAddr, s.blockHeight⟩ history
          blockRotationHistory := s.blockRotationHistory.set ⟨s.blockHeight, valAddr⟩ history
          rotationIndex := s.rotationIndex.set ⟨valAddr, queueTime⟩ () }
      queueTime valAddr

/-- Map the new address to the first address of the chain it continues. -/
def setConsAddrToValidatorIdentifierMap (s : StakingState) (oldConsAddr newConsAddr : Address) :
    StakingState :=
  { s with
      consAddrToIdentifier := s.consAddrToIdentifier.set newConsAddr
        ((s.consAddrToIdentifier.get? oldConsAddr).getD oldConsAddr) }

/-- The initial consensus address of a rotated key. -/
def validatorIdentifier (s : StakingState) (consAddr : Address) : Option Address :=
  s.consAddrToIdentifier.get? consAddr

def updateToNewPubkey (val : Validator) (oldPubKey newPubKey : PubKey) (fee : Coin) :
    StakingM φ σ Unit := do
  let consAddr := K.consAddress val.consensusPubkey
  modifyStaking fun s => { s with validatorByConsAddr := s.validatorByConsAddr.delete consAddr }
  modifyStaking (·.deleteValidatorByPowerIndex val)
  let updated := { val with consensusPubkey := newPubKey }
  modifyStaking (·.setValidator updated)
  modifyStaking (·.setValidatorByConsAddr (K.consAddress newPubKey) val.operatorAddress)
  modifyStaking (·.setValidatorByPowerIndex updated)
  modifyStaking fun s =>
    { s with
        oldToNewConsAddr :=
          s.oldToNewConsAddr.set (K.consAddress oldPubKey) (K.consAddress newPubKey) }
  modifyStaking fun s =>
    setConsAddrToValidatorIdentifierMap s (K.consAddress oldPubKey) (K.consAddress newPubKey)
  external fun s => K.afterConsensusPubKeyUpdate s oldPubKey newPubKey fee

/-- The scan is by raw address bytes, so it also meets longer addresses that
start with this one. -/
def exceedsMaxRotations (valAddr : Address) : StakingM φ σ Unit := do
  let s ← stakingState
  failIf (maxRotations ≤ (s.rotationIndex.keys.filter fun key => valAddr <+: key.fst).length)
    .exceedingMaxConsPubKeyRotations

/-- Delete the rotation index entries of a validator up to a time. A longer address
met by the scan leaves bytes that do not parse as a time. -/
def deleteConsKeyIndexKey (valAddr : Address) (ts : Time) : StakingM φ σ Unit := do
  let s ← stakingState
  forEach
    (fun key => do
      failIf (key.fst ≠ valAddr) (.message "unable to parse time bytes")
      whenever (key.snd ≤ ts)
        (modifyStaking fun s => { s with rotationIndex := s.rotationIndex.delete key }))
    (s.rotationIndex.keys.filter fun key => valAddr <+: key.fst)

def purgeAllMaturedConsKeyRotatedKeys (maturedTime : Time) : StakingM φ σ Unit := do
  let s ← stakingState
  let matured := s.rotationQueue.entries.filter fun entry => entry.1 ≤ maturedTime
  modifyStaking fun s =>
    { s with
        rotationQueue := (matured.map Prod.fst).foldl Store.delete s.rotationQueue }
  forEach (fun addr => deleteConsKeyIndexKey addr maturedTime) (matured.flatMap Prod.snd)

/-- Forget the rotations recorded at the current height. -/
def deleteBlockConsPubKeyRotationHistory (s : StakingState) : StakingState :=
  { s with
      blockRotationHistory :=
        (s.blockRotationHistory.keys.filter fun key => key.fst = s.blockHeight).foldl
          Store.delete s.blockRotationHistory }

end Keeper

end AtomOneSdk.Staking
