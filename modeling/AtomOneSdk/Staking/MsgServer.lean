import AtomOneSdk.Staking.Slash

/-!
Contract: the staking messages (`keeper/msg_server.go`).

Owns: the message records and handlers with their checks in order, and the operations of a
staking run: messages, slashes, and the steps at the borders of a block.

Does **not** own: bech32 and `Any` decoding; messages carry decoded values.
-/

namespace AtomOneSdk.Staking

open Lib Lib.Action

structure MsgCreateValidator where
  description : Description
  commission : CommissionRates
  minSelfDelegation : Int
  validatorAddress : Address
  pubkey : PubKey
  value : Coin
deriving DecidableEq, Repr

structure MsgEditValidator where
  description : Description
  validatorAddress : Address
  commissionRate : Option Int
  minSelfDelegation : Option Int
deriving DecidableEq, Repr

structure MsgDelegate where
  delegatorAddress : Address
  validatorAddress : Address
  amount : Coin
deriving DecidableEq, Repr

structure MsgBeginRedelegate where
  delegatorAddress : Address
  validatorSrcAddress : Address
  validatorDstAddress : Address
  amount : Coin
deriving DecidableEq, Repr

structure MsgUndelegate where
  delegatorAddress : Address
  validatorAddress : Address
  amount : Coin
deriving DecidableEq, Repr

structure MsgCancelUnbondingDelegation where
  delegatorAddress : Address
  validatorAddress : Address
  amount : Coin
  creationHeight : Int
deriving DecidableEq, Repr

structure MsgRotateConsPubKey where
  validatorAddress : Address
  newPubkey : PubKey
deriving DecidableEq, Repr

section Keeper

variable {φ σ : Type} (K : Keepers φ σ)

/-! ## Shared checks -/

/-- `Amount.IsValid` and positivity; the denomination is checked against the bond
denomination separately. -/
def checkAmount (coin : Coin) (text : String) : StakingM φ σ Unit :=
  failIf (¬ 0 < coin.amount) (.invalidRequest text)

def checkBondDenom (coin : Coin) : StakingM φ σ Unit := do
  let s ← stakingState
  failIf (coin.denom ≠ s.params.bondDenom) (.invalidRequest "invalid coin denomination")

def failIfSome (reason : Option (Reason φ)) : StakingM φ σ Unit :=
  match reason with
  | some found => fail found
  | none => pure ()

def checkPubKeyType (pk : PubKey) : StakingM φ σ Unit :=
  match K.pubKeyTypes with
  | some types => failIf (pk.keyType ∉ types) .validatorPubKeyTypeNotSupported
  | none => pure ()

/-- The key must have no identifier, must not be the new key of a rotation of this
block, and must not resolve to a stored validator. -/
def checkConsKeyAlreadyUsed (pk : PubKey) : StakingM φ σ Unit := do
  let newConsAddr := K.consAddress pk
  let s ← stakingState
  failIf ((s.consAddrToIdentifier.get? newConsAddr).isSome)
    (.invalidAddress "public key was already used")
  failIf (∃ rotation ∈ getBlockConsPubKeyRotationHistory s,
      K.consAddress rotation.newConsPubkey = newConsAddr)
    (.invalidAddress "public key was already used")
  failIf ((getValidatorByConsAddr s newConsAddr).isSome) .validatorPubKeyExists

def checkCommissionRange (rate : Int) : StakingM φ σ Unit := do
  let s ← stakingState
  failIf (rate < s.params.minCommissionRate ∨ s.params.maxCommissionRate < rate)
    .commissionOutOfBound

/-! ## Messages -/

def MsgCreateValidator.validate (msg : MsgCreateValidator) : StakingM φ σ Unit := do
  checkAmount msg.value "invalid delegation amount"
  failIf (msg.description = Description.empty) (.invalidRequest "empty description")
  failIfSome msg.commission.validate
  failIf (¬ 0 < msg.minSelfDelegation)
    (.invalidRequest "minimum self delegation must be a positive integer")
  failIf (msg.value.amount < msg.minSelfDelegation) .selfDelegationBelowMinimum

def createdValidator (msg : MsgCreateValidator) (blockTime : Time) : Validator :=
  { newValidator msg.validatorAddress msg.pubkey msg.description with
      commission := { msg.commission with updateTime := blockTime }
      minSelfDelegation := msg.minSelfDelegation }

def createValidator (msg : MsgCreateValidator) : StakingM φ σ Unit := do
  msg.validate
  checkCommissionRange msg.commission.rate
  let s ← stakingState
  failIf ((s.validators.get? msg.validatorAddress).isSome) .validatorOwnerExists
  checkConsKeyAlreadyUsed K msg.pubkey
  checkBondDenom msg.value
  failIfSome (msg.description.ensureLength.map Reason.invalidRequest)
  checkPubKeyType K msg.pubkey
  let validator := createdValidator msg s.blockTime
  modifyStaking (·.setValidator validator)
  modifyStaking (·.setValidatorByConsAddr (K.consAddress msg.pubkey) msg.validatorAddress)
  modifyStaking (·.setNewValidatorByPowerIndex validator)
  external fun s => K.afterValidatorCreated s msg.validatorAddress
  let _ ← delegate K msg.validatorAddress msg.value.amount .unbonded validator true
  pure ()

/-- The commission after an edit; the modules are told before it changes. -/
def editedCommission (validator : Validator) (valAddr : Address) (rate : Option Int) :
    StakingM φ σ Commission :=
  match rate with
  | none => pure validator.commission
  | some newRate => do
    let commission ← updateValidatorCommission validator newRate
    external fun s => K.beforeValidatorModified s valAddr
    pure commission

def editedMinSelfDelegation (validator : Validator) (minimum : Option Int) : StakingM φ σ Int :=
  match minimum with
  | none => pure validator.minSelfDelegation
  | some newMinimum => do
    failIf (¬ validator.minSelfDelegation < newMinimum) .minSelfDelegationDecreased
    failIf (validator.tokens < newMinimum) .selfDelegationBelowMinimum
    pure newMinimum

def editValidator (msg : MsgEditValidator) : StakingM φ σ Unit := do
  failIf (msg.description = Description.empty) (.invalidRequest "empty description")
  failIf (∃ minimum ∈ msg.minSelfDelegation, ¬ 0 < minimum)
    (.invalidRequest "minimum self delegation must be a positive integer")
  (match msg.commissionRate with
    | some rate => checkCommissionRange rate
    | none => pure ())
  let validator ← getValidator msg.validatorAddress
  let description := validator.description.updateDescription msg.description
  failIfSome (description.ensureLength.map Reason.invalidRequest)
  let commission ← editedCommission K validator msg.validatorAddress msg.commissionRate
  let minSelfDelegation ← editedMinSelfDelegation validator msg.minSelfDelegation
  modifyStaking (·.setValidator
    { validator with
        description := description
        commission := commission
        minSelfDelegation := minSelfDelegation })

def msgDelegate (msg : MsgDelegate) : StakingM φ σ Unit := do
  checkAmount msg.amount "invalid delegation amount"
  let validator ← getValidator msg.validatorAddress
  checkBondDenom msg.amount
  let _ ← delegate K msg.delegatorAddress msg.amount.amount .unbonded validator true
  pure ()

def msgBeginRedelegate (msg : MsgBeginRedelegate) : StakingM φ σ Unit := do
  checkAmount msg.amount "invalid shares amount"
  let shares ← validateUnbondAmount msg.delegatorAddress msg.validatorSrcAddress msg.amount.amount
  checkBondDenom msg.amount
  beginRedelegation K msg.delegatorAddress msg.validatorSrcAddress msg.validatorDstAddress shares

def msgUndelegate (msg : MsgUndelegate) : StakingM φ σ Unit := do
  checkAmount msg.amount "invalid shares amount"
  let shares ← validateUnbondAmount msg.delegatorAddress msg.validatorAddress msg.amount.amount
  checkBondDenom msg.amount
  let undelegated ← undelegate K msg.delegatorAddress msg.validatorAddress shares
  newCoinCheck undelegated

/-- The first entry created at a height, with the entries before and after it. -/
def splitAtHeight (creationHeight : Int) : List UnbondingDelegationEntry →
    Option (List UnbondingDelegationEntry × UnbondingDelegationEntry
      × List UnbondingDelegationEntry)
  | [] => none
  | entry :: rest =>
    if entry.creationHeight = creationHeight then some ([], entry, rest)
    else (splitAtHeight creationHeight rest).map fun (before, found, after) =>
      (entry :: before, found, after)

/-- What is left of an entry after a part of it is cancelled. -/
def reducedEntry (entry : UnbondingDelegationEntry) (amount : Int) :
    List UnbondingDelegationEntry :=
  if entry.balance - amount = 0 then []
  else
    [{ entry with
        balance := entry.balance - amount
        initialBalance := entry.initialBalance - amount }]

def cancelUnbondingDelegation (msg : MsgCancelUnbondingDelegation) : StakingM φ σ Unit := do
  checkAmount msg.amount "invalid amount"
  failIf (msg.creationHeight ≤ 0) (.invalidRequest "invalid height")
  checkBondDenom msg.amount
  let validator ← getValidator msg.validatorAddress
  failIf validator.invalidExRate .delegatorShareExRateInvalid
  failIf validator.jailed .validatorJailed
  let s ← stakingState
  let ubd ← getOrFail (s.unbondingDelegations.get? ⟨msg.delegatorAddress, msg.validatorAddress⟩)
    (.notFound "unbonding delegation not found")
  let (before, entry, after) ← getOrFail (splitAtHeight msg.creationHeight ubd.entries)
    (.notFound "unbonding delegation entry is not found at block height")
  failIf (entry.balance < msg.amount.amount)
    (.invalidRequest "amount is greater than the unbonding delegation entry balance")
  failIf (entry.completionTime < s.blockTime)
    (.invalidRequest "unbonding delegation is already processed")
  let _ ← delegate K msg.delegatorAddress msg.amount.amount .unbonding validator false
  modifyStaking (·.storeUnbondingDelegation
    { ubd with entries := before ++ reducedEntry entry msg.amount.amount ++ after })

def rotateConsPubKey (msg : MsgRotateConsPubKey) : StakingM φ σ Unit := do
  checkPubKeyType K msg.newPubkey
  checkConsKeyAlreadyUsed K msg.newPubkey
  let validator ← getValidator msg.validatorAddress
  failIf (validator.status ≠ .bonded) (.invalidType "validator status is not bonded")
  exceedsMaxRotations msg.validatorAddress
  external fun s =>
    K.beforeConsensusPubKeyRotation s msg.validatorAddress validator.consensusPubkey msg.newPubkey
  let s ← stakingState
  external fun now => K.fundCommunityPool now s.params.keyRotationFee msg.validatorAddress
  setConsPubKeyRotationHistory msg.validatorAddress validator.consensusPubkey msg.newPubkey
    s.params.keyRotationFee

/-- The checks of `Params.Validate`, in order. Whether the text of a denomination is
well formed is not checked. -/
def Params.validate (p : Params) : Option String :=
  let rateText : Int → Option String := fun rate =>
    if rate < 0 then some "commission rate cannot be negative"
    else if Dec.one < rate then some "commission rate cannot be greater than 100%"
    else none
  if p.unbondingTime ≤ 0 then some "unbonding time must be positive"
  else if p.maxValidators = 0 then some "max validators must be positive"
  else if p.maxEntries = 0 then some "max entries must be positive"
  else if p.bondDenom = [] then some "bond denom cannot be blank"
  else
    (rateText p.minCommissionRate).or
      ((rateText p.maxCommissionRate).or
        (if p.maxCommissionRate < p.minCommissionRate then
          some "minimum commission rate cannot be greater than the maximum"
        else if p.keyRotationFee.amount ≤ 0 then
          some "cons pubkey rotation fee cannot be negative or zero"
        else none))

/-- `UpdateParams`, called by the authority. -/
def updateParams (params : Params) : StakingM φ σ Unit := do
  failIfSome (params.validate.map Reason.message)
  modifyStaking fun s => { s with params := params }
  updateValidatorCommissionsForNewRange params.minCommissionRate params.maxCommissionRate

def beginBlock (height : Int) (time : Time) : StakingM φ σ Unit := do
  let s ← stakingState
  failIf (¬ (s.blockHeight < height ∧ s.blockTime ≤ time)) (.message "header does not advance")
  modifyStaking fun s => { s with blockHeight := height, blockTime := time }

/-! ## Operations of a run -/

inductive Op where
  | createValidator (msg : MsgCreateValidator)
  | editValidator (msg : MsgEditValidator)
  | delegate (msg : MsgDelegate)
  | beginRedelegate (msg : MsgBeginRedelegate)
  | undelegate (msg : MsgUndelegate)
  | cancelUnbondingDelegation (msg : MsgCancelUnbondingDelegation)
  | rotateConsPubKey (msg : MsgRotateConsPubKey)
  | updateParams (params : Params)
  | slash (consAddr : Address) (infractionHeight power : Int) (slashFactor : Int)
  | jail (consAddr : Address)
  | unjail (consAddr : Address)
  | completeUnbonding (delegator validator : Address)
  | completeRedelegation (delegator source destination : Address)
  | applyAndReturnValidatorSetUpdates
  | unbondAllMatureValidators
  | purgeAllMaturedConsKeyRotatedKeys
  | beginBlock (height : Int) (time : Time)
deriving DecidableEq, Repr

def Op.exec : Op → StakingM φ σ Unit
  | .createValidator msg => Staking.createValidator K msg
  | .editValidator msg => Staking.editValidator K msg
  | .delegate msg => msgDelegate K msg
  | .beginRedelegate msg => msgBeginRedelegate K msg
  | .undelegate msg => msgUndelegate K msg
  | .cancelUnbondingDelegation msg => Staking.cancelUnbondingDelegation K msg
  | .rotateConsPubKey msg => Staking.rotateConsPubKey K msg
  | .updateParams params => Staking.updateParams params
  | .slash consAddr infractionHeight power slashFactor => do
    let _ ← Staking.slash K consAddr infractionHeight power slashFactor
    pure ()
  | .jail consAddr => Staking.jail consAddr
  | .unjail consAddr => Staking.unjail consAddr
  | .completeUnbonding delegator validator => Staking.completeUnbonding K delegator validator
  | .completeRedelegation delegator source destination =>
    Staking.completeRedelegation delegator source destination
  | .applyAndReturnValidatorSetUpdates => do
    let _ ← Staking.applyAndReturnValidatorSetUpdates K
    pure ()
  | .unbondAllMatureValidators => Staking.unbondAllMatureValidators K
  | .purgeAllMaturedConsKeyRotatedKeys => do
    let s ← stakingState
    Staking.purgeAllMaturedConsKeyRotatedKeys s.blockTime
  | .beginBlock height time => Staking.beginBlock height time

end Keeper

end AtomOneSdk.Staking
