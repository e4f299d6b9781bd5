import AtomOneSdk.Staking.Delegation

/-!
Contract: slashing and jailing by consensus address (`keeper/slash.go`).

Owns: `Slash` with its three infraction-height cases, the slashing of unbonding
delegations and of redelegations, `Jail` and `Unjail`.

Does **not** own: when the slashing and evidence modules call them.
-/

namespace AtomOneSdk.Staking

open Lib Lib.Action

/-! ## Unbonding delegations -/

/-- What an infraction takes from an initial balance. -/
def slashAmountOf (slashFactor : Int) (initialBalance : Int) : Int :=
  Dec.truncateInt (Dec.mulInt slashFactor initialBalance)

/-- Entries created before the infraction, and entries already payable, are left alone. -/
def UnbondingDelegationEntry.slashable (entry : UnbondingDelegationEntry) (infractionHeight : Int)
    (now : Time) : Bool :=
  ¬ entry.creationHeight < infractionHeight ∧ ¬ (entry.isMature now ∧ ¬ entry.onHold)

/-- Tokens taken from one entry: never more than it holds. -/
def unbondingSlash (infractionHeight : Int) (slashFactor : Int) (now : Time)
    (entry : UnbondingDelegationEntry) : Int :=
  if entry.slashable infractionHeight now then
    min (slashAmountOf slashFactor entry.initialBalance) entry.balance
  else 0

/-- The amount an entry counts towards the infraction, whatever it still holds. -/
def unbondingSlashTotal (infractionHeight : Int) (slashFactor : Int) (now : Time)
    (entry : UnbondingDelegationEntry) : Int :=
  if entry.slashable infractionHeight now then slashAmountOf slashFactor entry.initialBalance
  else 0

/-- Entries after taking from each its own slash. -/
def slashedEntries (infractionHeight : Int) (slashFactor : Int) (now : Time)
    (entries : List UnbondingDelegationEntry) : List UnbondingDelegationEntry :=
  entries.map fun entry =>
    { entry with balance := entry.balance - unbondingSlash infractionHeight slashFactor now entry }

/-! ## Unbonding from the destination of a redelegation -/

/-- Take up to `slashAmount` from the entries in order. Returns the new entries, what
is still to be taken and what was taken. -/
def slashInOrder (infractionHeight : Int) (now : Time) :
    Int → List UnbondingDelegationEntry → List UnbondingDelegationEntry × Int × Int
  | slashAmount, [] => ([], slashAmount, 0)
  | slashAmount, entry :: rest =>
    let taken := min slashAmount entry.balance
    if taken ≠ 0 ∧ entry.slashable infractionHeight now then
      let others := slashInOrder infractionHeight now (slashAmount - taken) rest
      ({ entry with balance := entry.balance - taken } :: others.1, others.2.1,
        taken + others.2.2)
    else
      let others := slashInOrder infractionHeight now slashAmount rest
      (entry :: others.1, others.2)

section Keeper

variable {φ σ : Type} (K : Keepers φ σ)

def slashUnbondingDelegation (ubd : UnbondingDelegation) (infractionHeight : Int)
    (slashFactor : Int) : StakingM φ σ Int := do
  let s ← stakingState
  let entries := slashedEntries infractionHeight slashFactor s.blockTime ubd.entries
  whenever (entries ≠ ubd.entries)
    (modifyStaking (·.setUnbondingDelegation { ubd with entries := entries }))
  burnNotBondedTokens
    (ubd.entries.map (unbondingSlash infractionHeight slashFactor s.blockTime)).sum
  pure (ubd.entries.map (unbondingSlashTotal infractionHeight slashFactor s.blockTime)).sum

/-- Totals of a redelegation slash. -/
structure RedelegationSlash where
  totalSlashAmount : Int
  bondedBurnedAmount : Int
  notBondedBurnedAmount : Int

/-- Slash the unbonding delegation that followed the redelegation, if there is one.
Returns what is still to be taken and what was taken. -/
def slashFollowingUnbonding (red : Redelegation) (infractionHeight slashAmount : Int) :
    StakingM φ σ (Int × Int) := do
  let s ← stakingState
  match s.unbondingDelegations.get? ⟨red.delegatorAddress, red.validatorDstAddress⟩ with
  | none => pure (slashAmount, 0)
  | some ubd => do
    let slashed := slashInOrder infractionHeight s.blockTime slashAmount ubd.entries
    whenever (slashed.1 ≠ ubd.entries)
      (modifyStaking (·.setUnbondingDelegation { ubd with entries := slashed.1 }))
    pure slashed.2

/-- Unbond the moved shares from the destination validator; the tokens are burned
from the pool of its status. -/
def slashMovedDelegation (red : Redelegation) (acc : RedelegationSlash) (sharesToUnbond : Int) :
    StakingM φ σ RedelegationSlash := do
  let s ← stakingState
  match s.delegations.get? ⟨red.delegatorAddress, red.validatorDstAddress⟩ with
  | none => pure acc
  | some delegation => do
    let tokensToBurn ← unbond K red.delegatorAddress red.validatorDstAddress
      (if delegation.shares < sharesToUnbond then delegation.shares else sharesToUnbond)
    let dstValidator ← getValidator red.validatorDstAddress
    pure
      (if dstValidator.isBonded then
        { acc with bondedBurnedAmount := acc.bondedBurnedAmount + tokensToBurn }
      else { acc with notBondedBurnedAmount := acc.notBondedBurnedAmount + tokensToBurn })

def slashRedelegationEntry (red : Redelegation) (infractionHeight : Int) (slashFactor : Int)
    (acc : RedelegationSlash) (entry : RedelegationEntry) : StakingM φ σ RedelegationSlash := do
  let s ← stakingState
  (if entry.creationHeight < infractionHeight ∨ (entry.isMature s.blockTime ∧ ¬ entry.onHold) then
    pure acc
  else do
    let slashAmount := slashAmountOf slashFactor entry.initialBalance
    let following ← slashFollowingUnbonding red infractionHeight slashAmount
    let counted :=
      { acc with
          totalSlashAmount := acc.totalSlashAmount + slashAmount
          notBondedBurnedAmount := acc.notBondedBurnedAmount + following.2 }
    let sharesToUnbond := Dec.mul slashFactor entry.sharesDst
    (if sharesToUnbond = 0 ∨ following.1 = 0 then pure counted
    else slashMovedDelegation K red counted sharesToUnbond))

def slashRedelegation (red : Redelegation) (infractionHeight : Int) (slashFactor : Int) :
    StakingM φ σ Int := do
  let totals ← foldOver (slashRedelegationEntry K red infractionHeight slashFactor) red.entries
    ⟨0, 0, 0⟩
  burnBondedTokens totals.bondedBurnedAmount
  burnNotBondedTokens totals.notBondedBurnedAmount
  pure totals.totalSlashAmount

/-! ## Slash -/

/-- Slash the unbonding delegations and redelegations that contributed to a past
infraction and return what is left to take from the validator. -/
def slashPastStake (operator : Address) (infractionHeight : Int) (slashFactor : Int)
    (slashAmount : Int) : StakingM φ σ Int := do
  let s ← stakingState
  let afterUnbonding ← foldOver
    (fun remaining ubd => do
      let slashed ← slashUnbondingDelegation ubd infractionHeight slashFactor
      pure (remaining - slashed))
    (s.getUnbondingDelegationsFromValidator operator) slashAmount
  let s ← stakingState
  foldOver
    (fun remaining red => do
      let slashed ← slashRedelegation K red infractionHeight slashFactor
      pure (remaining - slashed))
    (s.getRedelegationsFromSrcValidator operator) afterUnbonding

/-- The share of its tokens a validator loses, rounded up and at most one. -/
def effectiveFraction (tokensToBurn tokens : Int) : Int :=
  min (Dec.quoRoundUp (Dec.ofInt tokensToBurn) (Dec.ofInt tokens)) Dec.one

def slashValidatorTokens (validator : Validator) (tokensToBurn : Int) : StakingM φ σ Unit := do
  whenever (0 < validator.tokens)
    (ignoreError (external fun s =>
      K.beforeValidatorSlashed s validator.operatorAddress
        (effectiveFraction tokensToBurn validator.tokens)))
  let reduced ← removeValidatorTokens validator tokensToBurn
  (if reduced.isBonded then burnBondedTokens tokensToBurn else burnNotBondedTokens tokensToBurn)

def slash (consAddr : Address) (infractionHeight power : Int) (slashFactor : Int) :
    StakingM φ σ Int := do
  failIf (slashFactor < 0) (.message "attempted to slash with a negative slash factor")
  let slashAmount := Dec.truncateInt
    (Dec.mul (Dec.ofInt (tokensFromConsensusPower power)) slashFactor)
  let s ← stakingState
  match getValidatorByConsAddr s consAddr with
  | none => pure 0
  | some validator => do
    failIf validator.isUnbonded (.message "should not be slashing unbonded validator")
    ignoreError (external fun s => K.beforeValidatorModified s validator.operatorAddress)
    failIf (s.blockHeight < infractionHeight)
      (.message "impossible attempt to slash future infraction")
    let remaining ←
      (if infractionHeight < s.blockHeight then
        slashPastStake K validator.operatorAddress infractionHeight slashFactor slashAmount
      else pure slashAmount)
    let tokensToBurn := max (min remaining validator.tokens) 0
    whenever (tokensToBurn ≠ 0) (slashValidatorTokens K validator tokensToBurn)
    pure tokensToBurn

def jail (consAddr : Address) : StakingM φ σ Unit := do
  let validator ← mustGetValidatorByConsAddr consAddr
  jailValidator validator

def unjail (consAddr : Address) : StakingM φ σ Unit := do
  let validator ← mustGetValidatorByConsAddr consAddr
  unjailValidator validator

end Keeper

end AtomOneSdk.Staking
