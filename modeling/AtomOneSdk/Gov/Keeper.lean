import AtomOneSdk.Gov.State

/-!
Contract: governance delegations and governors (`keeper/delegation.go`,
`keeper/governor.go`) and the staking hooks of the module (`keeper/staking_hooks.go`).

Owns: the writes to the governor collections, the share bookkeeping over an account's
staking delegations, the minimum self-delegation of a governor, and what the module
does when staking notifies it.

Does **not** own: messages and tallies.
-/

namespace AtomOneSdk.Gov

open Lib Lib.Action
open Staking (Address Time StakingState Delegation Validator)

/-! ## Collections -/

namespace GovState

def setGovernor (g : GovState) (governor : Governor) : GovState :=
  { g with governors := g.governors.set governor.governorAddress governor }

def setGovernanceDelegation (g : GovState) (delegation : GovernanceDelegation) : GovState :=
  { g with
      governanceDelegations := g.governanceDelegations.set delegation.delegatorAddress delegation
      governanceDelegationsByGovernor := g.governanceDelegationsByGovernor.set
        ⟨delegation.governorAddress, delegation.delegatorAddress⟩ delegation }

/-- Remove a governance delegation from both collections, if it exists. -/
def removeGovernanceDelegation (g : GovState) (delAddr : Address) : GovState :=
  match g.governanceDelegations.get? delAddr with
  | none => g
  | some delegation =>
    { g with
        governanceDelegations := g.governanceDelegations.delete delAddr
        governanceDelegationsByGovernor := g.governanceDelegationsByGovernor.delete
          ⟨delegation.governorAddress, delAddr⟩ }

def setIndexEntry (g : GovState) (valAddr govAddr : Address) : GovState :=
  { g with
      activeGovernorsByDelegatedValidator :=
        g.activeGovernorsByDelegatedValidator.set ⟨valAddr, govAddr⟩ () }

def removeIndexEntry (g : GovState) (valAddr govAddr : Address) : GovState :=
  { g with
      activeGovernorsByDelegatedValidator :=
        g.activeGovernorsByDelegatedValidator.delete ⟨valAddr, govAddr⟩ }

end GovState

/-! ## Shares of governors -/

def increaseGovernorShares (governorAddr validatorAddr : Address) (shares : Int) : GovM Unit :=
  modify fun g =>
    let valShares : GovernorValShares :=
      match g.validatorSharesByGovernor.get? ⟨governorAddr, validatorAddr⟩ with
      | none => ⟨governorAddr, validatorAddr, shares⟩
      | some stored => { stored with shares := stored.shares + shares }
    { g with
        validatorSharesByGovernor :=
          g.validatorSharesByGovernor.set ⟨governorAddr, validatorAddr⟩ valShares }

def decreaseGovernorShares (governorAddr validatorAddr : Address) (shares : Int) : GovM Unit := do
  let g ← get
  let share ← getOrCrash (g.validatorSharesByGovernor.get? ⟨governorAddr, validatorAddr⟩)
    (.message "cannot decrease shares for a non-existent governor delegation")
  let left := share.shares - shares
  crashIf (left < 0) (.message "negative shares")
  modify fun g =>
    { g with
        validatorSharesByGovernor :=
          if left = 0 then g.validatorSharesByGovernor.delete ⟨governorAddr, validatorAddr⟩
          else g.validatorSharesByGovernor.set ⟨governorAddr, validatorAddr⟩
            { share with shares := left } }

/-! ## Governance delegations -/

/-- Take all shares of a delegator from its governor, then forget the delegation. A
self-delegation also leaves the index of active governors. -/
def undelegateFromGovernor (s : StakingState) (delegatorAddr : Address) : GovM Unit := do
  let g ← get
  let delegation ← getOrFail (g.governanceDelegations.get? delegatorAddr)
    .governanceDelegationNotFound
  let govAddr := delegation.governorAddress
  forEach
    (fun (d : Delegation) => do
      decreaseGovernorShares govAddr d.validatorAddress d.shares
      whenever (delegatorAddr = govAddr)
        (modify (·.removeIndexEntry d.validatorAddress govAddr)))
    (delegationsOf s delegatorAddr)
  modify (·.removeGovernanceDelegation delegatorAddr)

/-- The target governor must be active. -/
def delegateToGovernor (s : StakingState) (delegatorAddr governorAddr : Address) : GovM Unit := do
  modify (·.setGovernanceDelegation ⟨delegatorAddr, governorAddr⟩)
  forEach
    (fun (d : Delegation) => do
      increaseGovernorShares governorAddr d.validatorAddress d.shares
      whenever (delegatorAddr = governorAddr)
        (modify (·.setIndexEntry d.validatorAddress governorAddr)))
    (delegationsOf s delegatorAddr)

def redelegateToGovernor (s : StakingState) (delegatorAddr dstGovernorAddr : Address) :
    GovM Unit := do
  undelegateFromGovernor s delegatorAddr
  delegateToGovernor s delegatorAddr dstGovernorAddr

def setActiveGovernorIndexEntries (s : StakingState) (govAddr : Address) : GovM Unit :=
  forEach (fun (d : Delegation) => modify (·.setIndexEntry d.validatorAddress govAddr))
    (delegationsOf s govAddr)

def removeActiveGovernorIndexEntries (s : StakingState) (govAddr : Address) : GovM Unit :=
  forEach (fun (d : Delegation) => modify (·.removeIndexEntry d.validatorAddress govAddr))
    (delegationsOf s govAddr)

/-! ## Minimum self-delegation -/

/-- Bonded tokens behind an account's delegations, except those to the excluded
validators. -/
def getGovernorBondedTokensWithExclusions (s : StakingState) (govAddr : Address)
    (excludeValAddrs : List Address) : GovM Int :=
  foldOver
    (fun (bondedTokens : Int) (d : Delegation) =>
      if d.validatorAddress ∈ excludeValAddrs then pure bondedTokens
      else do
        let validator ← getOrCrash (s.validators.get? d.validatorAddress)
          (.message "validator does not exist")
        crashIf (validator.delegatorShares = 0) .divisionByZero
        pure (bondedTokens + Dec.truncateInt
          (Dec.quo (Dec.mulInt d.shares validator.bondedTokens) validator.delegatorShares)))
    (delegationsOf s govAddr) 0

def getGovernorBondedTokens (s : StakingState) (govAddr : Address) : GovM Int :=
  getGovernorBondedTokensWithExclusions s govAddr []

def validateGovernorMinSelfDelegationWithTotalBonded (governor : Governor) (totalBonded : Int) :
    GovM Bool := do
  let g ← get
  (if ¬ governor.isActive then pure false
  else do
    crashIf (g.governorOf governor.governorAddress ≠ some governor.governorAddress)
      (.message "active governor without governance self-delegation")
    pure (decide (g.params.minGovernorSelfDelegation ≤ totalBonded)))

def validateGovernorMinSelfDelegationWithExclusions (s : StakingState) (governor : Governor)
    (excludeValAddrs : List Address) : GovM Bool :=
  if ¬ governor.isActive then pure false
  else do
    let bondedTokens ←
      getGovernorBondedTokensWithExclusions s governor.governorAddress excludeValAddrs
    validateGovernorMinSelfDelegationWithTotalBonded governor bondedTokens

def validateGovernorMinSelfDelegation (s : StakingState) (governor : Governor) : GovM Bool :=
  validateGovernorMinSelfDelegationWithExclusions s governor []

/-! ## Staking hooks -/

def setGovernorInactive (s : StakingState) (governor : Governor) : GovM Unit := do
  modify (·.setGovernor
    { governor with status := .inactive, lastStatusChangeTime := s.blockTime })
  removeActiveGovernorIndexEntries s governor.governorAddress

/-- All shares of the delegation leave the governor; what remains is added back by
`afterDelegationModified`. -/
def beforeDelegationSharesModified (s : StakingState) (delAddr valAddr : Address) :
    GovM Unit := do
  let g ← get
  match g.governorOf delAddr with
  | none => pure ()
  | some govAddr => do
    -- the error of the lookup is ignored, and the empty record has no shares to subtract
    let delegation ← getOrCrash (s.delegations.get? ⟨delAddr, valAddr⟩) .noDelegation
    decreaseGovernorShares govAddr valAddr delegation.shares

def afterDelegationModified (s : StakingState) (delAddr valAddr : Address) : GovM Unit := do
  let g ← get
  match g.governorOf delAddr with
  | none => pure ()
  | some govAddr => do
    let delegation ← getOrFail (s.delegations.get? ⟨delAddr, valAddr⟩) .noDelegation
    increaseGovernorShares govAddr valAddr delegation.shares
    whenever (delAddr = govAddr) do
      let governor ← getOrFail (g.governors.get? delAddr) .notFound
      whenever governor.isActive do
        crashIf (governor.governorAddress ≠ govAddr)
          (.message "active governor delegating to another governor")
        let meets ← validateGovernorMinSelfDelegation s governor
        (if meets then modify (·.setIndexEntry valAddr delAddr)
        else setGovernorInactive s governor)

def beforeDelegationRemoved (s : StakingState) (delAddr valAddr : Address) : GovM Unit := do
  let g ← get
  match g.governors.get? delAddr with
  | none => pure ()
  | some governor => do
    modify (·.removeIndexEntry valAddr delAddr)
    whenever governor.isActive do
      let govAddr ← getOrCrash (g.governorOf delAddr)
        (.message "active governor without governance self-delegation")
      crashIf (governor.governorAddress ≠ govAddr)
        (.message "active governor delegating to another governor")
      let meets ← validateGovernorMinSelfDelegationWithExclusions s governor [valAddr]
      whenever (meets = false) (setGovernorInactive s governor)

/-- Visit the active governors that delegate to a validator and collect those for
which the visit returns true. -/
def collectGovernorsForValidator (valAddr : Address) (visit : Governor → GovM Bool) :
    GovM (List Governor) := do
  let g ← get
  foldOver
    (fun (found : List Governor) (key : Pair Address Address) => do
      let governor ← getOrCrash (g.governors.get? key.snd)
        (.message "ActiveGovernorsByDelegatedValidator references a non-existent governor")
      (if ¬ governor.isActive then pure found
      else do
        let collected ← visit governor
        pure (if collected then found ++ [governor] else found)))
    (g.activeGovernorsByDelegatedValidator.keys.filter fun key => key.fst = valAddr) []

/-- Whether a slash would take a governor below the minimum. -/
def belowMinimumAfterSlash (s : StakingState) (valAddr : Address) (validator : Validator)
    (fraction : Int) (governor : Governor) : GovM Bool := do
  let delegation ← getOrCrash (s.delegations.get? ⟨governor.governorAddress, valAddr⟩)
    (.message "active governor to validator index out of sync with staking delegation")
  let totalBonded ← getGovernorBondedTokens s governor.governorAddress
  let delBonded :=
    Dec.quo (Dec.mulInt delegation.shares validator.bondedTokens) validator.delegatorShares
  let slashImpact := Dec.truncateInt (Dec.mul delBonded fraction)
  let meets ← validateGovernorMinSelfDelegationWithTotalBonded governor (totalBonded - slashImpact)
  pure (!meets)

def beforeValidatorSlashed (s : StakingState) (valAddr : Address) (fraction : Int) : GovM Unit :=
  match s.validators.get? valAddr with
  | none => pure ()
  | some validator =>
    whenever (validator.delegatorShares ≠ 0) do
      let toDeactivate ← collectGovernorsForValidator valAddr
        (belowMinimumAfterSlash s valAddr validator fraction)
      forEach (setGovernorInactive s) toDeactivate

def afterValidatorBeginUnbonding (s : StakingState) (valAddr : Address) : GovM Unit := do
  let toDeactivate ← collectGovernorsForValidator valAddr fun governor => do
    let meets ← validateGovernorMinSelfDelegation s governor
    pure (!meets)
  forEach (setGovernorInactive s) toDeactivate

end AtomOneSdk.Gov
