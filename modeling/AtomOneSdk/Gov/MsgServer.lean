import AtomOneSdk.Gov.Keeper
import AtomOneSdk.Staking.MultiHooks
import AtomOneSdk.Staking.Run

/-!
Contract: the governor messages (`keeper/msg_server.go`) and the machine that
interleaves them with staking operations.

Owns: the message handlers with their checks in order, gov's place among the staking
hooks, and the operations of a run.

Does **not** own: bech32 decoding and events. The other modules behind the hooks are
arbitrary.
-/

namespace AtomOneSdk.Gov

open Lib Lib.Action
open Staking (Address Time StakingState Delegation Validator PubKey KeyType Keepers World
  StakingM)

structure MsgCreateGovernor where
  address : Address
  description : GovernorDescription
deriving DecidableEq, Repr

structure MsgEditGovernor where
  address : Address
  description : GovernorDescription
deriving DecidableEq, Repr

structure MsgUpdateGovernorStatus where
  address : Address
  status : GovernorStatus
deriving DecidableEq, Repr

structure MsgDelegateGovernor where
  delegatorAddress : Address
  governorAddress : Address
deriving DecidableEq, Repr

structure MsgUndelegateGovernor where
  delegatorAddress : Address
deriving DecidableEq, Repr

/-! ## Messages -/

/-- `ValidateBasic` of the two messages that carry a description. -/
def validateDescription (description : GovernorDescription) : GovM Unit :=
  match description.ensureLength with
  | some text => fail (.invalidGovernanceDescription text)
  | none => pure ()

def createGovernor (s : StakingState) (msg : MsgCreateGovernor) : GovM Unit := do
  validateDescription msg.description
  let g ← get
  failIf ((g.governors.get? msg.address).isSome) .governorExists
  let governor := newGovernor msg.address msg.description s.blockTime
  let bondedTokens ← getGovernorBondedTokens s msg.address
  failIf (bondedTokens < g.params.minGovernorSelfDelegation) .insufficientGovernorDelegation
  modify (·.setGovernor governor)
  (if (g.governanceDelegations.get? msg.address).isNone then
    delegateToGovernor s msg.address msg.address
  else redelegateToGovernor s msg.address msg.address)

def editGovernor (msg : MsgEditGovernor) : GovM Unit := do
  validateDescription msg.description
  let g ← get
  let governor ← getOrFail (g.governors.get? msg.address) .governorNotFound
  let description := governor.description.updateDescription msg.description
  (match description.ensureLength with
    | some text => fail (.invalidRequest text)
    | none => pure ())
  modify (·.setGovernor { governor with description := description })

/-- The self-delegation of a governor that becomes active, made or moved if needed. -/
def selfDelegate (s : StakingState) (govAddr : Address) : GovM Unit := do
  let g ← get
  match g.governorOf govAddr with
  | none => delegateToGovernor s govAddr govAddr
  | some current => whenever (current ≠ govAddr) (redelegateToGovernor s govAddr govAddr)

def updateGovernorStatus (s : StakingState) (msg : MsgUpdateGovernorStatus) : GovM Unit := do
  let g ← get
  let governor ← getOrFail (g.governors.get? msg.address) .governorNotFound
  failIf (¬ msg.status.isValid) .invalidGovernorStatus
  failIf (governor.status = msg.status) .governorStatusEqual
  failIf (s.blockTime < governor.lastStatusChangeTime + g.params.governorStatusChangePeriod)
    .governorStatusChangePeriod
  let updated := { governor with status := msg.status, lastStatusChangeTime := s.blockTime }
  whenever updated.isActive do
    let bondedTokens ← getGovernorBondedTokens s msg.address
    failIf (bondedTokens < g.params.minGovernorSelfDelegation) .insufficientGovernorDelegation
  modify (·.setGovernor updated)
  (if updated.isActive then do
    selfDelegate s msg.address
    setActiveGovernorIndexEntries s msg.address
  else removeActiveGovernorIndexEntries s msg.address)

def delegateGovernor (s : StakingState) (msg : MsgDelegateGovernor) : GovM Unit := do
  let g ← get
  failIf (isActiveGovernor g msg.delegatorAddress) .delegatorIsGovernor
  let governor ← getOrFail (g.governors.get? msg.governorAddress) .governorNotFound
  failIf (¬ governor.isActive) .inactiveGovernor
  failIf (g.governorOf msg.delegatorAddress = some msg.governorAddress) .governanceDelegationExists
  (if (g.governanceDelegations.get? msg.delegatorAddress).isSome then
    redelegateToGovernor s msg.delegatorAddress msg.governorAddress
  else delegateToGovernor s msg.delegatorAddress msg.governorAddress)

/-- An inactive governor without delegations is removed. -/
def undelegateGovernor (s : StakingState) (msg : MsgUndelegateGovernor) : GovM Unit := do
  let g ← get
  let delegation ← getOrFail (g.governanceDelegations.get? msg.delegatorAddress)
    .governanceDelegationNotFound
  whenever (isActiveGovernor g msg.delegatorAddress) do
    crashIf (delegation.governorAddress ≠ msg.delegatorAddress)
      (.message
        "inconsistent state: active governor has a governance delegation to another governor")
    fail .delegatorIsGovernor
  undelegateFromGovernor s msg.delegatorAddress
  let now ← get
  let governor ← getOrCrash (now.governors.get? delegation.governorAddress)
    (.message "inconsistent state: governance delegation to non-existing governor")
  whenever (¬ governor.isActive
      ∧ (now.governanceDelegationsByGovernor.keys.filter
          fun key => key.fst = governor.governorAddress) = [])
    (modify fun g => { g with governors := g.governors.delete governor.governorAddress })

/-! ## Gov behind the staking hooks -/

/-- Gov's hooks; it has no part in coin transfers. -/
def govKeepers (consAddress : PubKey → Address) (pubKeyTypes : Option (List KeyType)) :
    Keepers GovReason GovState where
  afterValidatorCreated := fun _ _ => pure ()
  beforeValidatorModified := fun _ _ => pure ()
  afterValidatorRemoved := fun _ _ _ => pure ()
  afterValidatorBonded := fun _ _ _ => pure ()
  afterValidatorBeginUnbonding := fun s _ valAddr => afterValidatorBeginUnbonding s valAddr
  beforeDelegationCreated := fun _ _ _ => pure ()
  beforeDelegationSharesModified := beforeDelegationSharesModified
  beforeDelegationRemoved := beforeDelegationRemoved
  afterDelegationModified := afterDelegationModified
  beforeValidatorSlashed := beforeValidatorSlashed
  afterUnbondingInitiated := fun _ _ => pure ()
  beforeConsensusPubKeyRotation := fun _ _ _ _ => pure ()
  afterConsensusPubKeyUpdate := fun _ _ _ _ => pure ()
  delegateCoins := fun _ _ _ => pure ()
  undelegateCoins := fun _ _ _ => pure ()
  sendRestriction := fun _ _ => pure ()
  fundCommunityPool := fun _ _ _ => pure ()
  consAddress := consAddress
  pubKeyTypes := pubKeyTypes

/-- Operations of a run: anything staking does, and the governor messages. -/
inductive Op where
  | staking (op : Staking.Op)
  | createGovernor (msg : MsgCreateGovernor)
  | editGovernor (msg : MsgEditGovernor)
  | updateGovernorStatus (msg : MsgUpdateGovernorStatus)
  | delegateGovernor (msg : MsgDelegateGovernor)
  | undelegateGovernor (msg : MsgUndelegateGovernor)
deriving DecidableEq, Repr

/-- What a governor message does to the gov state. -/
def Op.handle (s : StakingState) : Op → GovM Unit
  | .staking _ => pure ()
  | .createGovernor msg => Gov.createGovernor s msg
  | .editGovernor msg => Gov.editGovernor msg
  | .updateGovernorStatus msg => Gov.updateGovernorStatus s msg
  | .delegateGovernor msg => Gov.delegateGovernor s msg
  | .undelegateGovernor msg => Gov.undelegateGovernor s msg

section System

variable {φ ρ : Type} (before after : Keepers φ ρ) (consAddress : PubKey → Address)
  (pubKeyTypes : Option (List KeyType))

/-- Staking over gov's hooks and those of the modules registered before and after it. -/
abbrev systemKeepers : Keepers (φ ⊕ GovReason) (ρ × GovState) :=
  Keepers.between before after (govKeepers consAddress pubKeyTypes)

def Op.exec (op : Op) : StakingM (φ ⊕ GovReason) (ρ × GovState) Unit :=
  match op with
  | .staking op => op.exec (systemKeepers before after consAddress pubKeyTypes)
  | message => Staking.external fun s => Staking.onModule (message.handle s)

end System

end AtomOneSdk.Gov
