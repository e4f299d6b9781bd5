import AtomOneSdk.Lib.Action
import AtomOneSdk.Staking.Types

/-!
Contract: the state the staking keeper works on and the other modules it calls.

Owns: every store prefix that a modelled keeper function reads or writes, as one
record; the two pool balances; the block header; the hooks and expected keepers
as actions on an arbitrary external state; and the action monad of the keeper.

Does **not** own: what the other modules do. A hook sees the staking state of the
moment it is called and changes only the external state.
-/

namespace AtomOneSdk.Staking

open Lib

/-! ## Keys and records of the staking store -/

/-- Key of the power index: power, address length, inverted address bytes. -/
abbrev PowerKey := Pair Int (Pair Nat Address)

/-- `GetValidatorsByPowerIndexKey`. -/
def powerIndexKey (v : Validator) : PowerKey :=
  ⟨tokensToConsensusPower v.tokens,
    ⟨v.operatorAddress.length, v.operatorAddress.map Fin.rev⟩⟩

structure ConsPubKeyRotationHistory where
  operatorAddress : Address
  oldConsPubkey : PubKey
  newConsPubkey : PubKey
  height : Int
  fee : Coin
deriving DecidableEq, Repr

/-- The record an unbonding id points at. -/
inductive UnbondingOp where
  | unbondingDelegation (delegator validator : Address)
  | redelegation (delegator source destination : Address)
  | validatorUnbonding (validator : Address)
deriving DecidableEq, Repr

/-- One entry of the list handed to CometBFT. -/
structure ValidatorUpdate where
  pubKey : PubKey
  power : Int
deriving DecidableEq, Repr

/-- What a run leaves on record for its specification: the removals whose hook
error went to the logger, and the stake and payout of every unbonding. No keeper
function reads it. -/
inductive Note where
  | removalHookFailed (validator : Address)
  | unbonded (tokens delegatorShares shares payout : Int)
deriving DecidableEq, Repr

structure StakingState where
  params : Params
  validators : Store Address Validator
  validatorByConsAddr : Store Address Address
  validatorsByPowerIndex : Store PowerKey Address
  lastValidatorPower : Store Address Int
  lastTotalPower : Int
  delegations : Store (Pair Address Address) Delegation
  unbondingDelegations : Store (Pair Address Address) UnbondingDelegation
  ubdByValIndex : Store (Pair Address Address) Unit
  redelegations : Store (Pair Address (Pair Address Address)) Redelegation
  redByValSrcIndex : Store (Pair Address (Pair Address Address)) Unit
  redByValDstIndex : Store (Pair Address (Pair Address Address)) Unit
  ubdQueue : Store Time (List (Address × Address))
  redelegationQueue : Store Time (List (Address × Address × Address))
  validatorQueue : Store (Pair Time Int) (List Address)
  unbondingId : Nat
  unbondingIndex : Store Nat UnbondingOp
  unbondingType : Store Nat UnbondingOp
  rotationHistory : Store (Pair Address Int) ConsPubKeyRotationHistory
  blockRotationHistory : Store (Pair Int Address) ConsPubKeyRotationHistory
  rotationIndex : Store (Pair Address Time) Unit
  rotationQueue : Store Time (List Address)
  oldToNewConsAddr : Store Address Address
  consAddrToIdentifier : Store Address Address
  validatorUpdates : List ValidatorUpdate
  bondedPool : Store Denom Int
  notBondedPool : Store Denom Int
  blockHeight : Int
  blockTime : Time
  notes : List Note
deriving DecidableEq

def StakingState.empty (params : Params) (blockHeight : Int) (blockTime : Time) :
    StakingState where
  params := params
  validators := ∅
  validatorByConsAddr := ∅
  validatorsByPowerIndex := ∅
  lastValidatorPower := ∅
  lastTotalPower := 0
  delegations := ∅
  unbondingDelegations := ∅
  ubdByValIndex := ∅
  redelegations := ∅
  redByValSrcIndex := ∅
  redByValDstIndex := ∅
  ubdQueue := ∅
  redelegationQueue := ∅
  validatorQueue := ∅
  unbondingId := 0
  unbondingIndex := ∅
  unbondingType := ∅
  rotationHistory := ∅
  blockRotationHistory := ∅
  rotationIndex := ∅
  rotationQueue := ∅
  oldToNewConsAddr := ∅
  consAddrToIdentifier := ∅
  validatorUpdates := []
  bondedPool := ∅
  notBondedPool := ∅
  blockHeight := blockHeight
  blockTime := blockTime
  notes := []

def StakingState.note (s : StakingState) (note : Note) : StakingState :=
  { s with notes := note :: s.notes }

/-- Balance of one denomination in a pool account. -/
def balanceOf (pool : Store Denom Int) (denom : Denom) : Int :=
  (pool.get? denom).getD 0

/-! ## Other modules -/

/-- `StakingHooks`: what other modules do when staking notifies them. -/
structure Hooks (φ σ : Type) where
  afterValidatorCreated : StakingState → Address → Action φ σ Unit
  beforeValidatorModified : StakingState → Address → Action φ σ Unit
  afterValidatorRemoved : StakingState → Address → Address → Action φ σ Unit
  afterValidatorBonded : StakingState → Address → Address → Action φ σ Unit
  afterValidatorBeginUnbonding : StakingState → Address → Address → Action φ σ Unit
  beforeDelegationCreated : StakingState → Address → Address → Action φ σ Unit
  beforeDelegationSharesModified : StakingState → Address → Address → Action φ σ Unit
  beforeDelegationRemoved : StakingState → Address → Address → Action φ σ Unit
  afterDelegationModified : StakingState → Address → Address → Action φ σ Unit
  beforeValidatorSlashed : StakingState → Address → Int → Action φ σ Unit
  afterUnbondingInitiated : StakingState → Nat → Action φ σ Unit
  beforeConsensusPubKeyRotation : StakingState → Address → PubKey → PubKey → Action φ σ Unit
  afterConsensusPubKeyUpdate : StakingState → PubKey → PubKey → Coin → Action φ σ Unit

/-- What the staking keeper is built on: the hooks, the account side of bank
transfers into and out of the pools, the bank's send restriction on transfers
between the pools, the distribution keeper's `FundCommunityPool`, the address
derivation of consensus keys and the key types of the consensus parameters. -/
structure Keepers (φ σ : Type) extends Hooks φ σ where
  delegateCoins : StakingState → Address → Coin → Action φ σ Unit
  undelegateCoins : StakingState → Address → Coin → Action φ σ Unit
  sendRestriction : StakingState → Coin → Action φ σ Unit
  fundCommunityPool : StakingState → Coin → Address → Action φ σ Unit
  consAddress : PubKey → Address
  pubKeyTypes : Option (List KeyType)

/-- Staking state together with the state of everything else. -/
structure World (σ : Type) where
  staking : StakingState
  ext : σ

/-! ## The keeper monad -/

/-- Keeper code: it reads and writes the world and may stop. -/
abbrev StakingM (φ σ α : Type) := Action (Reason φ) (World σ) α

section Monad

variable {φ σ α : Type}

def stakingState : StakingM φ σ StakingState := do
  let world ← get
  pure world.staking

def modifyStaking (f : StakingState → StakingState) : StakingM φ σ Unit :=
  modify fun world => { world with staking := f world.staking }

def external (call : StakingState → Action φ σ α) : StakingM φ σ α := fun world =>
  Action.zoom World.ext (fun state next => { state with ext := next }) Reason.hook
    (call world.staking) world

variable {world : World σ} {stops : Fault (Reason φ) → World σ → Prop}

open Action

@[simp] theorem post_stakingState {holds : StakingState → World σ → Prop} :
    Post (stakingState : StakingM φ σ StakingState) world holds stops
      ↔ holds world.staking world := Iff.rfl

@[simp] theorem post_modifyStaking {holds : Unit → World σ → Prop}
    {f : StakingState → StakingState} :
    Post (modifyStaking f : StakingM φ σ Unit) world holds stops
      ↔ holds () { world with staking := f world.staking } := Iff.rfl

/-- The rules of the plain staking actions, given to `simp only` together. -/
theorem staking_rules :
    type_of% @post_rules ∧ type_of% @post_stakingState ∧ type_of% @post_modifyStaking :=
  ⟨@post_rules, @post_stakingState, @post_modifyStaking⟩

@[simp] theorem post_external {holds : α → World σ → Prop} {call : StakingState → Action φ σ α} :
    Post (external call) world holds stops
      ↔ Post (call world.staking) world.ext
          (fun value next => holds value { world with ext := next })
          (fun fault next => stops (fault.map .hook) { world with ext := next }) :=
  post_zoom

end Monad

end AtomOneSdk.Staking
