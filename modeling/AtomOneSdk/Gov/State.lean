import AtomOneSdk.Staking.State

/-!
Contract: the data types and the state of the governor part of `x/gov`.

Owns: governors, governance delegations, the shares a governor stands for, votes, the
collections they are kept in and the reasons for which a gov operation stops.

Does **not** own: proposals, deposits and the other parameters of the module. Addresses
are decoded bytes: a governor's address has the bytes of its account.
-/

namespace AtomOneSdk.Gov

open Lib
open Staking (Address Time StakingState Delegation Validator Description)

/-- Reasons for which a gov operation returns an error or panics. -/
inductive GovReason where
  | governorExists
  | governorNotFound
  | invalidGovernorStatus
  | governanceDelegationExists
  | governanceDelegationNotFound
  | invalidGovernanceDescription (text : String)
  | delegatorIsGovernor
  | governorStatusEqual
  | governorStatusChangePeriod
  | insufficientGovernorDelegation
  | inactiveGovernor
  | invalidRequest (text : String)
  | notFound
  | noDelegation
  | divisionByZero
  | message (text : String)
deriving DecidableEq, Repr

inductive GovernorStatus where
  | unspecified
  | active
  | inactive
deriving DecidableEq, Repr

def GovernorStatus.isValid (status : GovernorStatus) : Bool :=
  status = .active ∨ status = .inactive

abbrev GovernorDescription := Description

structure Governor where
  governorAddress : Address
  status : GovernorStatus
  description : GovernorDescription
  lastStatusChangeTime : Time
deriving DecidableEq, Repr

def newGovernor (address : Address) (description : GovernorDescription) (creationTime : Time) :
    Governor :=
  ⟨address, .active, description, creationTime⟩

def Governor.isActive (governor : Governor) : Bool := governor.status = .active

structure GovernanceDelegation where
  delegatorAddress : Address
  governorAddress : Address
deriving DecidableEq, Repr

/-- Shares of one validator that a governor stands for. -/
structure GovernorValShares where
  governorAddress : Address
  validatorAddress : Address
  shares : Int
deriving DecidableEq, Repr

inductive VoteOption where
  | yes
  | abstain
  | no
deriving DecidableEq, Repr

structure WeightedVoteOption where
  option : VoteOption
  weight : Int
deriving DecidableEq, Repr

structure Vote where
  proposalId : Nat
  voter : Address
  options : List WeightedVoteOption
deriving DecidableEq, Repr

/-- The parameters that governor operations read. -/
structure GovParams where
  minGovernorSelfDelegation : Int
  governorStatusChangePeriod : Int
deriving DecidableEq, Repr

structure GovState where
  params : GovParams
  governors : Store Address Governor
  governanceDelegations : Store Address GovernanceDelegation
  governanceDelegationsByGovernor : Store (Pair Address Address) GovernanceDelegation
  validatorSharesByGovernor : Store (Pair Address Address) GovernorValShares
  activeGovernorsByDelegatedValidator : Store (Pair Address Address) Unit
  votes : Store (Pair Nat Address) Vote
deriving DecidableEq

def GovState.empty (params : GovParams) : GovState where
  params := params
  governors := ∅
  governanceDelegations := ∅
  governanceDelegationsByGovernor := ∅
  validatorSharesByGovernor := ∅
  activeGovernorsByDelegatedValidator := ∅
  votes := ∅

/-- Gov keeper code; the staking state it may read is an argument. -/
abbrev GovM (α : Type) := Action GovReason GovState α

/-- The staking delegations of an account, in the order `IterateDelegations` meets them. -/
def delegationsOf (s : StakingState) (delAddr : Address) : List Delegation :=
  (s.delegations.entries.filter fun entry => entry.1.fst = delAddr).map Prod.snd

def GovState.governorOf (g : GovState) (delAddr : Address) : Option Address :=
  (g.governanceDelegations.get? delAddr).map GovernanceDelegation.governorAddress

def isActiveGovernor (g : GovState) (addr : Address) : Bool :=
  (g.governors.get? addr).any Governor.isActive

end AtomOneSdk.Gov
