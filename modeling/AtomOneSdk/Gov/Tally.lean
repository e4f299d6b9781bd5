import AtomOneSdk.Gov.Keeper

/-!
Contract: counting the votes on a proposal (`keeper/tally.go`, `types/v1/tally.go`).

Owns: the walk over the votes with the deductions from governors it accumulates, the
governors that are counted, their remaining voting power, and the tally over any
arithmetic: the code's decimals, or exact fractions.

Does **not** own: quorum and thresholds. Maps keyed by address are stores; the sums over
them do not depend on the order in which a map is ranged over.
-/

namespace AtomOneSdk.Gov

open Lib Lib.Action
open Staking (Address StakingState Delegation Validator)

/-! ## Arithmetic -/

/-- How shares of a validator become voting power, and the part of a voting power that
goes to a weighted option. -/
structure Arithmetic (P : Type) [AddCommGroup P] where
  quotient : Int → Int → Int → P
  part : P → Int → P
  part_zero : ∀ weight, part 0 weight = 0

/-- The code's arithmetic: decimals rounded at the eighteenth digit. -/
def decimals : Arithmetic Int where
  quotient := fun shares bondedTokens delegatorShares =>
    Dec.quo (Dec.mulInt shares bondedTokens) delegatorShares
  part := Dec.mul
  part_zero := by
    intro weight
    simp [Dec.mul, roundHalfEven, roundHalfEvenPos]

/-- The same tally with exact fractions, in tokens. -/
def fractions : Arithmetic ℚ where
  quotient := fun shares bondedTokens delegatorShares =>
    (shares : ℚ) * bondedTokens / delegatorShares
  part := fun power weight => power * weight / Dec.one
  part_zero := by simp

/-! ## Governors met while counting -/

structure GovernorGovInfo where
  address : Address
  valShares : Store Address Int
  valSharesDeductions : Store Address Int
  vote : List WeightedVoteOption
deriving DecidableEq

def newGovernorGovInfo (address : Address) (valShares : List GovernorValShares)
    (options : List WeightedVoteOption) : GovernorGovInfo where
  address := address
  valShares := valShares.foldl (fun shares valShare =>
    shares.set valShare.validatorAddress valShare.shares) ∅
  valSharesDeductions := valShares.foldl (fun deductions valShare =>
    deductions.set valShare.validatorAddress 0) ∅
  vote := options

/-- A governor with no shares on the validator has nothing to deduct. -/
def GovernorGovInfo.deduct (governor : GovernorGovInfo) (valAddr : Address) (shares : Int) :
    GovernorGovInfo :=
  match governor.valSharesDeductions.get? valAddr with
  | none => governor
  | some deduction =>
    { governor with
        valSharesDeductions := governor.valSharesDeductions.set valAddr (deduction + shares) }

/-- The records of `ValidatorSharesByGovernor` with a governor's prefix. -/
def valSharesOf (g : GovState) (govAddr : Address) : List GovernorValShares :=
  (g.validatorSharesByGovernor.entries.filter fun entry => entry.1.fst = govAddr).map Prod.snd

/-- What is known of a voter's governor, with the vote if the voter is the governor. -/
def governorInfo (g : GovState) (allGovernors : Store Address GovernorGovInfo) (vote : Vote)
    (govAddr : Address) : GovernorGovInfo :=
  let governor := (allGovernors.get? govAddr).getD
    (newGovernorGovInfo govAddr (valSharesOf g govAddr) [])
  if govAddr = vote.voter then { governor with vote := vote.options } else governor

/-- The delegation of a voter is deducted from what its governor stands for. -/
def deductFromGovernor (governor : Option Address) (allGovernors : Store Address GovernorGovInfo)
    (delegation : Delegation) : Store Address GovernorGovInfo :=
  match governor with
  | none => allGovernors
  | some govAddr =>
    match allGovernors.get? govAddr with
    | none => allGovernors
    | some info =>
      allGovernors.set govAddr (info.deduct delegation.validatorAddress delegation.shares)

/-! ## Counting -/

section Count

variable {P : Type} [AddCommGroup P] (A : Arithmetic P)

/-- The running totals; there are results only in a final tally. -/
structure TallyState (P : Type) where
  totalVotingPower : P
  results : Option (VoteOption → P)
  allGovernors : Store Address GovernorGovInfo

/-- Add the parts of a voting power to the options it is spread over. -/
def addToOptions (options : List WeightedVoteOption) (votingPower : P) (results : VoteOption → P) :
    VoteOption → P :=
  options.foldl
    (fun current option =>
      Function.update current option.option
        (current option.option + A.part votingPower option.weight))
    results

def TallyState.count (tally : TallyState P) (options : List WeightedVoteOption) (votingPower : P) :
    TallyState P :=
  { tally with
      totalVotingPower := tally.totalVotingPower + votingPower
      results := tally.results.map (addToOptions A options votingPower) }

/-- Shares times bonded tokens over total shares. -/
def sharesPower (val : Validator) (shares : Int) : GovM P := do
  crashIf (val.delegatorShares = 0) .divisionByZero
  pure (A.quotient shares val.bondedTokens val.delegatorShares)

/-- One delegation of a voter; it is deducted from the voter's governor. -/
def countDelegation (currValidators : Store Address Validator) (governor : Option Address)
    (options : List WeightedVoteOption) (tally : TallyState P) (delegation : Delegation) :
    GovM (TallyState P) :=
  match currValidators.get? delegation.validatorAddress with
  | none => pure (tally.count A options 0)
  | some val => do
    let votingPower ← sharesPower A val delegation.shares
    let allGovernors := deductFromGovernor governor tally.allGovernors delegation
    pure ({ tally with allGovernors := allGovernors }.count A options votingPower)

/-- One vote: its governor is recorded, then every delegation of the voter is counted. -/
def countVote (s : StakingState) (currValidators : Store Address Validator) (isFinal : Bool)
    (tally : TallyState P) (vote : Vote) : GovM (TallyState P) := do
  let g ← get
  let governor := g.governorOf vote.voter
  let allGovernors :=
    match governor with
    | none => tally.allGovernors
    | some govAddr =>
      tally.allGovernors.set govAddr (governorInfo g tally.allGovernors vote govAddr)
  let counted ← foldOver (countDelegation A currValidators governor vote.options)
    (delegationsOf s vote.voter) { tally with allGovernors := allGovernors }
  whenever (isFinal = true)
    (modify fun g => { g with votes := g.votes.delete ⟨vote.proposalId, vote.voter⟩ })
  pure counted

/-- The votes on a proposal, in the order of their voters. -/
def votesOn (g : GovState) (proposalId : Nat) : List Vote :=
  (g.votes.entries.filter fun entry => entry.1.fst = proposalId).map Prod.snd

def countVotes (s : StakingState) (proposalId : Nat) (currValidators : Store Address Validator)
    (isFinal : Bool) : GovM (TallyState P) := do
  let g ← get
  foldOver (countVote A s currValidators isFinal) (votesOn g proposalId)
    { totalVotingPower := 0
      results := if isFinal then some (fun _ => 0) else none
      allGovernors := ∅ }

/-- The governors that voted, are active and meet the minimum self-delegation. -/
def getCurrGovernors (s : StakingState) (allGovernors : Store Address GovernorGovInfo) :
    GovM (List GovernorGovInfo) := do
  let g ← get
  foldOver
    (fun (governors : List GovernorGovInfo) (info : GovernorGovInfo) => do
      -- the error of the lookup is dropped; the empty governor is not active
      let governor := (g.governors.get? info.address).getD
        ⟨[], .unspecified, ⟨"", "", "", "", ""⟩, 0⟩
      let meets ← validateGovernorMinSelfDelegation s governor
      pure (if meets = true ∧ info.vote ≠ [] then governors ++ [info] else governors))
    (allGovernors.entries.map Prod.snd) []

/-- What is left of a governor's shares after the deductions. -/
def getGovernorVotingPower (currValidators : Store Address Validator)
    (governor : GovernorGovInfo) : GovM P :=
  foldOver
    (fun (votingPower : P) (entry : Address × Int) =>
      match currValidators.get? entry.1 with
      | none => pure votingPower
      | some val => do
        let deduction ← getOrCrash (governor.valSharesDeductions.get? entry.1)
          (.message "invalid memory address or nil pointer dereference")
        let power ← sharesPower A val (entry.2 - deduction)
        pure (votingPower + power))
    governor.valShares.entries 0

def tallyVotes (s : StakingState) (proposalId : Nat) (currValidators : Store Address Validator)
    (isFinal : Bool) : GovM (P × Option (VoteOption → P)) := do
  let counted ← countVotes A s proposalId currValidators isFinal
  let currGovernors ← getCurrGovernors s counted.allGovernors
  let final ← foldOver
    (fun (tally : TallyState P) (governor : GovernorGovInfo) => do
      let votingPower ← getGovernorVotingPower A currValidators governor
      pure (tally.count A governor.vote votingPower))
    currGovernors counted
  pure (final.totalVotingPower, final.results)

end Count

end AtomOneSdk.Gov
