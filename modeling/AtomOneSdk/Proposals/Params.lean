import AtomOneSdk.Lib.Action
import AtomOneSdk.Lib.BoundedDec
import AtomOneSdk.Types.Coins

/-!
Contract: the parameters of proposals and deposits, and their validation.

Owns: `Params` with the two deposit throttlers, and `ValidateBasic` with the texts of its
errors, without the values printed behind them.

Does **not** own: the parsing of decimals. A decimal parameter is what
`LegacyNewDecFromStr` makes of the stored string, nothing where it returns an error.
Durations are in nanoseconds, and nothing stands for a nil pointer.
-/

namespace AtomOneSdk.Proposals

open Lib
open AtomOneSdk.Types
open Staking (Denom Coin)

/-- A `time.Duration` in nanoseconds. -/
abbrev Duration := Int

abbrev DecStr := Option BoundedDec

structure QuorumRange where
  max : DecStr
  min : DecStr
deriving DecidableEq

/-- `MinDepositThrottler` and `MinInitialDepositThrottler`; the target counts the active
proposals, or those in their deposit period. -/
structure Throttler where
  floorValue : Coins
  updatePeriod : Option Duration
  targetProposals : UInt64
  increaseRatio : DecStr
  decreaseRatio : DecStr
  decreaseSensitivityTargetDistance : UInt64
deriving DecidableEq

structure Params where
  minDeposit : Coins
  maxDepositPeriod : Option Duration
  votingPeriod : Option Duration
  quorum : String
  threshold : DecStr
  minInitialDepositRatio : String
  burnVoteQuorum : Bool
  burnProposalDepositPrevote : Bool
  minDepositRatio : DecStr
  constitutionAmendmentQuorum : String
  constitutionAmendmentThreshold : DecStr
  lawQuorum : String
  lawThreshold : DecStr
  quorumTimeout : Option Duration
  maxVotingPeriodExtension : Option Duration
  quorumCheckCount : UInt64
  minDepositThrottler : Option Throttler
  minInitialDepositThrottler : Option Throttler
  burnDepositNoThreshold : DecStr
  quorumRange : Option QuorumRange
  constitutionAmendmentQuorumRange : Option QuorumRange
  lawQuorumRange : Option QuorumRange
  governorStatusChangePeriod : Option Duration
  minGovernorSelfDelegation : Option Int
deriving DecidableEq

def maxDecreaseSensitivityTargetDistanceDepositThrottler : UInt64 := 100

def maxQuorumCheckCount : UInt64 := 1000

def maxDepositThrottlerFloorAmount : Int := 10 ^ 30

/-- `MinVotingPeriod`: 504 hours. -/
def minVotingPeriod : Duration := 504 * 3600 * 1000000000

/-! ## Checks -/

abbrev Check (α : Type) := Except (Fault String) α

namespace Check

def reject (condition : Prop) [Decidable condition] (text : String) : Check Unit :=
  refuseIf condition (.error text)

def deref {α : Type} (pointer : Option α) : Check α :=
  match pointer with
  | some value => pure value
  | none => throw (.panic "nil pointer dereference")

/-- A value that an error text replaces when it is missing. -/
def require {α : Type} (value : Option α) (text : String) : Check α :=
  match value with
  | some value => pure value
  | none => throw (.error text)

variable {α : Type}

theorem reject_ok {condition : Prop} [Decidable condition] {text : String} {done : Unit} :
    reject condition text = .ok done ↔ ¬ condition := refuseIf_eq_ok

theorem require_ok {value : Option α} {text : String} {found : α} :
    require value text = .ok found ↔ value = some found := by
  cases value with
  | none => exact ⟨(nomatch ·), (nomatch ·)⟩
  | some value =>
    constructor
    · intro same
      cases same
      rfl
    · intro same
      cases same
      rfl

end Check

open Check

/-! ## Validation -/

/-- `label` names the floor. -/
def validateDepositThrottlerFloor (label : String) (floor : Coins) : Check Unit := do
  reject (floor = [] ∨ Coins.isValid floor = false) ("invalid " ++ label)
  reject (∃ coin ∈ floor, maxDepositThrottlerFloorAmount < coin.amount)
    (label ++ " amount too large")

def validateRatio (label : String) (ratio : DecStr) : Check Unit := do
  let ratio ← require ratio ("invalid " ++ label)
  reject (ratio.units ≤ 0) (label ++ " must be positive")
  reject (Dec.one ≤ ratio.units) (label ++ " too large")

/-- The checks of one throttler. `label` names the deposit and `target` its target. -/
def validateThrottler (label target : String) (votingPeriod : Duration)
    (throttler : Throttler) : Check Unit := do
  validateDepositThrottlerFloor (label ++ " floor") throttler.floorValue
  let updatePeriod ← require throttler.updatePeriod (label ++ " update period must not be nil")
  reject (updatePeriod ≤ 0) (label ++ " update period must be positive")
  reject (votingPeriod < updatePeriod)
    (label ++ " update period must be less than or equal to the voting period")
  reject (throttler.targetProposals = 0) (label ++ " " ++ target ++ " must be positive")
  reject (throttler.decreaseSensitivityTargetDistance = 0)
    (label ++ " sensitivity target distance must be positive")
  reject (maxDecreaseSensitivityTargetDistanceDepositThrottler
      < throttler.decreaseSensitivityTargetDistance)
    (label ++ " sensitivity target distance must be less than or equal to 100")
  validateRatio (label ++ " increase ratio") throttler.increaseRatio
  validateRatio (label ++ " decrease ratio") throttler.decreaseRatio

def validateQuorum (label : String) (quorum : DecStr) : Check BoundedDec := do
  let quorum ← require quorum ("invalid " ++ label ++ " string")
  reject (quorum.units < 0) (label ++ " must be positive")
  reject (Dec.one < quorum.units) (label ++ " too large")
  pure quorum

def validateQuorumBounds (label : String) (range : QuorumRange) :
    Check (BoundedDec × BoundedDec) := do
  let min ← validateQuorum (label ++ ".min") range.min
  let max ← validateQuorum (label ++ ".max") range.max
  pure (min, max)

/-- The code ranges over the bounds in a map: which of several errors is returned is not
determined. -/
def validateQuorumRanges (p : Params) : Check Unit := do
  let quorumRange ← deref p.quorumRange
  let amendmentRange ← deref p.constitutionAmendmentQuorumRange
  let lawRange ← deref p.lawQuorumRange
  let quorum ← validateQuorumBounds "quorumRange" quorumRange
  let amendment ← validateQuorumBounds "constitutionAmendmentQuorumRange" amendmentRange
  let law ← validateQuorumBounds "lawQuorumRange" lawRange
  reject (quorum.2.units < quorum.1.units)
    "quorum range max must be greater than or equal to min"
  reject (amendment.2.units < amendment.1.units)
    "constitution amendment quorum range max must be greater than or equal to min"
  reject (law.2.units < law.1.units) "law quorum range max must be greater than or equal to min"

/-- A threshold above zero and at most one; `name` stands in the text for a bad string. -/
def validateThreshold (name label : String) (threshold : DecStr) : Check BoundedDec := do
  let threshold ← require threshold ("invalid " ++ name ++ " string")
  reject (threshold.units ≤ 0) (label ++ " must be positive")
  reject (Dec.one < threshold.units) (label ++ " too large")
  pure threshold

/-- The three thresholds, the voting threshold below the others. -/
def validateThresholds (p : Params) : Check (BoundedDec × BoundedDec × BoundedDec) := do
  let threshold ← validateThreshold "threshold" "vote threshold" p.threshold
  let amendmentThreshold ← validateThreshold "constitution amendment threshold"
    "constitution amendment threshold" p.constitutionAmendmentThreshold
  reject (amendmentThreshold.units < threshold.units)
    "constitution amendment threshold must be greater than or equal to governance threshold"
  let lawThreshold ← validateThreshold "law threshold" "law threshold" p.lawThreshold
  reject (lawThreshold.units < threshold.units)
    "law threshold must be greater than or equal to governance threshold"
  reject (amendmentThreshold.units < lawThreshold.units)
    "law threshold must be less than or equal to constitution amendment threshold"
  pure (threshold, amendmentThreshold, lawThreshold)

/-- Quorum checks, also when they are disabled. -/
def validateQuorumChecks (p : Params) (votingPeriod : Duration) : Check Unit := do
  let quorumTimeout ← require p.quorumTimeout "quorum timeout must not be nil"
  reject (quorumTimeout < 0) "quorum timeout must be 0 or greater"
  reject (votingPeriod ≤ quorumTimeout)
    "quorum timeout must be strictly less than the voting period"
  let extension ← require p.maxVotingPeriodExtension "max voting period extension must not be nil"
  reject (extension < votingPeriod - quorumTimeout)
    ("max voting period extension must be greater than or equal to the difference between the "
      ++ "voting period and the quorum timeout")
  reject (maxQuorumCheckCount < p.quorumCheckCount) "quorum check count is too large"
  reject (0 < p.quorumCheckCount
      ∧ (votingPeriod - quorumTimeout).tdiv p.quorumCheckCount.toNat ≤ 0)
    "quorum check interval must be positive"

def validateBurnDepositNoThreshold (p : Params) (threshold amendmentThreshold
    lawThreshold : BoundedDec) : Check Unit := do
  let burnDepositNoThreshold ←
    require p.burnDepositNoThreshold "invalid burnDepositNoThreshold string"
  reject (burnDepositNoThreshold.units < Dec.one - amendmentThreshold.units)
    "burnDepositNoThreshold cannot be lower than 1-amendmentThreshold"
  reject (burnDepositNoThreshold.units < Dec.one - lawThreshold.units)
    "burnDepositNoThreshold cannot be lower than 1-lawThreshold"
  reject (burnDepositNoThreshold.units < Dec.one - threshold.units)
    "burnDepositNoThreshold cannot be lower than 1-threshold"
  reject (Dec.one < burnDepositNoThreshold.units) "burnDepositNoThreshold too large"

def validateGovernorParams (p : Params) : Check Unit := do
  let changePeriod ←
    require p.governorStatusChangePeriod "governor status change period must not be nil"
  reject (changePeriod ≤ 0) "governor status change period must be positive"
  let selfDelegation ←
    require p.minGovernorSelfDelegation "invalid minimum governor self delegation"
  reject (selfDelegation < 0) "minimum governor self delegation must be positive"

/-- The fields that must not be set any more. -/
def validateDeprecated (p : Params) : Check Unit := do
  reject (p.minDeposit ≠ [])
    "manually setting min deposit is deprecated in favor of a dynamic min deposit"
  reject (p.quorum ≠ "") "manually setting quorum is deprecated in favor of a dynamic quorum"
  reject (p.constitutionAmendmentQuorum ≠ "")
    "manually setting constitutionAmendmentQuorum is deprecated in favor of a dynamic quorum"
  reject (p.lawQuorum ≠ "")
    "manually setting lawQuorum is deprecated in favor of a dynamic quorum"

def validateMinDepositRatio (p : Params) : Check Unit := do
  reject (p.minInitialDepositRatio ≠ "")
    ("manually setting min initial deposit ratio is deprecated in favor of a dynamic min "
      ++ "initial deposit")
  let minDepositRatio ← require p.minDepositRatio "invalid minimum deposit ratio of proposal"
  reject (minDepositRatio.units < 0) "minimum deposit ratio of proposal must be positive"
  reject (Dec.one < minDepositRatio.units) "minimum deposit ratio of proposal is too large"

def Params.validateBasic (p : Params) : Check Unit := do
  validateDeprecated p
  let maxDepositPeriod ← require p.maxDepositPeriod "maximum deposit period must not be nil"
  reject (maxDepositPeriod ≤ 0) "maximum deposit period must be positive"
  validateQuorumRanges p
  let (threshold, amendmentThreshold, lawThreshold) ← validateThresholds p
  let votingPeriod ← require p.votingPeriod "voting period must not be nil"
  reject (votingPeriod < minVotingPeriod) "voting period must be at least 504h0m0s"
  validateMinDepositRatio p
  validateQuorumChecks p votingPeriod
  let minDepositThrottler ←
    require p.minDepositThrottler "min deposit throttler must not be nil"
  validateThrottler "minimum deposit" "target active proposals" votingPeriod minDepositThrottler
  let minInitialDepositThrottler ←
    require p.minInitialDepositThrottler "min initial deposit throttler must not be nil"
  validateThrottler "minimum initial deposit" "target proposals" votingPeriod
    minInitialDepositThrottler
  validateBurnDepositNoThreshold p threshold amendmentThreshold lawThreshold
  validateGovernorParams p

end AtomOneSdk.Proposals
