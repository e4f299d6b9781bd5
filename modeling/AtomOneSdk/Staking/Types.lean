import AtomOneSdk.Lib.Decimal
import AtomOneSdk.Lib.Bytes
import AtomOneSdk.Lib.Store

/-!
Contract: the data types of `x/staking/types` and the pure methods on them.

Owns: validators with their share and token arithmetic, commissions and
descriptions with their checks, delegations, unbonding delegations and
redelegations with their entry operations, consensus keys and parameters.

Does **not** own: anything that reads or writes the store. Addresses are decoded
bytes, times and durations are nanoseconds, and amounts are unbounded.
-/

namespace AtomOneSdk.Staking

open Lib

/-! ## Addresses, keys and errors -/

/-- Byte strings, compared as the store and Go compare them. -/
abbrev Bytes := List (Fin 256)

/-- Address bytes. An operator's account and validator address have the same bytes. -/
abbrev Address := Bytes

abbrev Denom := Bytes

/-- Block and completion times, in nanoseconds since the epoch. -/
abbrev Time := Int

/-- Consensus key algorithms that CometBFT accepts. -/
inductive KeyType where
  | ed25519
  | secp256k1
deriving DecidableEq, Repr

/-- A consensus public key. -/
structure PubKey where
  keyType : KeyType
  bytes : Bytes
deriving DecidableEq, Repr

/-- Amount of one denomination. -/
structure Coin where
  denom : Denom
  amount : Int
deriving DecidableEq, Repr

/-- Reasons for which a staking operation returns an error or panics. `hook`
carries the reason given by another module. -/
inductive Reason (φ : Type) where
  | noValidatorFound
  | validatorOwnerExists
  | validatorPubKeyExists
  | validatorPubKeyTypeNotSupported
  | badRemoveValidator
  | commissionNegative
  | commissionHuge
  | commissionGTMaxRate
  | commissionUpdateTime
  | commissionChangeRateNegative
  | commissionChangeRateGTMaxRate
  | commissionGTMaxChangeRate
  | commissionOutOfBound
  | commissionLTMinRate
  | selfDelegationBelowMinimum
  | minSelfDelegationDecreased
  | noDelegation
  | noDelegatorForAddress
  | insufficientShares
  | notEnoughDelegationShares
  | noUnbondingDelegation
  | maxUnbondingDelegationEntries
  | noRedelegation
  | selfRedelegation
  | tinyRedelegationAmount
  | badRedelegationSrc
  | badRedelegationDst
  | transitiveRedelegation
  | maxRedelegationEntries
  | delegatorShareExRateInvalid
  | validatorJailed
  | invalidAddress (text : String)
  | invalidType (text : String)
  | exceedingMaxConsPubKeyRotations
  | consensusPubKeyLenInvalid
  | noUnbondingType
  | invalidRequest (text : String)
  | insufficientFunds
  /-- "should never retrieve a jailed validator from the power store" -/
  | jailedInPowerStore
  | notFound (text : String)
  | message (text : String)
  | divisionByZero
  | hook (reason : φ)
deriving DecidableEq, Repr

/-! ## Descriptions and commissions -/

structure Description where
  moniker : String
  identity : String
  website : String
  securityContact : String
  details : String
deriving DecidableEq, Repr

def maxMonikerLength : Nat := 70
def maxIdentityLength : Nat := 3000
def maxWebsiteLength : Nat := 140
def maxSecurityContactLength : Nat := 140
def maxDetailsLength : Nat := 280

/-- The value that leaves a description field as it is. -/
def doNotModifyDesc : String := "[do-not-modify]"

/-- The empty description, which messages may not carry. -/
def Description.empty : Description := ⟨"", "", "", "", ""⟩

def Description.ensureLength (d : Description) : Option String :=
  if maxMonikerLength < d.moniker.utf8ByteSize then some "invalid moniker length"
  else if maxIdentityLength < d.identity.utf8ByteSize then some "invalid identity length"
  else if maxWebsiteLength < d.website.utf8ByteSize then some "invalid website length"
  else if maxSecurityContactLength < d.securityContact.utf8ByteSize then
    some "invalid security contact length"
  else if maxDetailsLength < d.details.utf8ByteSize then some "invalid details length"
  else none

/-- Fields of `d2` that are `doNotModifyDesc` keep their value in `d`. -/
def Description.updateDescription (d d2 : Description) : Description :=
  { moniker := if d2.moniker = doNotModifyDesc then d.moniker else d2.moniker
    identity := if d2.identity = doNotModifyDesc then d.identity else d2.identity
    website := if d2.website = doNotModifyDesc then d.website else d2.website
    securityContact :=
      if d2.securityContact = doNotModifyDesc then d.securityContact else d2.securityContact
    details := if d2.details = doNotModifyDesc then d.details else d2.details }

structure CommissionRates where
  rate : Int
  maxRate : Int
  maxChangeRate : Int
deriving DecidableEq, Repr

structure Commission extends CommissionRates where
  updateTime : Time
deriving DecidableEq, Repr

/-- Sanity checks of initial commission rates, in the order they are made. -/
def CommissionRates.validate {φ : Type} (cr : CommissionRates) : Option (Reason φ) :=
  if cr.maxRate < 0 then some .commissionNegative
  else if Dec.one < cr.maxRate then some .commissionHuge
  else if cr.rate < 0 then some .commissionNegative
  else if cr.maxRate < cr.rate then some .commissionGTMaxRate
  else if cr.maxChangeRate < 0 then some .commissionChangeRateNegative
  else if cr.maxRate < cr.maxChangeRate then some .commissionChangeRateGTMaxRate
  else none

def commissionUpdateInterval : Int := 86400000000000

/-- Checks of a new commission rate, in the order they are made. -/
def Commission.validateNewRate {φ : Type} (c : Commission) (newRate : Int) (blockTime : Time) :
    Option (Reason φ) :=
  if blockTime - c.updateTime < commissionUpdateInterval then some .commissionUpdateTime
  else if newRate < 0 then some .commissionNegative
  else if c.maxRate < newRate then some .commissionGTMaxRate
  else if c.maxChangeRate < newRate - c.rate then some .commissionGTMaxChangeRate
  else none

/-! ## Validators -/

inductive BondStatus where
  | unbonded
  | unbonding
  | bonded
deriving DecidableEq, Repr

structure Validator where
  operatorAddress : Address
  consensusPubkey : PubKey
  jailed : Bool
  status : BondStatus
  tokens : Int
  delegatorShares : Int
  description : Description
  unbondingHeight : Int
  unbondingTime : Time
  commission : Commission
  minSelfDelegation : Int
  unbondingOnHoldRefCount : Int
  unbondingIds : List Nat
deriving DecidableEq, Repr

/-- Tokens behind one unit of consensus power. -/
def powerReduction : Int := 1000000

/-- `sdk.TokensToConsensusPower` with the default reduction. -/
def tokensToConsensusPower (tokens : Int) : Int := tokens.tdiv powerReduction

/-- `sdk.TokensFromConsensusPower` with the default reduction. -/
def tokensFromConsensusPower (power : Int) : Int := power * powerReduction

/-- A fresh validator: unbonded, without tokens or shares. -/
def newValidator (operator : Address) (pubKey : PubKey) (description : Description) :
    Validator where
  operatorAddress := operator
  consensusPubkey := pubKey
  jailed := false
  status := .unbonded
  tokens := 0
  delegatorShares := 0
  description := description
  unbondingHeight := 0
  unbondingTime := 0
  commission := ⟨⟨0, 0, 0⟩, 0⟩
  minSelfDelegation := 1
  unbondingOnHoldRefCount := 0
  unbondingIds := []

namespace Validator

def isBonded (v : Validator) : Bool := v.status = .bonded
def isUnbonding (v : Validator) : Bool := v.status = .unbonding
def isUnbonded (v : Validator) : Bool := v.status = .unbonded

/-- All tokens are gone but shares are left. -/
def invalidExRate (v : Validator) : Bool := v.tokens = 0 ∧ 0 < v.delegatorShares

def tokensFromShares (v : Validator) (shares : Int) : Int :=
  Dec.quo (Dec.mulInt shares v.tokens) v.delegatorShares

/-- Shares worth an amount of tokens; undefined without tokens. -/
def sharesFromTokens (v : Validator) (amount : Int) : Option Int :=
  if v.tokens = 0 then none
  else some (Dec.quoInt (Dec.mulInt v.delegatorShares amount) v.tokens)

def sharesFromTokensTruncated (v : Validator) (amount : Int) : Option Int :=
  if v.tokens = 0 then none
  else some (Dec.quoTruncate (Dec.mulInt v.delegatorShares amount) (Dec.ofInt v.tokens))

def bondedTokens (v : Validator) : Int := if v.isBonded then v.tokens else 0

def potentialConsensusPower (v : Validator) : Int := tokensToConsensusPower v.tokens

def consensusPower (v : Validator) : Int :=
  if v.isBonded then v.potentialConsensusPower else 0

def updateStatus (v : Validator) (newStatus : BondStatus) : Validator :=
  { v with status := newStatus }

/-- Shares issued for a deposit; none when the exchange rate is undefined. -/
def issuedShares (v : Validator) (amount : Int) : Option Int :=
  if v.delegatorShares = 0 then some (Dec.ofInt amount) else v.sharesFromTokens amount

/-- Add a deposit's tokens and the shares issued for it. -/
def addTokensFromDel (v : Validator) (amount : Int) : Option (Validator × Int) :=
  (v.issuedShares amount).map fun issued =>
    ({ v with tokens := v.tokens + amount, delegatorShares := v.delegatorShares + issued }, issued)

/-- Tokens paid out for shares: everything for the last shares, else their worth
truncated to whole tokens. -/
def issuedTokens (v : Validator) (delShares : Int) : Int :=
  if v.delegatorShares - delShares = 0 then v.tokens
  else Dec.truncateInt (v.tokensFromShares delShares)

/-- Remove shares and the tokens paid out for them. -/
def removeDelShares (v : Validator) (delShares : Int) : Validator × Int :=
  ({ v with
      tokens := v.tokens - v.issuedTokens delShares
      delegatorShares := v.delegatorShares - delShares },
    v.issuedTokens delShares)

end Validator

/-! ## Delegations -/

structure Delegation where
  delegatorAddress : Address
  validatorAddress : Address
  shares : Int
deriving DecidableEq, Repr

structure UnbondingDelegationEntry where
  creationHeight : Int
  completionTime : Time
  initialBalance : Int
  balance : Int
  unbondingId : Nat
  unbondingOnHoldRefCount : Int
deriving DecidableEq, Repr

def newUnbondingDelegationEntry (creationHeight : Int) (completionTime : Time) (balance : Int)
    (unbondingId : Nat) : UnbondingDelegationEntry :=
  ⟨creationHeight, completionTime, balance, balance, unbondingId, 0⟩

def UnbondingDelegationEntry.isMature (e : UnbondingDelegationEntry) (currentTime : Time) : Bool :=
  e.completionTime ≤ currentTime

def UnbondingDelegationEntry.onHold (e : UnbondingDelegationEntry) : Bool :=
  0 < e.unbondingOnHoldRefCount

structure UnbondingDelegation where
  delegatorAddress : Address
  validatorAddress : Address
  entries : List UnbondingDelegationEntry
deriving DecidableEq, Repr

/-- Add a balance to the first entry with the given height and time; none when
there is no such entry. -/
def mergeEntry (creationHeight : Int) (minTime : Time) (balance : Int) :
    List UnbondingDelegationEntry → Option (List UnbondingDelegationEntry)
  | [] => none
  | entry :: rest =>
    if entry.creationHeight = creationHeight ∧ entry.completionTime = minTime then
      some ({ entry with
                balance := entry.balance + balance
                initialBalance := entry.initialBalance + balance } :: rest)
    else (mergeEntry creationHeight minTime balance rest).map (entry :: ·)

/-- Append an entry, or merge it into one of the same height and time; the flag
says whether a new entry was made. -/
def UnbondingDelegation.addEntry (ubd : UnbondingDelegation) (creationHeight : Int)
    (minTime : Time) (balance : Int) (unbondingId : Nat) : UnbondingDelegation × Bool :=
  match mergeEntry creationHeight minTime balance ubd.entries with
  | some merged => ({ ubd with entries := merged }, false)
  | none =>
    ({ ubd with
        entries := ubd.entries
          ++ [newUnbondingDelegationEntry creationHeight minTime balance unbondingId] }, true)

structure RedelegationEntry where
  creationHeight : Int
  completionTime : Time
  initialBalance : Int
  sharesDst : Int
  unbondingId : Nat
  unbondingOnHoldRefCount : Int
deriving DecidableEq, Repr

def newRedelegationEntry (creationHeight : Int) (completionTime : Time) (balance : Int)
    (sharesDst : Int) (unbondingId : Nat) : RedelegationEntry :=
  ⟨creationHeight, completionTime, balance, sharesDst, unbondingId, 0⟩

def RedelegationEntry.isMature (e : RedelegationEntry) (currentTime : Time) : Bool :=
  e.completionTime ≤ currentTime

def RedelegationEntry.onHold (e : RedelegationEntry) : Bool := 0 < e.unbondingOnHoldRefCount

structure Redelegation where
  delegatorAddress : Address
  validatorSrcAddress : Address
  validatorDstAddress : Address
  entries : List RedelegationEntry
deriving DecidableEq, Repr

def Redelegation.addEntry (red : Redelegation) (creationHeight : Int) (minTime : Time)
    (balance : Int) (sharesDst : Int) (unbondingId : Nat) : Redelegation :=
  { red with
      entries := red.entries
        ++ [newRedelegationEntry creationHeight minTime balance sharesDst unbondingId] }

/-! ## Parameters -/

structure Params where
  unbondingTime : Int
  maxValidators : Nat
  maxEntries : Nat
  bondDenom : Denom
  minCommissionRate : Int
  maxCommissionRate : Int
  keyRotationFee : Coin
deriving DecidableEq, Repr

end AtomOneSdk.Staking
